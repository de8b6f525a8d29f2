import Essl.Proofs.Typing.OperationSound
import Essl.Proofs.Value.Construct
import Essl.Typing.Construction

/-!
# Calls and constructors keep the rules

What is called has the type that it returns or constructs. Functions are found by the signature of
the arguments, so the arguments match the parameters as far as signatures tell types apart.
-/

namespace Essl

variable {clean : Prop}

theorem List.forall₂_comp {α β γ : Type} {R : α → β → Prop} {S : β → γ → Prop} {T : α → γ → Prop}
    {xs : List α} {ys : List β} {zs : List γ} (hxy : List.Forall₂ R xs ys)
    (hyz : List.Forall₂ S ys zs) (h : ∀ x, ∀ y ∈ ys, ∀ z, R x y → S y z → T x z) :
    List.Forall₂ T xs zs := by
  induction hxy generalizing zs with
  | nil =>
      cases hyz
      exact .nil
  | @cons x y xs ys hR _ ih =>
      cases hyz with
      | cons hS hyz =>
          refine .cons (h x y List.mem_cons_self _ hR hS) (ih hyz ?_)
          exact fun x z hz => h x z (List.mem_cons_of_mem y hz)

/-! ## Constructors of built-in types -/

theorem typePrimitiveConstructor_ensures (target : Primitive) {types : List Ty}
    {arguments : List Expr} (htypes : types? arguments = some types) (location : Location) :
    (typePrimitiveConstructor target types arguments location).Ensures clean fun info =>
      info.Typed clean ∧ info.symbol = none ∧ (clean → CallFolded info arguments) := by
  unfold typePrimitiveConstructor
  dsimp only
  split
  · exact Noted.Ensures.reported fun hnot => ⟨Typed.unknown hnot, rfl, hnot.elim⟩
  · rename_i hpart
    split
    · exact Noted.Ensures.reported fun hnot =>
        ⟨Typed.ofType Ty.proper_primitive, rfl, hnot.elim⟩
    · exact Noted.Ensures.reported fun hnot =>
        ⟨Typed.ofType Ty.proper_primitive, rfl, hnot.elim⟩
    · rename_i hfault
      apply Noted.Ensures.pure
      refine ⟨Typed.primitive ?_, rfl, fun _ => ?_⟩
      · intro _ v hv
        obtain ⟨vs, -, hv⟩ := Option.bind_eq_some_iff.1 hv
        exact Primitive.construct_holds hv
      · exact ⟨target, types, htypes, by simpa [Option.isSome_iff_ne_none] using hpart, hfault, rfl⟩

/-! ## Structs and arrays -/

theorem requireTypes_ensures : ∀ {types : List (Option Ty)} {arguments : List Expr},
    types.length = arguments.length → (∀ type ∈ types, Known clean type) →
      (∀ e ∈ arguments, e.info.Typed clean) →
        (requireTypes types arguments).Ensures clean fun matched => clean → matched = true ∧
          List.Forall₂ (fun type argument => ∃ t, type = some t ∧ argument.info.type = some t)
            types arguments
  | [], [], _, _, _ => Noted.Ensures.pure fun _ => ⟨rfl, .nil⟩
  | some expected :: types, argument :: arguments, hlength, htypes, harguments => by
      have hrest := requireTypes_ensures (Nat.succ.inj hlength)
        (fun t ht => htypes t (List.mem_cons_of_mem _ ht))
        fun e he => harguments e (List.mem_cons_of_mem _ he)
      refine (requireType_known (htypes _ List.mem_cons_self)
        (harguments _ List.mem_cons_self).known argument.location).bind fun _ hfirst => ?_
      refine hrest.bind fun others hothers => Noted.Ensures.pure fun hclean => ?_
      obtain ⟨rfl, hpairs⟩ := hothers hclean
      have heq := (hfirst hclean).symm
      exact ⟨by simp [heq], .cons ⟨expected, rfl, heq⟩ hpairs⟩
  | none :: types, argument :: arguments, _, htypes, _ =>
      fun _ hclean => absurd hclean (htypes none List.mem_cons_self)

section

variable {arguments : List Expr} {vs : List Value}

theorem typeStructConstructor_ensures {s : StructDef} (hs : s.Proper clean)
    (h : ∀ e ∈ arguments, e.info.Typed clean) (location : Location) :
    (typeStructConstructor s arguments location).Ensures clean fun info => info.Typed clean ∧
      (∀ f, info.symbol ≠ some (.function f)) ∧ (clean → CallFolded info arguments) := by
  have hs' : (Ty.struct s).Proper clean := hs
  have hfields := (StructDef.proper_iff.1 hs).2
  unfold typeStructConstructor
  split
  · exact Noted.Ensures.reported fun hnot =>
      ⟨Typed.ofType hs', by simp [ExprInfo.ofType], hnot.elim⟩
  · rename_i hlength
    refine Noted.Ensures.bind (requireTypes_ensures (by simpa using (not_not.1 hlength).symm)
      (by simpa using hfields) h) fun matched hmatched => ?_
    apply Noted.Ensures.pure
    refine ⟨Typed.some hs' ?_, by simp, fun hclean => by simp [CallFolded, hmatched hclean]⟩
    intro hclean v hv
    obtain ⟨rfl, hpairs⟩ := hmatched hclean
    obtain ⟨vs, hvs, rfl⟩ := Option.map_eq_some_iff.1 hv
    refine StructDef.holds_iff.2 ⟨vs, rfl, ?_⟩
    refine List.forall₂_comp (List.forall₂_map_left_iff.1 hpairs) (List.forall₂_of_mapM hvs) ?_
    rintro field e he w ⟨t, hfield, ht⟩ hw
    exact ⟨t, hfield, (h e he).holds hclean t ht w hw⟩

theorem typeArrayElements_ensures {element : Ty} (helement : element.Proper clean)
    {length : Option Nat} (hlength : clean → length ≠ none)
    (h : ∀ e ∈ arguments, e.info.Typed clean) (location : Location) :
    (typeArrayElements element length arguments location).Ensures clean fun info =>
      info.Typed clean ∧ (clean → info.constant = (constants? arguments).map .composite) := by
  unfold typeArrayElements
  split
  · rename_i length types _
    have hproper : (Ty.array element length).Proper clean := helement
    dsimp only
    split
    · exact Noted.Ensures.reported fun hnot => ⟨Typed.ofType hproper, hnot.elim⟩
    · rename_i hcount
      refine Noted.Ensures.bind (requireTypes_ensures (by simp) (by simpa using fun _ => helement)
        h) fun matched hmatched => ?_
      apply Noted.Ensures.pure
      refine ⟨Typed.some hproper ?_, fun hclean => by simp [ExprInfo.ofValue, hmatched hclean]⟩
      intro hclean v hv
      obtain ⟨rfl, hpairs⟩ := hmatched hclean
      obtain ⟨vs, hvs, rfl⟩ := Option.map_eq_some_iff.1 hv
      have hvs := List.forall₂_of_mapM hvs
      have hpairs := List.forall₂_map_left_iff.1 hpairs
      refine ⟨by rw [← hvs.length_eq]; exact not_not.1 hcount, ?_⟩
      intro v hv
      obtain ⟨e, he, hev⟩ := List.exists_of_forall₂_mem hvs hv
      obtain ⟨_, _, t, ht, het⟩ := List.exists_of_forall₂_mem hpairs he
      cases ht
      exact (h e he).holds hclean element het v hev
  · rename_i hunknown
    have hnot : ¬ clean := by
      intro hclean
      obtain ⟨n, hn⟩ := Option.ne_none_iff_exists'.1 (hlength hclean)
      obtain ⟨types, htypes⟩ := Option.ne_none_iff_exists'.1 (types?_ne_none h hclean)
      exact hunknown n types hn htypes
    exact Noted.Ensures.pure ⟨Typed.unknown hnot, hnot.elim⟩

theorem typeArrayConstructor_ensures {c : Context} {returnType : Option Ty}
    (hc : c.Sound clean returnType) (callee : Token) {length : Option Nat}
    (hlength : clean → length ≠ none) (h : ∀ e ∈ arguments, e.info.Typed clean)
    (location : Location) :
    (typeArrayConstructor c callee length arguments location).Ensures clean fun info =>
      info.Typed clean ∧ (clean → info.constant = (constants? arguments).map .composite) := by
  unfold typeArrayConstructor
  refine (hc.typeNamed? callee).bind fun found hfound => ?_
  cases found with
  | none =>
      have hnot : ¬ clean := hfound
      exact Noted.Ensures.pure ⟨Typed.unknown hnot, hnot.elim⟩
  | some element =>
      dsimp only
      split
      · exact typeArrayElements_ensures hfound hlength h location
      · exact Noted.Ensures.reported fun hnot => ⟨Typed.unknown hnot, hnot.elim⟩

/-! ## Calls -/

/-- A function that is found for arguments of some types has parameters of these types, as far as
signatures tell. A built-in one has exactly these. -/
theorem Context.Sound.function?_alike {c : Context} {returnType : Option Ty}
    (hc : c.Sound clean returnType) {name : String} (hname : '(' ∉ name.toList) {types : List Ty}
    (htypes : ∀ t ∈ types, t.Proper clean) {f : Function} (h : c.function? name types = some f) :
    List.Forall₂ Ty.Alike types (f.parameters.map Parameter.type) ∧
      f.returnType.Proper clean ∧
        (f.evaluate = none ∨ f ∈ Builtin.functions ∧ f.parameters.map Parameter.type = types) := by
  have hnamed : ∀ t ∈ types, t.Named := fun t ht => (htypes t ht).named
  rcases Option.or_eq_some_iff.1 h with h | ⟨-, h⟩
  · obtain ⟨hsignature, hf⟩ := hc.function h
    have htexts : f.parameters.map (·.type.text) =
        (f.parameters.map Parameter.type).map Ty.text := by simp [Function.comp_def]
    have hparameters : ∀ t ∈ f.parameters.map Parameter.type, t.Distinctive := by
      intro t ht
      obtain ⟨p, hp, rfl⟩ := List.mem_map.1 ht
      exact (hf.parameters p hp).named.distinctive
    rw [Function.signature, htexts] at hsignature
    have halike := alike_of_signature hname hf.name (fun t ht => (hnamed t ht).distinctive)
      hparameters hsignature
    exact ⟨halike.2, hf.returnType, .inl hf.evaluate⟩
  · obtain ⟨hf, -, hparameters⟩ := Builtin.function?_spec hname hnamed h
    obtain ⟨result, hresult⟩ := (Builtin.functions_faithful f hf).returnType_primitive
    refine ⟨?_, by simp [hresult], .inr ⟨hf, hparameters⟩⟩
    rw [hparameters]
    exact List.forall₂_same.2 fun t _ => Ty.Alike.refl t

theorem typeFunctionCall_ensures {types : List Ty} {f : Function}
    (htypes : types? arguments = some types) (hreturn : f.returnType.Proper clean)
    (hevaluate : f.evaluate = none ∨
      f ∈ Builtin.functions ∧ f.parameters.map Parameter.type = types)
    (h : ∀ e ∈ arguments, e.info.Typed clean) :
    (typeFunctionCall f arguments).Ensures clean fun info => info.Typed clean ∧
      info.symbol = some (.function f) ∧ CallFolded info arguments := by
  refine Noted.Ensures.andThen fun _ => Noted.Ensures.pure ⟨Typed.some hreturn ?_, rfl, ?_, rfl⟩
  · intro hclean v hv
    obtain ⟨evaluate, hevaluated, hv⟩ := Option.bind_eq_some_iff.1 hv
    obtain ⟨vs, hvs, hv⟩ := Option.bind_eq_some_iff.1 hv
    rcases hevaluate with hnone | ⟨hf, hparameters⟩
    · rw [hnone] at hevaluated
      cases hevaluated
    · refine (Builtin.functions_faithful f hf).holds hevaluated ?_ hv
      rw [hparameters]
      exact constants?_hold h hclean htypes hvs
  · exact hevaluate.imp_right fun ⟨hf, hparameters⟩ => ⟨hf, hparameters ▸ htypes⟩

theorem typeCall_ensures {c : Context} {returnType : Option Ty} (hc : c.Sound clean returnType)
    {callee : Token} (hcallee : '(' ∉ callee.text.toList)
    (h : ∀ e ∈ arguments, e.info.Typed clean) (location : Location) :
    (typeCall c callee arguments location).Ensures clean fun info => info.Typed clean ∧
      (∀ f, info.symbol = some (.function f) → Expr.Matches arguments f.parameters) ∧
        (clean → CallFolded info arguments) := by
  unfold typeCall
  cases htypes : types? arguments with
  | none =>
      have hnot : ¬ clean := fun hclean => types?_ne_none h hclean htypes
      exact Noted.Ensures.pure ⟨Typed.unknown hnot, by rintro f ⟨⟩, hnot.elim⟩
  | some types =>
      dsimp only
      split
      · rename_i f hf
        obtain ⟨halike, hreturn, hevaluate⟩ :=
          hc.function?_alike hcallee (types?_proper h htypes) hf
        refine (typeFunctionCall_ensures htypes hreturn hevaluate h).mono fun info hinfo => ?_
        refine ⟨hinfo.1, ?_, fun _ => hinfo.2.2⟩
        intro g hg
        rw [hinfo.2.1] at hg
        cases hg
        refine List.forall₂_comp (List.forall₂_of_mapM htypes)
          (List.forall₂_map_right_iff.1 halike) ?_
        exact fun e t _ p het htp => ⟨t, het, htp⟩
      · rename_i s _ hs
        refine (typeStructConstructor_ensures (hc.symbol hs) h location).mono fun info hinfo => ?_
        exact ⟨hinfo.1, fun f hf => absurd hf (hinfo.2.1 f), hinfo.2.2⟩
      · refine (typePrimitiveConstructor_ensures _ htypes location).mono
          fun info hinfo => ⟨hinfo.1, ?_, hinfo.2.2⟩
        intro f hf
        rw [hinfo.2.1] at hf
        cases hf
      · split
        · rename_i hunresolved
          have hnot : ¬ clean := by
            intro hclean
            rw [hc.unresolved hclean] at hunresolved
            cases hunresolved
          exact Noted.Ensures.pure ⟨Typed.unknown hnot, by rintro f ⟨⟩, hnot.elim⟩
        · exact Noted.Ensures.reported fun hnot =>
            ⟨Typed.unknown hnot, by rintro f ⟨⟩, hnot.elim⟩

end

end Essl
