import Essl.Proofs.Grammar.ExprReading

/-!
# What the grammar of types reads

The types that are taken are well-formed with the qualifiers that their place allows, token by
token, and what was taken before a failure is the start of one.
-/

namespace Essl

open Grammar

namespace TypeSpec

variable (q : TypeQualifiers) (s : TypeSpec)

@[simp] theorem qualifiers_setQualifiers : (s.setQualifiers q).qualifiers = q := by
  cases s <;> rfl

@[simp] theorem core_setQualifiers : (s.setQualifiers q).core = s.core := by
  cases s <;> simp [setQualifiers, core]

@[simp] theorem coreFormed_setQualifiers : (s.setQualifiers q).CoreFormed ↔ s.CoreFormed := by
  cases s <;> simp [setQualifiers, CoreFormed]

end TypeSpec

theorem FieldSpec.piecesOfAll_cons (f : FieldSpec) (fs : List FieldSpec) :
    FieldSpec.piecesOfAll (f :: fs) = FieldSpec.piecesOfAll [f] ++ FieldSpec.piecesOfAll fs := by
  cases f
  simp [FieldSpec.piecesOfAll]

theorem FieldSpec.allFormed_cons (f : FieldSpec) (fs : List FieldSpec) :
    FieldSpec.AllFormed (f :: fs) ↔ FieldSpec.AllFormed [f] ∧ FieldSpec.AllFormed fs := by
  cases f
  simp [FieldSpec.AllFormed, and_assoc]

theorem TypeQualifiers.Bare.pieces_eq {q : TypeQualifiers} (h : q.Bare) : q.pieces = [] := by
  rw [TypeQualifiers.pieces, h.1, h.2]
  rfl

theorem TypeQualifiers.bare_none : TypeQualifiers.none.Bare := ⟨rfl, rfl⟩

theorem TypeSpec.BareFormed.precise {s : TypeSpec} (h : s.BareFormed) : s.PreciseFormed :=
  ⟨⟨h.1.1, by simp [h.1.2]⟩, h.2⟩

theorem TypeSpec.PreciseFormed.full {s : TypeSpec} (h : s.PreciseFormed) : s.FullFormed :=
  ⟨⟨by rw [h.1.1]; trivial, h.1.2⟩, h.2⟩

section

variable {inner : Token → Parse TypeSpec} {t : Token} {ts : List Token}

/-- A parser for the types of fields takes only well-formed ones, or what starts one. -/
def ReadsFieldType (inner : Token → Parse TypeSpec) : Prop :=
  ∀ ts, Reads (Parse.next precisionTypeStart inner) ts fun s w _ =>
    s.PreciseFormed ∧ Spells s.pieces w

/-! ## Structs -/

theorem reads_fieldNames (turns : Nat) (hturns : ts.length ≤ turns - 1) :
    Reads (fieldNames turns) ts fun a w _ =>
      a.1 ≠ [] ∧ (∀ d ∈ a.1, d.WellFormedField) ∧ a.2.kind = .operator .semicolon ∧
        Spells (commaBetween (a.1.map Declarator.pieces) ++ [.kept a.2]) w := by
  have hfield : ∀ (name : Token) (size : Option ArraySize) (w : List Token),
      name.kind = .identifier → (∀ s ∈ size, s.WellFormed) → Spells (sizePieces size) w →
      (Declarator.ofName name size none).WellFormedField ∧
        Spells (Declarator.ofName name size none).pieces (name :: w) := by
    intro name size w hname hsize hw
    refine ⟨⟨⟨hname, hsize, by simp [Declarator.ofName]⟩, rfl⟩, ?_⟩
    simpa [Declarator.pieces, Declarator.ofName, initializerPieces] using hw
  induction turns generalizing ts with
  | zero =>
      have hone := hfield (.plain .identifier) none [] rfl (by simp) .nil
      refine Reads.fail_none [.identifier, .operator .semicolon]
        (List.length_eq_zero_iff.1 (by omega))
        (a := ([.ofName (.plain .identifier) none none], .plain (.operator .semicolon)))
        ⟨by simp, by simpa using hone.1, rfl, ?_⟩
      exact hone.2.append (.kept .nil)
  | succ turns ih =>
      refine Reads.requireKind_bind fun name rest _ hname => ?_
      refine reads_arraySize.bind fun size w rest' _ hsize => ?_
      obtain ⟨hone, hpieces⟩ := hfield name size w hname hsize.1 hsize.2
      refine Reads.take_either rfl (fun _ => rfl) (by decide) ?_ ?_
      · intro comma rest _ hcomma
        refine (ih (by omega)).bind fun a w' _ _ ha => Reads.pure ?_
        obtain ⟨names, semicolon⟩ := a
        obtain ⟨hne, hall, hsemicolon, hspells⟩ := ha
        refine ⟨by simp, by simpa using ⟨hone, hall⟩, hsemicolon, ?_⟩
        rw [List.append_nil]
        exact Spells.commaBetween_cons hne hpieces hcomma hspells
      · intro semicolon _ _ hsemicolon
        exact Reads.pure ⟨by simp, by simpa using hone, hsemicolon,
          Spells.commaBetween_single hpieces (.kept .nil)⟩

theorem reads_fieldSpec (hinner : ReadsFieldType inner) :
    Reads (fieldSpec inner) ts fun f w _ =>
      FieldSpec.AllFormed [f] ∧ Spells (FieldSpec.piecesOfAll [f]) w := by
  refine (hinner ts).bind fun s w rest _ hs => Reads.remaining_bind ?_
  refine (reads_fieldNames (rest.length + 1) (by omega)).bind fun a w' _ _ ha => Reads.pure ?_
  obtain ⟨⟨hprecise, hcore⟩, hw⟩ := hs
  refine ⟨⟨hprecise, hcore, ha.1, ha.2.1, ha.2.2.1, trivial⟩, ?_⟩
  simpa [FieldSpec.piecesOfAll, TypeSpec.pieces] using hw.append ha.2.2.2

theorem FieldSpec.length_pieces_pos (f : FieldSpec) : 1 ≤ (FieldSpec.piecesOfAll [f]).length := by
  cases f
  simp only [FieldSpec.piecesOfAll, List.length_append, List.length_cons]
  omega

theorem reads_moreFields (hinner : ReadsFieldType inner) (turns : Nat)
    (hturns : ts.length ≤ turns - 1) :
    Reads (moreFields inner turns) ts fun a w _ =>
      FieldSpec.AllFormed a.1 ∧ a.2.kind = .operator .closeBrace ∧
        Spells (FieldSpec.piecesOfAll a.1 ++ [.kept a.2]) w := by
  have hend : ∀ t : Token, t.kind = .operator .closeBrace →
      FieldSpec.AllFormed [] ∧ t.kind = .operator .closeBrace ∧
        Spells (FieldSpec.piecesOfAll [] ++ [.kept t]) [t] :=
    fun t ht => ⟨trivial, ht, .kept .nil⟩
  induction turns generalizing ts with
  | zero =>
      exact Reads.fail_none [.operator .closeBrace] (List.length_eq_zero_iff.1 (by omega))
        (a := ([], Token.plain (.operator .closeBrace))) (hend _ rfl)
  | succ turns ih =>
      refine Reads.accept_bind ?_ fun _ => ?_
      · exact fun closing _ _ hclosing => Reads.pure (hend closing hclosing)
      · refine (reads_fieldSpec hinner).bind fun f w rest _ hf => ?_
        have hlength := hf.2.length_eq ▸ f.length_pieces_pos
        refine (ih (by omega)).bind fun a w' _ _ ha => Reads.pure ?_
        refine ⟨(FieldSpec.allFormed_cons f a.1).2 ⟨hf.1, ha.1⟩, ha.2.1, ?_⟩
        rw [FieldSpec.piecesOfAll_cons, List.append_assoc, List.append_nil]
        exact hf.2.append ha.2.2

theorem reads_structSpec (hinner : ReadsFieldType inner) (ht : t.kind = .keyword .struct) :
    Reads (structSpec inner t) ts fun s w _ => s.BareFormed ∧ Spells s.pieces (t :: w) := by
  -- After the name, or where there is none, only the brace is left of what is asked for.
  have hbody : ∀ (name : Option Token) (ts : List Token), (∀ n ∈ name, n.kind = .identifier) →
      (name = none → ∀ u ∈ ts.head?, u.kind ≠ .identifier) →
      Reads (Parse.require (if name.isSome then [.operator .openBrace]
          else [.identifier, .operator .openBrace]) >>= fun opening => do
        let field ← fieldSpec inner
        let more ← moreFields inner ((← Parse.remaining) + 1)
        pure (TypeSpec.struct .none t name opening (field :: more.1) more.2 none none)) ts
        fun s w _ => s.BareFormed ∧ Spells s.pieces (t :: (name.toList ++ w)) := by
    intro name ts hname hhead
    refine Reads.require_bind_of_head [.operator .openBrace] (by simp) ?_ ?_ ?_
    · cases name <;> simp
    · intro u hu hmem
      cases name with
      | none => simpa [hhead rfl u hu] using hmem
      | some name => simpa using hmem
    · intro opening rest _ hopening
      refine (reads_fieldSpec hinner).bind fun f w rest' _ hf => Reads.remaining_bind ?_
      refine (reads_moreFields hinner (rest'.length + 1) (by omega)).bind
        fun a w' _ _ ha => Reads.pure ?_
      refine ⟨⟨TypeQualifiers.bare_none, ht, hname, by simpa using hopening, by simp,
        (FieldSpec.allFormed_cons f a.1).2 ⟨hf.1, ha.1⟩, ha.2.1⟩, ?_⟩
      refine .kept ((Spells.map_kept name.toList).append (.kept ?_))
      rw [FieldSpec.piecesOfAll_cons, List.append_assoc, List.append_nil]
      exact hf.2.append ha.2.2
  refine Reads.accept_bind ?_ fun hhead => ?_
  · intro name rest _ hname
    exact hbody (some name) rest (by simpa using hname) (by simp)
  · exact hbody none ts (by simp) fun _ => hhead

/-! ## Qualifiers -/

theorem reads_bareType (hinner : ReadsFieldType inner) (ht : t.kind ∈ bareTypeStart) :
    Reads (bareType inner t) ts fun s w _ => s.BareFormed ∧ Spells s.pieces (t :: w) := by
  rw [bareType]
  split
  · exact reads_structSpec hinner (Token.isKeyword_iff.1 (by assumption))
  · rename_i hstruct
    rw [if_pos (by simpa using ht)]
    refine Reads.pure ⟨⟨TypeQualifiers.bare_none, ht, ?_⟩, .kept .nil⟩
    rwa [Token.isKeyword_iff] at hstruct

theorem rejects_bareType (ht : t.kind ∉ bareTypeStart) : Rejects (bareType inner t) t ts := by
  have hstruct : ¬ t.isKeyword .struct = true := by
    rw [Token.isKeyword_iff]
    intro h
    exact ht (h ▸ by decide)
  rw [bareType, if_neg hstruct, if_neg (by simpa using ht)]
  exact rejects_fail _ t ts

theorem TypeSpec.BareFormed.pieces_eq {s : TypeSpec} (h : s.BareFormed) : s.pieces = s.core := by
  rw [TypeSpec.pieces, h.1.pieces_eq, List.nil_append]

theorem reads_precisionQualified (hinner : ReadsFieldType inner) (ht : t.kind ∈ precisionStart) :
    Reads (precisionQualified inner t) ts fun s w _ =>
      s.PreciseFormed ∧ Spells s.pieces (t :: w) := by
  have hbare : Reads (Parse.next bareTypeStart (bareType inner)) ts fun s w _ =>
      s.BareFormed ∧ Spells s.pieces w :=
    Reads.next bareTypeStart (by decide) (fun _ _ _ => reads_bareType hinner)
      fun _ _ => rejects_bareType
  refine hbare.bind fun s w _ _ hs => Reads.pure ?_
  obtain ⟨hs, hw⟩ := hs
  rw [hs.pieces_eq] at hw
  refine ⟨⟨?_, by simpa using hs.2⟩, ?_⟩
  · rw [TypeSpec.qualifiers_setQualifiers]
    exact ⟨rfl, by simpa using ht⟩
  · rw [TypeSpec.pieces, TypeSpec.qualifiers_setQualifiers, TypeSpec.core_setQualifiers,
      List.append_nil]
    exact .kept hw

theorem reads_precisionType (hinner : ReadsFieldType inner) (ht : t.kind ∈ precisionTypeStart) :
    Reads (precisionType inner t) ts fun s w _ => s.PreciseFormed ∧ Spells s.pieces (t :: w) := by
  simp only [precisionType, List.contains_iff_mem]
  split
  · exact reads_precisionQualified hinner (by assumption)
  · rename_i hprecision
    have hbare : t.kind ∈ bareTypeStart := (List.mem_append.1 ht).resolve_left hprecision
    rw [if_pos hbare]
    exact (reads_bareType hinner hbare).mono fun _ _ _ hs => ⟨hs.1.precise, hs.2⟩

theorem rejects_precisionType (ht : t.kind ∉ precisionTypeStart) :
    Rejects (precisionType inner t) t ts := by
  simp only [precisionTypeStart, List.mem_append, not_or] at ht
  rw [precisionType, if_neg (by simpa using ht.1), if_neg (by simpa using ht.2)]
  exact rejects_fail _ t ts

theorem reads_storageQualified (hinner : ReadsFieldType inner) (ht : t.kind ∈ storageStart) :
    Reads (storageQualified inner t) ts fun s w _ =>
      s.FullFormed ∧ Spells s.pieces (t :: w) := by
  have hprecise : ∀ ts, Reads (Parse.next precisionTypeStart (precisionType inner)) ts
      fun s w _ => s.PreciseFormed ∧ Spells s.pieces w :=
    fun ts => Reads.next precisionTypeStart (by decide) (fun _ _ _ => reads_precisionType hinner)
      fun _ _ => rejects_precisionType
  have htype : ∀ storage ts, TypeQualifiers.StorageAllowed storage →
      Reads (do
        let s ← Parse.next precisionTypeStart (precisionType inner)
        pure (s.setQualifiers ⟨storage, s.qualifiers.precision⟩)) ts
        fun s w _ => s.FullFormed ∧ Spells s.pieces (storage ++ w) := by
    intro storage ts hallowed
    refine (hprecise ts).bind fun s w _ _ hs => Reads.pure ?_
    obtain ⟨⟨⟨hempty, hprecision⟩, hcore⟩, hw⟩ := hs
    refine ⟨⟨?_, by simpa using hcore⟩, ?_⟩
    · rw [TypeSpec.qualifiers_setQualifiers]
      exact ⟨hallowed, hprecision⟩
    · rw [TypeSpec.pieces, TypeQualifiers.pieces, hempty] at hw
      rw [TypeSpec.pieces, TypeSpec.qualifiers_setQualifiers, TypeSpec.core_setQualifiers,
        TypeQualifiers.pieces, List.append_assoc, List.append_nil]
      exact (Spells.map_kept storage).append hw
  simp only [storageQualified, pure_bind]
  split
  · rename_i hinvariant
    refine Reads.requireKind_bind fun varying rest _ hvarying => ?_
    exact htype [t, varying] rest ⟨Token.isKeyword_iff.1 hinvariant, hvarying⟩
  · rename_i hinvariant
    rw [Token.isKeyword_iff] at hinvariant
    exact htype [t] ts ⟨ht, hinvariant⟩

theorem reads_qualifiedType (hinner : ReadsFieldType inner) (ht : t.kind ∈ qualifiedTypeStart) :
    Reads (qualifiedType inner t) ts fun s w _ => s.FullFormed ∧ Spells s.pieces (t :: w) := by
  simp only [qualifiedType, List.contains_iff_mem]
  split
  · exact reads_storageQualified hinner (by assumption)
  · rename_i hstorage
    exact (reads_precisionType hinner ((List.mem_append.1 ht).resolve_left hstorage)).mono
      fun _ _ _ hs => ⟨hs.1.full, hs.2⟩

/-! ## Rules -/

theorem readsFieldType_typeWithin (depth : Nat) : ReadsFieldType (typeWithin depth) := by
  induction depth with
  | zero =>
      intro ts
      have hone : (TypeSpec.named .none (.plain (.keyword (.type .float))) none).PreciseFormed ∧
          Spells (TypeSpec.named .none (.plain (.keyword (.type .float))) none).pieces
            [.plain (.keyword (.type .float))] :=
        ⟨TypeSpec.BareFormed.precise ⟨TypeQualifiers.bare_none,
          show TokenKind.keyword (.type .float) ∈ bareTypeStart by decide,
          show TokenKind.keyword (.type .float) ≠ .keyword .struct by decide⟩, .kept .nil⟩
      cases ts with
      | nil => exact Reads.of_error rfl ⟨[], rfl, fun _ => rfl, _, [.keyword (.type .float)], hone⟩
      | cons t rest => exact Reads.of_error rfl ⟨[], rfl, by simp, _, [.keyword (.type .float)], hone⟩
  | succ depth ih =>
      intro ts
      exact Reads.next precisionTypeStart (by decide) (fun _ _ _ => reads_precisionType ih)
        fun _ _ => rejects_precisionType

theorem reads_typeRule {expected : List TokenKind}
    {body : (Token → Parse TypeSpec) → Token → Parse TypeSpec}
    {Good : TypeSpec → List Token → List Token → Prop}
    (h : ∀ inner, ReadsFieldType inner → Reads (body inner t) ts Good) :
    Reads ((typeRule expected body).body t) ts Good :=
  Reads.congr rfl (h _ (readsFieldType_typeWithin ts.length))

theorem reads_bareTypeRule : Reads bareTypeRule.next ts fun s w _ =>
    s.BareFormed ∧ Spells s.pieces w :=
  Reads.rule_next (by decide) fun _ _ ht => reads_typeRule fun _ hinner => reads_bareType hinner ht

theorem reads_precisionTypeRule : Reads precisionTypeRule.next ts fun s w _ =>
    s.PreciseFormed ∧ Spells s.pieces w :=
  Reads.rule_next (by decide) fun _ _ ht =>
    reads_typeRule fun _ hinner => reads_precisionType hinner ht

theorem reads_qualifiedTypeRule_body (ht : t.kind ∈ qualifiedTypeStart) :
    Reads (qualifiedTypeRule.body t) ts fun s w _ => s.FullFormed ∧ Spells s.pieces (t :: w) :=
  reads_typeRule fun _ hinner => reads_qualifiedType hinner ht

/-- A name by itself is a type. -/
theorem qualifiedTypeRule_body_identifier (ht : t.kind = .identifier) :
    qualifiedTypeRule.body t ts = .ok (.named .none t none, ts) := by
  have hstorage : ¬ storageStart.contains t.kind := by rw [ht]; decide
  have hprecision : ¬ precisionStart.contains t.kind := by rw [ht]; decide
  have hbare : bareTypeStart.contains t.kind := by rw [ht]; decide
  have hstruct : ¬ t.isKeyword .struct := by simp [Token.isKeyword, ht]
  change qualifiedType (typeWithin ts.length) t ts = _
  rw [qualifiedType, if_neg hstorage, precisionType, if_neg hprecision, if_pos hbare, bareType,
    if_neg hstruct, if_pos hbare, Parse.pure_apply]

end

end Essl
