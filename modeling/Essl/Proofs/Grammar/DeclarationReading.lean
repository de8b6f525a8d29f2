import Essl.Grammar.Statement
import Essl.Proofs.Grammar.TypeReading

/-!
# What the grammar of declarations reads

The parts of declarations that have no statements in them: declarators, parameters, and lists of
names.
-/

namespace Essl

open Grammar

/-- The tokens are a well-formed declaration. -/
def Declaration.Covers (d : Declaration) (w : List Token) : Prop := d.WellFormed ∧ Spells d.pieces w

section

variable {t name : Token} {ts : List Token}

theorem reads_identifier (expected : List TokenKind) :
    Reads (Parse.next expected fun t =>
      if t.kind = .identifier then pure t else Parse.fail expected t) ts
      fun n w _ => n.kind = .identifier ∧ w = [n] := by
  refine Reads.next [.identifier] (by simp) ?_ ?_
  · intro t rest _ ht
    have hkind : t.kind = .identifier := by simpa using ht
    rw [if_pos hkind]
    exact Reads.pure ⟨hkind, rfl⟩
  · intro t rest ht
    rw [if_neg (by simpa using ht)]
    exact rejects_fail expected t rest

/-! ## Declarators -/

theorem reads_declarator (hname : name.kind = .identifier) :
    Reads (declarator name) ts fun d w _ => d.WellFormed ∧ Spells d.pieces (name :: w) := by
  refine reads_arraySize.bind fun size w rest _ hsize => ?_
  obtain ⟨hsize, hw⟩ := hsize
  refine Reads.accept_bind ?_ fun _ => Reads.pure ?_
  · intro assign rest _ hassign
    refine reads_assignmentRule.bind fun e w' _ _ he => Reads.pure ?_
    rw [List.append_nil]
    refine ⟨⟨hname, hsize, ?_⟩, .kept (hw.append (.separator hassign he.2.2))⟩
    intro e' he'
    cases he'
    exact ⟨he.1, he.2.1⟩
  · exact ⟨⟨hname, hsize, by simp [Declarator.ofName]⟩, .kept (hw.append .nil)⟩

theorem reads_moreDeclarators (turns : Nat) (first : Bool) (last : Declarator)
    (hturns : ts.length ≤ turns - 1) :
    Reads (moreDeclarators turns first last) ts fun a w _ =>
      (∀ d ∈ a.1, d.WellFormed) ∧ a.2.kind = .operator .semicolon ∧
        Spells (commaBefore (a.1.map Declarator.pieces) ++ [.kept a.2]) w := by
  have hend : ∀ t : Token, t.kind = .operator .semicolon →
      (∀ d ∈ ([] : List Declarator), d.WellFormed) ∧ t.kind = .operator .semicolon ∧
        Spells (commaBefore (([] : List Declarator).map Declarator.pieces) ++ [.kept t]) [t] :=
    fun t ht => ⟨by simp, ht, .kept .nil⟩
  induction turns generalizing first last ts with
  | zero =>
      exact Reads.fail_none [.operator .semicolon] (List.length_eq_zero_iff.1 (by omega))
        (a := ([], Token.plain (.operator .semicolon))) (hend _ rfl)
  | succ turns ih =>
      refine Reads.take_either rfl (fun _ => rfl) (by decide) ?_ ?_
      · exact fun semicolon _ _ hsemicolon => Reads.pure (hend semicolon hsemicolon)
      · intro comma rest _ hcomma
        refine Reads.requireKind_bind fun name rest' _ hname => ?_
        refine (reads_declarator hname).bind fun d w rest'' _ hd => ?_
        refine (ih false d (by omega)).bind fun a w' _ _ ha => Reads.pure ?_
        refine ⟨by simpa using ⟨hd.1, ha.1⟩, ha.2.1, .separator hcomma ?_⟩
        simpa using hd.2.append ha.2.2

/-! ## Precisions and invariants -/

theorem reads_precisionDeclaration (ht : t.kind = .keyword .precision) :
    Reads (precisionDeclaration t) ts fun d w _ => d.Covers (t :: w) := by
  refine Reads.require_bind (by decide) fun precision rest _ hprecision => ?_
  refine reads_bareTypeRule.bind fun s w rest' _ hs => ?_
  refine Reads.requireOperator_bind fun semicolon _ hsemicolon => Reads.pure ?_
  exact ⟨⟨ht, hprecision, hs.1, hsemicolon⟩, .kept (.kept (hs.2.append (.kept .nil)))⟩

theorem reads_invariantNames (turns : Nat) (expected : List TokenKind)
    (hturns : ts.length ≤ turns - 1) :
    Reads (invariantNames turns expected) ts fun a w _ =>
      a.1 ≠ [] ∧ (∀ n ∈ a.1, n.name.kind = .identifier) ∧ a.2.kind = .operator .semicolon ∧
        Spells (commaBetween (a.1.map ([.kept ·.name])) ++ [.kept a.2]) w := by
  induction turns generalizing expected ts with
  | zero =>
      refine Reads.fail_none [.identifier, .operator .semicolon]
        (List.length_eq_zero_iff.1 (by omega))
        (a := ([⟨.plain .identifier, none⟩], .plain (.operator .semicolon)))
        ⟨by simp, by simp, rfl, ?_⟩
      exact .kept (.kept .nil)
  | succ turns ih =>
      refine (reads_identifier expected).bind fun n w rest _ hn => ?_
      obtain ⟨hkind, rfl⟩ := hn
      refine Reads.take_either rfl (fun _ => rfl) (by decide) ?_ ?_
      · intro comma rest' _ hcomma
        refine (ih [.identifier] (by omega)).bind fun a w' _ _ ha => Reads.pure ?_
        obtain ⟨hne, hall, hsemicolon, hspells⟩ := ha
        refine ⟨by simp, by simpa using ⟨hkind, hall⟩, hsemicolon, ?_⟩
        rw [List.append_nil]
        exact Spells.commaBetween_cons (a := ⟨n, none⟩) hne (.kept .nil) hcomma hspells
      · intro semicolon _ _ hsemicolon
        exact Reads.pure ⟨by simp, by simpa using hkind, hsemicolon, .kept (.kept .nil)⟩

theorem reads_invariantDeclaration (ht : t.kind = .keyword (.qualifier .invariant)) :
    Reads (invariantDeclaration t) ts fun d w _ => d.Covers (t :: w) := by
  refine Reads.remaining_bind ?_
  refine (reads_invariantNames (ts.length + 1) _ (by omega)).bind fun a w _ _ ha => Reads.pure ?_
  rw [List.append_nil]
  exact ⟨⟨ht, ha.1, ha.2.1, ha.2.2.1⟩, .kept ha.2.2.2⟩

/-! ## Parameters -/

theorem reads_parameter : Reads parameter ts fun p w _ => p.WellFormed ∧ Spells p.pieces w := by
  -- Everything after the qualifiers, whichever of them there are.
  have hrest : ∀ (const direction : Option Token) (ts : List Token),
      (∀ t ∈ const, t.kind = .keyword (.qualifier .const)) →
      (∀ t ∈ direction, t.kind.keyword?.any Keyword.isDirection) →
      Reads (do
        let typeSpec ← precisionTypeRule.next
        let name ← Parse.accept .identifier
        let size ← arraySize
        pure (⟨const.toList ++ direction.toList, typeSpec, name, size, none, none⟩ :
          ParameterSpec)) ts
        fun p w _ => p.WellFormed ∧ Spells p.pieces (const.toList ++ (direction.toList ++ w)) := by
    intro const direction ts hconst hdirection
    refine reads_precisionTypeRule.bind fun s w rest _ hs => ?_
    have hname : ∀ (name : Option Token) (ts : List Token), (∀ t ∈ name, t.kind = .identifier) →
        Reads (do
          let size ← arraySize
          pure (⟨const.toList ++ direction.toList, s, name, size, none, none⟩ :
            ParameterSpec)) ts
          fun p w' _ => p.WellFormed ∧
            Spells p.pieces (const.toList ++ (direction.toList ++ (w ++ (name.toList ++ w')))) := by
      intro name ts hname
      refine reads_arraySize.bind fun size w' _ _ hsize => Reads.pure ?_
      refine ⟨⟨⟨const, direction, rfl, hconst, hdirection⟩, hs.1, hname, hsize.1⟩, ?_⟩
      rw [List.append_nil, ← List.append_assoc]
      exact (Spells.map_kept _).append (hs.2.append ((Spells.map_kept _).append hsize.2))
    refine Reads.accept_bind ?_ fun _ => hname none rest (by simp)
    exact fun name rest _ hkind => hname (some name) rest (by simpa using hkind)
  have hdirection : ∀ (const : Option Token) (ts : List Token),
      (∀ t ∈ const, t.kind = .keyword (.qualifier .const)) →
      Reads (do
        let direction ← Parse.acceptIf (·.kind.keyword?.any Keyword.isDirection)
        let typeSpec ← precisionTypeRule.next
        let name ← Parse.accept .identifier
        let size ← arraySize
        pure (⟨const.toList ++ direction.toList, typeSpec, name, size, none, none⟩ :
          ParameterSpec)) ts
        fun p w _ => p.WellFormed ∧ Spells p.pieces (const.toList ++ w) := by
    intro const ts hconst
    refine Reads.acceptIf_bind ?_ fun _ => hrest const none ts hconst (by simp)
    exact fun direction rest _ hkind => hrest const (some direction) rest hconst (by simpa using hkind)
  refine Reads.accept_bind ?_ fun _ => hdirection none ts (by simp)
  exact fun const rest _ hkind => hdirection (some const) rest (by simpa using hkind)

theorem reads_parametersTail (turns : Nat) (hturns : ts.length ≤ turns - 1) :
    Reads (parametersTail turns) ts fun a w _ =>
      a.1 ≠ [] ∧ (∀ p ∈ a.1, p.WellFormed) ∧ a.2.kind = .operator .closeParen ∧
        Spells (commaBetween (a.1.map ParameterSpec.pieces) ++ [.kept a.2]) w := by
  induction turns generalizing ts with
  | zero =>
      have hparameter : Reads parameter [] _ := reads_parameter
      obtain ⟨p, more, hp⟩ := hparameter.completion
      have hdone := Spells.commaBetween_single hp.2
        (.kept .nil : Spells [.kept (.plain (.operator .closeParen))] _)
      refine Reads.fail_none (more ++ [.operator .closeParen])
        (List.length_eq_zero_iff.1 (by omega)) (a := ([p], .plain (.operator .closeParen)))
        ⟨by simp, by simpa using hp.1, rfl, ?_⟩
      rw [List.map_append]
      exact hdone
  | succ turns ih =>
      refine reads_parameter.bind fun p w rest _ hp => ?_
      refine Reads.take_either rfl (fun _ => rfl) (by decide) ?_ ?_
      · intro comma rest' _ hcomma
        refine (ih (by omega)).bind fun a w' _ _ ha => Reads.pure ?_
        obtain ⟨hne, hall, hclosing, hspells⟩ := ha
        refine ⟨by simp, by simpa using ⟨hp.1, hall⟩, hclosing, ?_⟩
        rw [List.append_nil]
        exact Spells.commaBetween_cons hne hp.2 hcomma hspells
      · intro closing _ _ hclosing
        exact Reads.pure ⟨by simp, by simpa using hp.1, hclosing,
          Spells.commaBetween_single hp.2 (.kept .nil)⟩

theorem reads_parameters : Reads parameters ts fun a w _ =>
    (∀ p ∈ a.1, p.WellFormed) ∧ a.2.kind = .operator .closeParen ∧
      Spells (commaBetween (a.1.map ParameterSpec.pieces) ++ [.kept a.2]) w := by
  refine Reads.accept_bind ?_ fun _ => Reads.remaining_bind ?_
  · exact fun closing _ _ hclosing => Reads.pure ⟨by simp, hclosing, .kept .nil⟩
  · exact (reads_parametersTail (ts.length + 1) (by omega)).mono fun _ _ _ ha => ha.2

end

end Essl
