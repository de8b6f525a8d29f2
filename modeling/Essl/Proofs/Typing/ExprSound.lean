import Essl.Proofs.Grammar.Regular
import Essl.Proofs.Typing.ConstructionSound
import Essl.Proofs.Typing.SelectionSound
import Essl.Typing.Expr

/-!
# Typed expressions keep the rules

Typing an expression in a sound context gives one with every node sound, by induction on the
expression: the operands are typed before the node is.
-/

namespace Essl

variable {clean : Prop} {c : Context} {returnType : Option Ty}

theorem Expr.typed_of_sound {e : Expr} (h : AllNodes (Node.Sound clean) e.nodes) :
    e.info.Typed clean :=
  (h _ e.expr_mem_nodes).1

theorem Expr.all_typed_of_sound {es : List Expr}
    (h : AllNodes (Node.Sound clean) (nodesOfEach es)) : ∀ e ∈ es, e.info.Typed clean :=
  fun e he => typed_of_sound (allNodes_nodesOfEach.1 h e he)

theorem typeLength_ensures {size : Expr} (h : size.info.Typed clean) :
    (typeLength size).Ensures clean fun length => clean → length ≠ none := by
  have hknown := h.known
  unfold typeLength
  split
  · rename_i hnone
    rw [hnone] at hknown
    exact Noted.Ensures.pure fun hclean => absurd hclean hknown
  · split
    · exact Noted.Ensures.reported Not.elim
    · split
      · exact Noted.Ensures.reported Not.elim
      · split
        · exact Noted.Ensures.reported Not.elim
        · exact Noted.Ensures.pure fun _ => Option.some_ne_none _

namespace Expr

/-- A list has the type of its last expression. -/
theorem known_last {es : List Expr} (hes : es ≠ []) (h : ∀ e ∈ es, e.info.Typed clean) :
    Known clean (es.getLast?.bind (·.info.type)) := by
  rw [List.getLast?_eq_some_getLast hes]
  exact (h _ (List.getLast_mem hes)).known

mutual

theorem check_sound (hc : c.Sound clean returnType) :
    ∀ e : Expr, AllNodes Node.Regular e.nodes →
      (e.check c).Ensures clean fun e' => AllNodes (Node.Sound clean) e'.nodes
  | .assignment _ left op right, h => by
      simp only [nodes, allNodes_cons, allNodes_append] at h
      refine (check_sound hc left h.2.1).bind fun left hleft => ?_
      refine (check_sound hc right h.2.2).bind fun right hright => ?_
      refine (typeAssignment_ensures (typed_of_sound hleft) (typed_of_sound hright)).bind
        fun info hinfo => Noted.Ensures.pure ?_
      simp only [nodes, allNodes_cons, allNodes_append]
      exact ⟨⟨hinfo.1, trivial, hinfo.2⟩, hleft, hright⟩
  | .ternary _ condition question whenTrue colon whenFalse, h => by
      simp only [nodes, allNodes_cons, allNodes_append] at h
      refine (check_sound hc condition h.2.1.1).bind fun condition hcondition => ?_
      refine (requireBool_ensures (typed_of_sound hcondition).known _).bind fun _ hbool => ?_
      refine (check_sound hc whenTrue h.2.1.2).bind fun whenTrue htrue => ?_
      refine (check_sound hc whenFalse h.2.2).bind fun whenFalse hfalse => ?_
      refine (typeChoice_ensures question colon hbool (typed_of_sound htrue)
        (typed_of_sound hfalse)).bind fun info hinfo => Noted.Ensures.pure ?_
      simp only [nodes, allNodes_cons, allNodes_append]
      exact ⟨⟨hinfo.1, trivial, hinfo.2⟩, ⟨hcondition, htrue⟩, hfalse⟩
  | .binary _ left op right, h => by
      simp only [nodes, allNodes_cons, allNodes_append] at h
      refine (check_sound hc left h.2.1).bind fun left hleft => ?_
      refine (check_sound hc right h.2.2).bind fun right hright => ?_
      refine (typeBinary_ensures h.1 (typed_of_sound hleft) (typed_of_sound hright)).bind
        fun info hinfo => Noted.Ensures.pure ?_
      simp only [nodes, allNodes_cons, allNodes_append]
      exact ⟨⟨hinfo.1, trivial, hinfo.2⟩, hleft, hright⟩
  | .unary _ op operand, h => by
      simp only [nodes, allNodes_cons] at h
      refine (check_sound hc operand h.2).bind fun operand hoperand => ?_
      refine (typeUnary_ensures h.1 (typed_of_sound hoperand)).bind
        fun info hinfo => Noted.Ensures.pure ?_
      simp only [nodes, allNodes_cons]
      exact ⟨⟨hinfo.1, trivial, fun hclean =>
        ⟨(hinfo.2 hclean).hasOperator, hinfo.2 hclean⟩⟩, hoperand⟩
  | .step _ operand op, h => by
      simp only [nodes, allNodes_cons] at h
      refine (check_sound hc operand h.2).bind fun operand hoperand => ?_
      refine (typeUnary_ensures h.1 (typed_of_sound hoperand)).bind
        fun info hinfo => Noted.Ensures.pure ?_
      simp only [nodes, allNodes_cons]
      exact ⟨⟨hinfo.1, trivial, fun hclean =>
        ⟨(hinfo.2 hclean).hasOperator, hinfo.2 hclean⟩⟩, hoperand⟩
  | .literal _ token, _ => by
      apply Noted.Ensures.pure
      simp only [nodes, allNodes_cons, allNodes_nil, and_true]
      exact ⟨typeLiteral_typed token, trivial, fun _ => ⟨trivial, typeLiteral_folded token⟩⟩
  | .group _ opening inner closing, h => by
      simp only [nodes, allNodes_cons] at h
      refine (check_sound hc inner h.2).bind fun inner hinner => Noted.Ensures.pure ?_
      have htyped : inner.info.Typed clean := typed_of_sound hinner
      simp only [nodes, allNodes_cons]
      exact ⟨⟨htyped, trivial, fun _ => ⟨trivial, rfl⟩⟩, hinner⟩
  | .variable _ name, _ => by
      refine (typeVariable_ensures hc name).bind fun info hinfo => Noted.Ensures.pure ?_
      simp only [nodes, allNodes_cons, allNodes_nil, and_true]
      exact ⟨hinfo.1, trivial, fun _ => ⟨trivial, hinfo.2⟩⟩
  | .call _ callee opening void arguments closing, h => by
      simp only [nodes, allNodes_cons] at h
      refine (checkAll_sound hc arguments h.2).bind fun arguments harguments => ?_
      refine (typeCall_ensures hc h.1 (all_typed_of_sound harguments.2) _).bind
        fun info hinfo => Noted.Ensures.pure ?_
      simp only [nodes, allNodes_cons]
      exact ⟨⟨hinfo.1, hinfo.2.1, fun hclean => ⟨trivial, hinfo.2.2 hclean⟩⟩, harguments.2⟩
  | .arrayCall _ callee bracket size bracketEnd opening void arguments closing, h => by
      simp only [nodes, allNodes_cons, allNodes_append] at h
      refine (check_sound hc size h.2.1).bind fun size hsize => ?_
      refine (typeLength_ensures (typed_of_sound hsize)).bind fun length hlength => ?_
      refine (checkAll_sound hc arguments h.2.2).bind fun arguments harguments => ?_
      refine (typeArrayConstructor_ensures hc callee hlength
        (all_typed_of_sound harguments.2) _).bind fun info hinfo => Noted.Ensures.pure ?_
      simp only [nodes, allNodes_cons, allNodes_append]
      exact ⟨⟨hinfo.1, trivial, fun hclean => ⟨trivial, hinfo.2 hclean⟩⟩, hsize, harguments.2⟩
  | .field _ operand dot selector, h => by
      simp only [nodes, allNodes_cons] at h
      refine (check_sound hc operand h.2).bind fun operand hoperand => ?_
      refine (typeField_ensures dot (typed_of_sound hoperand) h.1).bind
        fun info hinfo => Noted.Ensures.pure ?_
      simp only [nodes, allNodes_cons]
      exact ⟨⟨hinfo.1, trivial, fun hclean => ⟨trivial, hinfo.2 hclean⟩⟩, hoperand⟩
  | .index _ operand opening position closing, h => by
      simp only [nodes, allNodes_cons, allNodes_append] at h
      refine (check_sound hc operand h.2.1).bind fun operand hoperand => ?_
      refine (check_sound hc position h.2.2).bind fun position hposition => ?_
      refine (typeIndex_ensures opening closing (typed_of_sound hoperand)
        (typed_of_sound hposition)).bind fun info hinfo => Noted.Ensures.pure ?_
      simp only [nodes, allNodes_cons, allNodes_append]
      exact ⟨⟨hinfo.1, trivial, hinfo.2⟩, hoperand, hposition⟩
  | .list _ exprs, h => by
      simp only [nodes, allNodes_cons] at h
      refine (checkAll_sound hc exprs h.2).bind fun exprs' hexprs => Noted.Ensures.pure ?_
      have hne : exprs' ≠ [] := by
        intro hnil
        rw [hnil] at hexprs
        exact h.1 (List.length_eq_zero_iff.1 hexprs.1.symm)
      simp only [nodes, allNodes_cons]
      exact ⟨⟨(known_last hne (all_typed_of_sound hexprs.2)).typed, trivial,
        fun _ => ⟨trivial, rfl⟩⟩, hexprs.2⟩

theorem checkAll_sound (hc : c.Sound clean returnType) :
    ∀ es : List Expr, AllNodes Node.Regular (nodesOfEach es) →
      (checkAll c es).Ensures clean fun es' =>
        es'.length = es.length ∧ AllNodes (Node.Sound clean) (nodesOfEach es')
  | [], _ => Noted.Ensures.pure ⟨rfl, allNodes_nil⟩
  | e :: es, h => by
      simp only [nodesOfEach, allNodes_append] at h
      refine (check_sound hc e h.1).bind fun e' he => ?_
      refine (checkAll_sound hc es h.2).bind fun es' hes => Noted.Ensures.pure ?_
      simp only [nodesOfEach, allNodes_append, List.length_cons]
      exact ⟨by rw [hes.1], he, hes.2⟩

end

end Expr

theorem ArraySize.check_sound (hc : c.Sound clean returnType) {size : ArraySize}
    (h : AllNodes Node.Regular size.size.nodes) :
    (size.check c).Ensures clean fun sized =>
      AllNodes (Node.Sound clean) sized.1.size.nodes ∧ (clean → sized.2 ≠ none) := by
  refine (Expr.check_sound hc size.size h).bind fun expr hexpr => ?_
  refine (typeLength_ensures (Expr.typed_of_sound hexpr)).bind fun length hlength => ?_
  exact Noted.Ensures.pure ⟨hexpr, hlength⟩

end Essl
