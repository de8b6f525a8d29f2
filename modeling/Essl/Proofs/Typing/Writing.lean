import Essl.Proofs.Tree.Coverage
import Essl.Proofs.Typing.Guarantees
import Essl.Proofs.Typing.ShaderTrace

/-!
# What is written to

Expressions are written to by assignments, by steps and through parameters that pass values out. In
a shader without problems they are variables that no word in front of their declarations makes
read-only, or parts of such variables.
-/

namespace Essl

open Grammar

/-! ## Targets -/

/-- All expressions that are written to. -/
def writtenIn (nodes : List Node) : List Expr :=
  nodes.flatMap fun
    | .expr e => e.targets
    | _ => []

theorem mem_writtenIn {nodes : List Node} {target : Expr} :
    target ∈ writtenIn nodes ↔ ∃ e, .expr e ∈ nodes ∧ target ∈ e.targets := by
  simp only [writtenIn, List.mem_flatMap]
  constructor
  · rintro ⟨n, hn, htarget⟩
    cases n with
    | expr e => exact ⟨e, hn, htarget⟩
    | _ => cases htarget
  · rintro ⟨e, he, htarget⟩
    exact ⟨.expr e, he, htarget⟩

theorem outputs_subset (parameters : List Parameter) (arguments : List Expr) :
    outputs parameters arguments ⊆ arguments := by
  induction parameters generalizing arguments with
  | nil => exact List.nil_subset _
  | cons p ps ih =>
      cases arguments with
      | nil => exact List.nil_subset _
      | cons e es =>
          rw [outputs]
          split
          · exact List.cons_subset_cons e (ih es)
          · exact List.Subset.trans (ih es) (List.subset_cons_self e es)

namespace Expr

theorem expr_mem_nodesOfEach {e : Expr} {es : List Expr} (h : e ∈ es) :
    Node.expr e ∈ nodesOfEach es := by
  induction es with
  | nil => cases h
  | cons x es ih =>
      rw [nodesOfEach, List.mem_append]
      rcases List.mem_cons.1 h with rfl | h
      · exact .inl e.expr_mem_nodes
      · exact .inr (ih h)

theorem target_mem_nodes {e target : Expr} (h : target ∈ e.targets) :
    Node.expr target ∈ e.nodes := by
  have operand_mem {op : Token} {operand : Expr}
      (h : target ∈ if op.isOperator .increment || op.isOperator .decrement then [operand] else []) :
      Node.expr target ∈ operand.nodes := by
    split at h
    · rw [List.mem_singleton.1 h]
      exact operand.expr_mem_nodes
    · cases h
  cases e with
  | assignment _ left _ right =>
      rw [List.mem_singleton.1 h]
      exact List.mem_cons_of_mem _ (List.mem_append_left right.nodes left.expr_mem_nodes)
  | unary _ op operand => exact List.mem_cons_of_mem _ (operand_mem h)
  | step _ operand op => exact List.mem_cons_of_mem _ (operand_mem h)
  | call _ _ _ _ arguments _ =>
      apply List.mem_cons_of_mem
      simp only [targets] at h
      split at h
      · exact expr_mem_nodesOfEach (outputs_subset _ arguments h)
      · cases h
  | _ => cases h

theorem root_mem_nodes : ∀ e : Expr, Node.expr e.root ∈ e.nodes
  | .group _ _ inner _ => List.mem_cons_of_mem _ inner.root_mem_nodes
  | .field _ operand _ _ => List.mem_cons_of_mem _ operand.root_mem_nodes
  | .index _ operand _ position _ =>
      List.mem_cons_of_mem _ (List.mem_append_left position.nodes operand.root_mem_nodes)
  | .assignment .. | .ternary .. | .binary .. | .unary .. | .step .. | .literal .. | .variable ..
  | .call .. | .arrayCall .. | .list .. => expr_mem_nodes _

/-- The variable that the expression is, or is a part of. -/
def rootVariable? (e : Expr) : Option Variable :=
  match e.root with
  | .variable info _ =>
    match info.symbol with
    | some (.variable v) => some v
    | _ => none
  | _ => none

/-- The expression is a variable, or a part of one, and may be written to. -/
structure Writable (stage : Stage) (trace : List ScopeEvent) (e : Expr) (v : Variable) : Prop where
  root : e.rootVariable? = some v
  /-- The variable is built in or declared in the trace. -/
  known : Builtin.variableNamed? v.name stage = some v ∨
    ∃ words name, ScopeEvent.variable words name (some v) ∈ trace
  notReadOnly : v.readOnly = false
  /-- Nothing in front of a declaration of the variable says otherwise. -/
  allowed : ∀ words name, .variable words name (some v) ∈ trace →
    ∀ word ∈ words, word.forbidsWriting = false

end Expr

/-- The words in front of the type in a condition, and the name that is declared there. -/
def Node.conditionName? : Node → Option (List Token × Token)
  | condition (.declaration s d) => some (s.qualifiers.words, d.name)
  | _ => none

theorem Builtin.name_of_variableNamed? {name : String} {stage : Stage} {v : Variable}
    (h : variableNamed? name stage = some v) : v.name = name := by
  have hname := List.find?_some h
  exact eq_of_beq hname

/-! ## Events without remarks -/

section

variable {stage : Stage} {env : Env} {trace : List ScopeEvent} {name : Token}

theorem ScopeEvent.Right.variable_of_reference {symbol : Option Symbol}
    (h : (reference name symbol).Right stage env)
    (hremarks : (reference name symbol).remarks stage env = []) :
    ∃ v, symbol = some (.variable v) ∧ env.variableNamed? stage name.text = some v := by
  obtain ⟨v, hv⟩ : ∃ v, env.variableNamed? stage name.text = some v := by
    simp only [remarks, Env.variableRemarks] at hremarks
    unfold Env.variableNamed?
    split at hremarks
    · rename_i v _
      exact ⟨v, rfl⟩
    · cases hremarks
    · split at hremarks
      · rename_i hbuiltin
        exact Option.isSome_iff_exists.1 hbuiltin
      · cases hremarks
  refine ⟨v, ?_, hv⟩
  rw [show symbol = _ from h, hv]
  rfl

/-- Without remarks a reference is to a variable that is built in or declared in the trace. -/
theorem Env.AllRight.variable_of_reference (h : Env.empty.AllRight stage trace)
    (hremarks : Env.empty.remarks stage trace = []) {symbol : Option Symbol}
    (hmem : .reference name symbol ∈ trace) :
    ∃ v, symbol = some (.variable v) ∧
      (Builtin.variableNamed? name.text stage = some v ∨
        ∃ words declared, ScopeEvent.variable words declared (some v) ∈ trace) := by
  obtain ⟨before, rest, htrace⟩ := List.append_of_mem hmem
  obtain ⟨v, hsymbol, hv⟩ := (h.at htrace).variable_of_reference (remarks_at hremarks htrace)
  have hknows : (Env.empty.run before).Knows fun v =>
      ∃ words declared, ScopeEvent.variable words declared (some v) ∈ trace := by
    refine Knows.empty.run fun words declared v hv => ⟨words, declared, ?_⟩
    rw [htrace]
    exact List.mem_append_left _ hv
  exact ⟨v, hsymbol, hknows.variableNamed? hv⟩

theorem Env.AllRight.readOnly_of_variable (h : Env.empty.AllRight stage trace)
    {words : List Token} {v : Variable} (hmem : .variable words name (some v) ∈ trace) :
    v.readOnly = words.any Token.forbidsWriting := by
  obtain ⟨before, rest, htrace⟩ := List.append_of_mem hmem
  obtain ⟨w, hw, -, -, hreadOnly⟩ := h.at htrace
  cases hw
  exact hreadOnly

theorem Expr.root_of_writeRemarks {target : Expr} (h : target.writeRemarks = [])
    (htype : target.root.info.type ≠ none) :
    ∃ info name, target.root = .variable info name ∧
      ∀ v, info.symbol = some (.variable v) → v.readOnly = false := by
  unfold writeRemarks at h
  split at h
  · rename_i info name hroot
    refine ⟨info, name, hroot, fun v hv => ?_⟩
    simpa [hv] using h
  · simp [Option.isSome_iff_ne_none, htype] at h

theorem remarks_of_write (hremarks : Env.empty.remarks stage trace = []) {target : Expr}
    (hmem : .write target ∈ trace) : target.writeRemarks = [] := by
  obtain ⟨before, rest, htrace⟩ := List.append_of_mem hmem
  exact Env.remarks_at hremarks htrace

end

/-! ## Shaders -/

namespace Shader

variable {tokens : List Token}

/-- Where typing finds no problem, everything that is written to may be written to. The words in
front of the type in a condition are no obstacle: they are passed over. -/
theorem analyze_writable (ht : ∀ t ∈ tokens, t.Written) (stage : Stage) (order : FunctionOrder)
    (h : ((parseShader tokens).shader.analyze stage order).problems = []) :
    let typed := ((parseShader tokens).shader.analyze stage order).value
    ∀ target ∈ writtenIn typed.nodes, ∃ v, target.Writable stage typed.trace v := by
  intro typed target htarget
  obtain ⟨e, he, htarget⟩ := mem_writtenIn.1 htarget
  obtain ⟨hright, hfollows⟩ := analyze_follows (parseShader_placed ht) stage order
  have hremarks : Env.empty.remarks stage typed.trace = [] := by
    rw [← hfollows, h]
    rfl
  have hsound : AllNodes (Node.Sound True) typed.nodes := analyze_sound_of_no_problems ht h
  obtain ⟨hevents, hnodes⟩ := expr_within he
  have hwrite := remarks_of_write hremarks (hevents (Expr.write_mem_events htarget))
  have hroot : .expr target.root ∈ typed.nodes :=
    (expr_within (hnodes (Expr.target_mem_nodes htarget))).2 target.root_mem_nodes
  have htype : target.root.info.type ≠ none := (hsound _ hroot).resolved
  obtain ⟨info, name, hvariable, hreadOnly⟩ := Expr.root_of_writeRemarks hwrite htype
  have hreference : .reference name info.symbol ∈ typed.trace := by
    apply (expr_within hroot).1
    rw [hvariable]
    exact List.mem_singleton_self _
  obtain ⟨v, hsymbol, hknown⟩ := hright.variable_of_reference hremarks hreference
  refine ⟨v, ⟨?_, ?_, hreadOnly v hsymbol, ?_⟩⟩
  · simp [Expr.rootVariable?, hvariable, hsymbol]
  · refine hknown.imp_left fun hbuiltin => ?_
    rwa [Builtin.name_of_variableNamed? hbuiltin]
  · intro words declared hdeclared
    have hany := hright.readOnly_of_variable hdeclared
    rw [hreadOnly v hsymbol] at hany
    simpa using hany.symm

/-- The local variable `a` is written to, and so is `b` where `f` is called. -/
theorem analyze_writable_output :
    let shader := ofText "void f(out int x) { x = 1; } void g() { ivec2 a; (a).x++; int b; f(b); }"
    (shader.analyze .vertex).problems = [] ∧
      (writtenIn (shader.analyze .vertex).value.nodes).length = 3 ∧
      ∀ target ∈ writtenIn (shader.analyze .vertex).value.nodes,
        ∃ v, target.Writable .vertex (shader.analyze .vertex).value.trace v := by
  intro shader
  have h : (shader.analyze .vertex).problems = [] := by decide +kernel
  exact ⟨h, by decide +kernel, analyze_writable (Code.written_scan _) .vertex .newestFirst h⟩

/-- The constant `b` of a condition is written to without a problem. -/
theorem analyze_writes_to_constant :
    let analysis :=
      (ofText "void f() { while (const bool b = true) { b = false; } }").analyze .vertex
    analysis.problems = [] ∧
      ∃ declared ∈ analysis.value.nodes.filterMap Node.conditionName?,
        declared.1.any Token.forbidsWriting ∧
          ∃ target ∈ writtenIn analysis.value.nodes,
            target.rootVariable?.bind (·.declaredAt) = some declared.2.location := by
  intro analysis
  decide +kernel

end Shader

end Essl
