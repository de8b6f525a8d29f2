import Essl.Proofs.Tree.Trace

/-!
# What the trace of a shader covers

The trace leaves out no expression. It refers to the variables that expressions name, one by one
and in the same order, and has the events of every expression.
-/

namespace Essl

/-! ## References -/

/-- The name and symbol of a reference in an expression. -/
def ScopeEvent.reference? : ScopeEvent → Option (Token × Option Symbol)
  | reference name symbol => some (name, symbol)
  | _ => none

/-- The name and symbol of a variable in an expression. -/
def Node.reference? : Node → Option (Token × Option Symbol)
  | expr (.variable info name) => some (name, info.symbol)
  | _ => none

/-- The references among events. -/
def referencesIn (events : List ScopeEvent) : List (Token × Option Symbol) :=
  events.filterMap ScopeEvent.reference?

/-- The variables in expressions among nodes. -/
def variablesIn (nodes : List Node) : List (Token × Option Symbol) :=
  nodes.filterMap Node.reference?

section

variable {events more : List ScopeEvent} {nodes others : List Node}

@[simp] theorem referencesIn_nil : referencesIn [] = [] := rfl

@[simp] theorem referencesIn_append :
    referencesIn (events ++ more) = referencesIn events ++ referencesIn more :=
  List.filterMap_append

@[simp] theorem variablesIn_nil : variablesIn [] = [] := rfl

@[simp] theorem variablesIn_append :
    variablesIn (nodes ++ others) = variablesIn nodes ++ variablesIn others :=
  List.filterMap_append

@[simp] theorem variablesIn_optionalNodes (e : Option Expr) :
    variablesIn (optionalNodes e) = e.elim [] fun e => variablesIn e.nodes := by
  cases e <;> rfl

theorem referencesIn_cons {event : ScopeEvent} (h : event.reference? = none) :
    referencesIn (event :: events) = referencesIn events :=
  List.filterMap_cons_none h

theorem variablesIn_cons {node : Node} (h : node.reference? = none) :
    variablesIn (node :: nodes) = variablesIn nodes :=
  List.filterMap_cons_none h

@[simp] theorem referencesIn_enter : referencesIn (.enter :: events) = referencesIn events := rfl

@[simp] theorem referencesIn_leave : referencesIn (.leave :: events) = referencesIn events := rfl

@[simp] theorem variablesIn_condition (c : Condition) :
    variablesIn (.condition c :: nodes) = variablesIn nodes := rfl

@[simp] theorem variablesIn_return (returnType : Option Ty) (value : Option Expr) :
    variablesIn (.return returnType value :: nodes) = variablesIn nodes := rfl

theorem referencesIn_eq_nil (h : ∀ event ∈ events, event.reference? = none) :
    referencesIn events = [] :=
  List.filterMap_eq_nil_iff.2 h

theorem referencesIn_flatMap {α : Type} {f : α → List ScopeEvent} {g : α → List Node}
    {as : List α} (h : ∀ a ∈ as, referencesIn (f a) = variablesIn (g a)) :
    referencesIn (as.flatMap f) = variablesIn (as.flatMap g) := by
  induction as with
  | nil => rfl
  | cons a as ih =>
      obtain ⟨ha, has⟩ := List.forall_mem_cons.1 h
      simp [ha, ih has]

end

@[simp] theorem referencesIn_writes (targets : List Expr) :
    referencesIn (targets.map .write) = [] :=
  referencesIn_eq_nil (by simp [ScopeEvent.reference?])

theorem referencesIn_acts (e : Expr) : referencesIn e.acts = variablesIn [.expr e] := by
  cases e with
  | «variable» info name => rfl
  | arrayCall => rfl
  | _ => exact referencesIn_writes _

/-- What an expression with operands does after them is no reference. -/
theorem referencesIn_operands {e : Expr} {events : List ScopeEvent} {inside : List Node}
    (he : (Node.expr e).reference? = none) (h : referencesIn events = variablesIn inside) :
    referencesIn (events ++ e.acts) = variablesIn (.expr e :: inside) := by
  rw [referencesIn_append, referencesIn_acts, variablesIn_cons he, variablesIn_cons he, h,
    variablesIn_nil, List.append_nil]

mutual

theorem Expr.referencesIn_events : ∀ e : Expr, referencesIn e.events = variablesIn e.nodes
  | .assignment _ left _ right | .binary _ left _ right =>
      referencesIn_operands rfl (by simp [referencesIn_events left, referencesIn_events right])
  | .ternary _ condition _ whenTrue _ whenFalse =>
      referencesIn_operands rfl (by
        simp [referencesIn_events condition, referencesIn_events whenTrue,
          referencesIn_events whenFalse])
  | .unary _ _ operand | .step _ operand _ | .group _ _ operand _ | .field _ operand _ _ =>
      referencesIn_operands rfl (referencesIn_events operand)
  | .literal .. | .variable .. => referencesIn_acts _
  | .call _ _ _ _ arguments _ | .list _ arguments =>
      referencesIn_operands rfl (referencesIn_eventsOfEach arguments)
  | .arrayCall _ _ _ size _ _ _ arguments _ =>
      referencesIn_operands rfl (by
        simp [referencesIn_events size, referencesIn_eventsOfEach arguments])
  | .index _ operand _ position _ =>
      referencesIn_operands rfl (by
        simp [referencesIn_events operand, referencesIn_events position])

theorem Expr.referencesIn_eventsOfEach : ∀ es : List Expr,
    referencesIn (eventsOfEach es) = variablesIn (nodesOfEach es)
  | [] => rfl
  | e :: es => by
      simp [eventsOfEach, nodesOfEach, referencesIn_events e, referencesIn_eventsOfEach es]

end

theorem referencesIn_sizeEvents (size : Option ArraySize) :
    referencesIn (sizeEvents size) = variablesIn (sizeNodes size) := by
  cases size with
  | none => rfl
  | some size => exact size.size.referencesIn_events

theorem referencesIn_optionalEvents (e : Option Expr) :
    referencesIn (optionalEvents e) = variablesIn (optionalNodes e) := by
  cases e with
  | none => rfl
  | some e => exact e.referencesIn_events

theorem Declarator.referencesIn_eventsInside (d : Declarator) :
    referencesIn d.eventsInside = variablesIn d.inside := by
  simp [eventsInside, inside, referencesIn_sizeEvents, referencesIn_optionalEvents]

theorem Declarator.referencesIn_events (words : List Token) (d : Declarator) :
    referencesIn (d.events words) = variablesIn d.nodes := by
  rw [events, nodes, variablesIn_cons rfl, referencesIn_append, d.referencesIn_eventsInside,
    referencesIn_cons rfl, referencesIn_nil, List.append_nil]

mutual

theorem TypeSpec.referencesIn_events : ∀ s : TypeSpec, referencesIn s.events = variablesIn s.nodes
  | .named .. => rfl
  | .struct _ _ name _ fields _ defined _ => by
      have hdeclared : referencesIn (name.toList.map (.struct · defined)) = [] :=
        referencesIn_eq_nil (by simp [ScopeEvent.reference?])
      rw [TypeSpec.events, TypeSpec.nodes, variablesIn_cons rfl, referencesIn_enter,
        referencesIn_append, referencesIn_leave, hdeclared, List.append_nil,
        FieldSpec.referencesIn_eventsOfAll fields]

theorem FieldSpec.referencesIn_eventsOfAll : ∀ fields : List FieldSpec,
    referencesIn (FieldSpec.eventsOfAll fields) = variablesIn (FieldSpec.nodesOfAll fields)
  | [] => rfl
  | ⟨type, names, _⟩ :: rest => by
      have hnames : referencesIn (names.flatMap Declarator.eventsInside) =
          variablesIn (names.flatMap Declarator.fieldNodes) :=
        referencesIn_flatMap fun d _ => d.referencesIn_eventsInside
      simp [FieldSpec.eventsOfAll, FieldSpec.nodesOfAll, type.referencesIn_events, hnames,
        FieldSpec.referencesIn_eventsOfAll rest]

end

theorem ParameterSpec.referencesIn_events (p : ParameterSpec) :
    referencesIn p.events = variablesIn p.nodes := by
  rw [events, nodes, variablesIn_cons rfl, referencesIn_append, variablesIn_append,
    p.typeSpec.referencesIn_events, referencesIn_sizeEvents]

theorem FunctionHeader.referencesIn_events (fileScope : Bool) (h : FunctionHeader) :
    referencesIn (h.events fileScope) = variablesIn h.nodes := by
  have hparameters : referencesIn (h.parameters.flatMap ParameterSpec.events) =
      variablesIn (h.parameters.flatMap ParameterSpec.nodes) :=
    referencesIn_flatMap fun p _ => p.referencesIn_events
  have hdeclared : referencesIn
      (if fileScope && h.symbol.isSome then [.function h.name] else []) = [] := by
    split <;> rfl
  rw [events, nodes, variablesIn_cons rfl, referencesIn_append, referencesIn_append,
    variablesIn_append, h.returnType.referencesIn_events, hparameters, hdeclared, List.append_nil]

theorem Condition.referencesIn_events (c : Condition) :
    referencesIn c.events = variablesIn c.nodes := by
  cases c with
  | expression e => exact e.referencesIn_events
  | declaration s d =>
      simp [events, nodes, s.referencesIn_events, d.referencesIn_events]

theorem referencesIn_optionalConditionEvents (c : Option Condition) :
    referencesIn (optionalConditionEvents c) = variablesIn (optionalConditionNodes c) := by
  cases c with
  | none => rfl
  | some c => exact c.referencesIn_events

mutual

theorem Declaration.referencesIn_events (fileScope : Bool) : ∀ d : Declaration,
    referencesIn (d.events fileScope) = variablesIn d.nodes
  | .declarators s ds _ => by
      have hwords : referencesIn ((s.qualifiers.storageWords fileScope).map .storage) = [] :=
        referencesIn_eq_nil (by simp [ScopeEvent.reference?])
      have hds : referencesIn (ds.flatMap (Declarator.events s.qualifiers.words)) =
          variablesIn (ds.flatMap Declarator.nodes) :=
        referencesIn_flatMap fun d _ => d.referencesIn_events _
      simp [Declaration.events, Declaration.nodes, hwords, s.referencesIn_events, hds]
  | .type s _ => by
      have hwords : referencesIn ((s.qualifiers.storageWords fileScope).map .storage) = [] :=
        referencesIn_eq_nil (by simp [ScopeEvent.reference?])
      simp [Declaration.events, Declaration.nodes, hwords, s.referencesIn_events]
  | .precision _ _ s _ => s.referencesIn_events
  | .invariants _ names _ =>
      referencesIn_eq_nil (by simp [Declaration.events, ScopeEvent.reference?])
  | .prototype h _ => h.referencesIn_events fileScope
  | .function h body => by
      have hparameters : referencesIn (h.parameters.flatMap ParameterSpec.declaration) = [] :=
        referencesIn_eq_nil (by
          intro event hevent
          obtain ⟨p, -, hp⟩ := List.mem_flatMap.1 hevent
          obtain ⟨name, -, rfl⟩ := List.mem_map.1 hp
          rfl)
      simp [Declaration.events, Declaration.nodes, h.referencesIn_events, hparameters,
        body.referencesIn_eventsInside h.returnType.type]

theorem Block.referencesIn_eventsInside : ∀ (b : Block) (returnType : Option Ty),
    referencesIn b.eventsInside = variablesIn (b.nodes returnType)
  | ⟨_, statements, _, _⟩, returnType => Statement.referencesIn_eventsOfAll statements returnType

theorem Block.referencesIn_events : ∀ (b : Block) (returnType : Option Ty),
    referencesIn b.events = variablesIn (b.nodes returnType)
  | ⟨_, statements, _, newScope⟩, returnType => by
      have h := Statement.referencesIn_eventsOfAll statements returnType
      cases newScope
      · exact h
      · simpa [Block.events, Block.nodes] using h

theorem Statement.referencesIn_events : ∀ (s : Statement) (returnType : Option Ty),
    referencesIn s.events = variablesIn (s.nodes returnType)
  | .declaration d, _ => d.referencesIn_events false
  | .block b, returnType => b.referencesIn_events returnType
  | .expression e _, _ => e.referencesIn_events
  | .empty _, _ | .jump .., _ => rfl
  | .ifThen _ _ condition _ whenTrue, returnType => by
      simp [Statement.events, Statement.nodes, Condition.nodes,
        condition.referencesIn_events, whenTrue.referencesIn_events returnType]
  | .ifElse _ _ condition _ whenTrue _ whenFalse, returnType => by
      simp [Statement.events, Statement.nodes, Condition.nodes,
        condition.referencesIn_events, whenTrue.referencesIn_events returnType,
        whenFalse.referencesIn_events returnType]
  | .whileLoop _ _ condition _ body, returnType => by
      simp [Statement.events, Statement.nodes, condition.referencesIn_events,
        body.referencesIn_events returnType]
  | .doLoop _ body _ _ condition _ _, returnType => by
      simp [Statement.events, Statement.nodes, Condition.nodes, condition.referencesIn_events,
        body.referencesIn_events returnType]
  | .forLoop _ _ init condition _ increment _ body, returnType => by
      simp [Statement.events, Statement.nodes, init.referencesIn_events returnType,
        referencesIn_optionalConditionEvents, referencesIn_optionalEvents,
        body.referencesIn_events returnType]
  | .return _ value _, _ => by
      simp [Statement.events, Statement.nodes, referencesIn_optionalEvents]

theorem Statement.referencesIn_eventsOfAll : ∀ (ss : List Statement) (returnType : Option Ty),
    referencesIn (Statement.eventsOfAll ss) = variablesIn (Statement.nodesOfAll ss returnType)
  | [], _ => rfl
  | s :: ss, returnType => by
      simp [Statement.eventsOfAll, Statement.nodesOfAll, s.referencesIn_events returnType,
        Statement.referencesIn_eventsOfAll ss returnType]

end

/-- The trace has one reference for each variable in an expression, in the same order. -/
theorem Shader.referencesIn_trace (shader : Shader) :
    referencesIn shader.trace = variablesIn shader.nodes :=
  referencesIn_flatMap fun d _ => d.referencesIn_events true

/-! ## Expressions in a shader -/

theorem Expr.acts_subset_events (e : Expr) : e.acts ⊆ e.events := by
  cases e with
  | literal => exact List.Subset.refl _
  | «variable» => exact List.Subset.refl _
  | _ =>
      rw [events]
      exact List.subset_append_right _ _

theorem Expr.write_mem_events {e target : Expr} (h : target ∈ e.targets) :
    .write target ∈ e.events := by
  apply e.acts_subset_events
  cases e with
  | «variable» => cases h
  | arrayCall => cases h
  | _ => exact List.mem_map_of_mem h

/-- The events of an expression are among others, and its nodes have a property. -/
def Node.Within (all : List ScopeEvent) (P : Node → Prop) : Node → Prop
  | expr e => e.events ⊆ all ∧ AllNodes P e.nodes
  | _ => True

theorem List.flatMap_subset_iff {α β : Type} {f : α → List β} {as : List α} {all : List β} :
    as.flatMap f ⊆ all ↔ ∀ a ∈ as, f a ⊆ all := by
  simp only [List.subset_def, List.mem_flatMap]
  exact ⟨fun h a ha b hb => h ⟨a, ha, hb⟩, fun h b ⟨a, ha, hb⟩ => h a ha hb⟩

section

variable {all : List ScopeEvent} {P : Node → Prop}

mutual

/-- What holds of an expression holds of the expressions in it. -/
theorem Expr.within : ∀ e : Expr, e.events ⊆ all → AllNodes P e.nodes →
    AllNodes (Node.Within all P) e.nodes
  | .assignment _ left _ right, hall, hP | .binary _ left _ right, hall, hP => by
      have h := hall
      have hnodes := hP
      simp only [events, List.append_subset] at h
      simp only [nodes, allNodes_cons, allNodes_append] at hnodes ⊢
      exact ⟨⟨hall, hP⟩, left.within h.1.1 hnodes.2.1, right.within h.1.2 hnodes.2.2⟩
  | .ternary _ condition _ whenTrue _ whenFalse, hall, hP => by
      have h := hall
      have hnodes := hP
      simp only [events, List.append_subset] at h
      simp only [nodes, allNodes_cons, allNodes_append] at hnodes ⊢
      exact ⟨⟨hall, hP⟩, ⟨condition.within h.1.1.1 hnodes.2.1.1,
        whenTrue.within h.1.1.2 hnodes.2.1.2⟩, whenFalse.within h.1.2 hnodes.2.2⟩
  | .unary _ _ operand, hall, hP | .step _ operand _, hall, hP | .group _ _ operand _, hall, hP
  | .field _ operand _ _, hall, hP =>
      allNodes_cons.2 ⟨⟨hall, hP⟩,
        operand.within (List.append_subset.1 hall).1 (allNodes_cons.1 hP).2⟩
  | .literal .., hall, hP | .variable .., hall, hP => allNodes_cons.2 ⟨⟨hall, hP⟩, allNodes_nil⟩
  | .call _ _ _ _ arguments _, hall, hP | .list _ arguments, hall, hP =>
      allNodes_cons.2 ⟨⟨hall, hP⟩,
        Expr.within_each arguments (List.append_subset.1 hall).1 (allNodes_cons.1 hP).2⟩
  | .arrayCall _ _ _ size _ _ _ arguments _, hall, hP => by
      have h := hall
      have hnodes := hP
      simp only [events, List.append_subset] at h
      simp only [nodes, allNodes_cons, allNodes_append] at hnodes ⊢
      exact ⟨⟨hall, hP⟩, size.within h.1.1 hnodes.2.1,
        Expr.within_each arguments h.1.2 hnodes.2.2⟩
  | .index _ operand _ position _, hall, hP => by
      have h := hall
      have hnodes := hP
      simp only [events, List.append_subset] at h
      simp only [nodes, allNodes_cons, allNodes_append] at hnodes ⊢
      exact ⟨⟨hall, hP⟩, operand.within h.1.1 hnodes.2.1, position.within h.1.2 hnodes.2.2⟩

theorem Expr.within_each : ∀ es : List Expr, eventsOfEach es ⊆ all →
    AllNodes P (nodesOfEach es) → AllNodes (Node.Within all P) (nodesOfEach es)
  | [], _, _ => allNodes_nil
  | e :: es, h, hP => by
      simp only [eventsOfEach, List.append_subset] at h
      simp only [nodesOfEach, allNodes_append] at hP ⊢
      exact ⟨e.within h.1 hP.1, Expr.within_each es h.2 hP.2⟩

end

theorem within_sizeNodes {size : Option ArraySize} (h : sizeEvents size ⊆ all)
    (hP : AllNodes P (sizeNodes size)) : AllNodes (Node.Within all P) (sizeNodes size) := by
  cases size with
  | none => exact allNodes_nil
  | some size => exact size.size.within h hP

theorem within_optionalNodes {e : Option Expr} (h : optionalEvents e ⊆ all)
    (hP : AllNodes P (optionalNodes e)) : AllNodes (Node.Within all P) (optionalNodes e) := by
  cases e with
  | none => exact allNodes_nil
  | some e => exact e.within h hP

theorem Declarator.within_inside {d : Declarator} (h : d.eventsInside ⊆ all)
    (hP : AllNodes P d.inside) : AllNodes (Node.Within all P) d.inside := by
  simp only [eventsInside, List.append_subset] at h
  simp only [inside, allNodes_append] at hP ⊢
  exact ⟨within_sizeNodes h.1 hP.1, within_optionalNodes h.2 hP.2⟩

theorem Declarator.within {words : List Token} {d : Declarator} (h : d.events words ⊆ all)
    (hP : AllNodes P d.nodes) : AllNodes (Node.Within all P) d.nodes :=
  allNodes_cons.2 ⟨trivial, within_inside (List.append_subset.1 h).1 (allNodes_cons.1 hP).2⟩

mutual

theorem TypeSpec.within : ∀ s : TypeSpec, s.events ⊆ all → AllNodes P s.nodes →
    AllNodes (Node.Within all P) s.nodes
  | .named .., _, _ => allNodes_cons.2 ⟨trivial, allNodes_nil⟩
  | .struct _ _ _ _ fields _ _ _, h, hP => by
      simp only [TypeSpec.events, List.cons_subset, List.append_subset] at h
      simp only [TypeSpec.nodes, allNodes_cons] at hP ⊢
      exact ⟨trivial, FieldSpec.within fields h.2.1 hP.2⟩

theorem FieldSpec.within : ∀ fields : List FieldSpec, FieldSpec.eventsOfAll fields ⊆ all →
    AllNodes P (FieldSpec.nodesOfAll fields) →
      AllNodes (Node.Within all P) (FieldSpec.nodesOfAll fields)
  | [], _, _ => allNodes_nil
  | ⟨type, names, _⟩ :: rest, h, hP => by
      simp only [FieldSpec.eventsOfAll, List.append_subset, List.flatMap_subset_iff] at h
      simp only [FieldSpec.nodesOfAll, Declarator.fieldNodes, allNodes_append, allNodes_flatMap,
        allNodes_cons] at hP ⊢
      obtain ⟨⟨htype, hnames⟩, hrest⟩ := h
      exact ⟨⟨type.within htype hP.1.1, fun d hd => ⟨trivial,
        Declarator.within_inside (hnames d hd) (hP.1.2 d hd).2⟩⟩,
        FieldSpec.within rest hrest hP.2⟩

end

theorem ParameterSpec.within {p : ParameterSpec} (h : p.events ⊆ all) (hP : AllNodes P p.nodes) :
    AllNodes (Node.Within all P) p.nodes := by
  simp only [events, List.append_subset] at h
  simp only [nodes, allNodes_cons, allNodes_append] at hP ⊢
  exact ⟨trivial, p.typeSpec.within h.1 hP.2.1, within_sizeNodes h.2 hP.2.2⟩

theorem FunctionHeader.within {fileScope : Bool} {header : FunctionHeader}
    (h : header.events fileScope ⊆ all) (hP : AllNodes P header.nodes) :
    AllNodes (Node.Within all P) header.nodes := by
  simp only [events, List.append_subset, List.flatMap_subset_iff] at h
  simp only [nodes, allNodes_cons, allNodes_append, allNodes_flatMap] at hP ⊢
  exact ⟨trivial, header.returnType.within h.1.1 hP.2.1,
    fun p hp => ParameterSpec.within (h.1.2 p hp) (hP.2.2 p hp)⟩

theorem Condition.within {c : Condition} (h : c.events ⊆ all) (hP : AllNodes P c.nodes) :
    AllNodes (Node.Within all P) c.nodes := by
  cases c with
  | expression e => exact allNodes_cons.2 ⟨trivial, e.within h (allNodes_cons.1 hP).2⟩
  | declaration s d =>
      simp only [events, List.append_subset] at h
      simp only [nodes, allNodes_cons, allNodes_append] at hP ⊢
      exact ⟨trivial, s.within h.1 hP.2.1, Declarator.within h.2 hP.2.2⟩

theorem within_optionalConditionNodes {c : Option Condition}
    (h : optionalConditionEvents c ⊆ all) (hP : AllNodes P (optionalConditionNodes c)) :
    AllNodes (Node.Within all P) (optionalConditionNodes c) := by
  cases c with
  | none => exact allNodes_nil
  | some c => exact Condition.within h hP

mutual

theorem Declaration.within {fileScope : Bool} : ∀ d : Declaration, d.events fileScope ⊆ all →
    AllNodes P d.nodes → AllNodes (Node.Within all P) d.nodes
  | .declarators s ds _, h, hP => by
      simp only [Declaration.events, List.append_subset, List.flatMap_subset_iff] at h
      simp only [Declaration.nodes, allNodes_append, allNodes_flatMap] at hP ⊢
      exact ⟨s.within h.1.2 hP.1, fun d hd => Declarator.within (h.2 d hd) (hP.2 d hd)⟩
  | .type s _, h, hP => s.within (List.append_subset.1 h).2 hP
  | .precision _ _ s _, h, hP => s.within h hP
  | .invariants .., _, _ => allNodes_nil
  | .prototype header _, h, hP => FunctionHeader.within h hP
  | .function header body, h, hP => by
      simp only [Declaration.events, List.append_subset, List.cons_subset] at h
      simp only [Declaration.nodes, allNodes_append] at hP ⊢
      exact ⟨FunctionHeader.within h.1 hP.1, body.within_inside h.2.2.1.2 hP.2⟩

theorem Block.within_inside : ∀ (b : Block) {returnType : Option Ty}, b.eventsInside ⊆ all →
    AllNodes P (b.nodes returnType) → AllNodes (Node.Within all P) (b.nodes returnType)
  | ⟨_, statements, _, _⟩, _, h, hP => Statement.within_all statements h hP

theorem Block.within : ∀ (b : Block) {returnType : Option Ty}, b.events ⊆ all →
    AllNodes P (b.nodes returnType) → AllNodes (Node.Within all P) (b.nodes returnType)
  | ⟨_, statements, _, newScope⟩, _, h, hP => by
      refine Statement.within_all statements ?_ hP
      cases newScope
      · exact h
      · simp only [Block.events, if_true, List.cons_subset, List.append_subset] at h
        exact h.2.1

theorem Statement.within : ∀ (s : Statement) {returnType : Option Ty}, s.events ⊆ all →
    AllNodes P (s.nodes returnType) → AllNodes (Node.Within all P) (s.nodes returnType)
  | .declaration d, _, h, hP => d.within h hP
  | .block b, _, h, hP => b.within h hP
  | .expression e _, _, h, hP => e.within h hP
  | .empty _, _, _, _ | .jump .., _, _, _ => allNodes_nil
  | .ifThen _ _ condition _ whenTrue, _, h, hP => by
      simp only [Statement.events, List.append_subset] at h
      simp only [Statement.nodes, Condition.nodes, allNodes_cons, allNodes_append] at hP ⊢
      exact ⟨⟨trivial, condition.within h.1 hP.1.2⟩, whenTrue.within h.2 hP.2⟩
  | .ifElse _ _ condition _ whenTrue _ whenFalse, _, h, hP => by
      simp only [Statement.events, List.append_subset] at h
      simp only [Statement.nodes, Condition.nodes, allNodes_cons, allNodes_append] at hP ⊢
      exact ⟨⟨⟨trivial, condition.within h.1.1 hP.1.1.2⟩, whenTrue.within h.1.2 hP.1.2⟩,
        whenFalse.within h.2 hP.2⟩
  | .whileLoop _ _ condition _ body, _, h, hP => by
      simp only [Statement.events, List.cons_subset, List.append_subset] at h
      simp only [Statement.nodes, allNodes_append] at hP ⊢
      exact ⟨Condition.within h.2.1.1 hP.1, body.within h.2.1.2 hP.2⟩
  | .doLoop _ body _ _ condition _ _, _, h, hP => by
      simp only [Statement.events, List.append_subset] at h
      simp only [Statement.nodes, Condition.nodes, allNodes_cons, allNodes_append] at hP ⊢
      exact ⟨body.within h.1 hP.1, trivial, condition.within h.2 hP.2.2⟩
  | .forLoop _ _ init condition _ increment _ body, _, h, hP => by
      simp only [Statement.events, List.cons_subset, List.append_subset] at h
      simp only [Statement.nodes, allNodes_append] at hP ⊢
      obtain ⟨-, ⟨⟨⟨hinit, hcondition⟩, hincrement⟩, hbody⟩, -⟩ := h
      exact ⟨⟨⟨init.within hinit hP.1.1.1, within_optionalConditionNodes hcondition hP.1.1.2⟩,
        within_optionalNodes hincrement hP.1.2⟩, body.within hbody hP.2⟩
  | .return _ value _, _, h, hP =>
      allNodes_cons.2 ⟨trivial, within_optionalNodes h (allNodes_cons.1 hP).2⟩

theorem Statement.within_all : ∀ (ss : List Statement) {returnType : Option Ty},
    Statement.eventsOfAll ss ⊆ all → AllNodes P (Statement.nodesOfAll ss returnType) →
      AllNodes (Node.Within all P) (Statement.nodesOfAll ss returnType)
  | [], _, _, _ => allNodes_nil
  | s :: ss, _, h, hP => by
      simp only [Statement.eventsOfAll, List.append_subset] at h
      simp only [Statement.nodesOfAll, allNodes_append] at hP ⊢
      exact ⟨s.within h.1 hP.1, Statement.within_all ss h.2 hP.2⟩

end

/-- The events of every expression in a shader are in the trace. What holds of all nodes holds of
those in the expression. -/
theorem Shader.within_trace {shader : Shader} (h : AllNodes P shader.nodes) :
    AllNodes (Node.Within shader.trace P) shader.nodes := by
  simp only [nodes, allNodes_flatMap] at h ⊢
  exact fun d hd => d.within (List.flatMap_subset_iff.1 (List.Subset.refl _) d hd) (h d hd)

end

/-- An expression in a shader has its events in the trace and its nodes among those of the
shader. -/
theorem Shader.expr_within {shader : Shader} {e : Expr} (h : .expr e ∈ shader.nodes) :
    e.events ⊆ shader.trace ∧ e.nodes ⊆ shader.nodes :=
  within_trace (P := (· ∈ shader.nodes)) (fun _ hn => hn) (.expr e) h

end Essl
