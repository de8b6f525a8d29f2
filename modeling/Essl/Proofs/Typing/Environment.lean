import Essl.Proofs.Tree.Trace
import Essl.Typing.Context
import Mathlib.Logic.Function.Basic

/-!
# Lexical scoping

What the names of a shader mean, told by the events of its trace alone. An environment says of
every open scope what each name is declared as in it. Events change the environment, have to agree
with it, and are remarked upon where something is wrong.
-/

namespace Essl

/-! ## Environments -/

/-- What a name is declared as in one scope. -/
inductive Entry where
  /-- A variable or struct. -/
  | object (symbol : Symbol)
  | function

/-- The variable or struct. -/
def Entry.object? : Entry → Option Symbol
  | object symbol => some symbol
  | function => none

/-- The names that one scope declares. -/
abbrev Frame : Type := String → Option Entry

/-- The open scopes. -/
structure Env where
  current : Frame
  /-- The scopes around the current one, from the inside out. -/
  outer : List Frame

namespace Env

/-- Nothing declared, at file scope. -/
def empty : Env := ⟨fun _ => none, []⟩

def enter (env : Env) : Env := ⟨fun _ => none, env.current :: env.outer⟩

def leave (env : Env) : Env :=
  match env.outer with
  | [] => env
  | frame :: rest => ⟨frame, rest⟩

/-- The first declaration of a name in a scope is the one that counts. -/
def declare (env : Env) (name : String) (entry : Entry) : Env :=
  match env.current name with
  | none => { env with current := Function.update env.current name (some entry) }
  | some _ => env

/-- The variable or struct of the innermost scope that declares the name as one. -/
def lookup (env : Env) (name : String) : Option Symbol :=
  (env.current :: env.outer).findSome? fun frame => (frame name).bind Entry.object?

/-- The variable that a name stands for: the one declared in the shader, else a built-in one. -/
def variableNamed? (env : Env) (stage : Stage) (name : String) : Option Variable :=
  match env.lookup name with
  | some (.variable v) => some v
  | some _ => none
  | none => Builtin.variableNamed? name stage

end Env

/-! ## Remarks -/

/-- What can be wrong with names, with the places of storage qualifiers and with what is
written to. -/
inductive Remark where
  | redeclared (name : String)
  | undeclared (name : String)
  | notAVariable (name : String)
  | notAType (name : String)
  | readOnly (name : String)
  | notAssignable
  | notGlobal (qualifier : Qualifier)
  | attributeInFragment
  deriving DecidableEq

/-- The remark that a problem amounts to, if it is about any of this. -/
def SemanticCause.remark? : SemanticCause → Option Remark
  | redeclaration name _ _ => some (.redeclared name)
  | undeclaredIdentifier name => some (.undeclared name)
  | notAVariable name => some (.notAVariable name)
  | notAType name => some (.notAType name)
  | readOnlyAssignment name => some (.readOnly name)
  | notAssignable => some .notAssignable
  | notGlobalScope q => some (.notGlobal q)
  | attributeInFragmentShader => some .attributeInFragment
  | _ => none

/-- The remarks among problems, with their places. -/
def remarksIn (problems : List SemanticError) : List (Located Remark) :=
  problems.filterMap fun problem => problem.cause.remark?.map (⟨·, problem.location⟩)

namespace Env

/-- A scope declares no name twice. -/
def redeclaration (env : Env) (name : Token) : List (Located Remark) :=
  if (env.current name.text).isSome then [⟨.redeclared name.text, name.location⟩] else []

/-- A function may be declared any number of times, but not where its name is something else. -/
def functionRedeclaration (env : Env) (name : Token) : List (Located Remark) :=
  match env.current name.text with
  | some (.object _) => [⟨.redeclared name.text, name.location⟩]
  | _ => []

/-- A name in an expression is that of a variable. -/
def variableRemarks (env : Env) (stage : Stage) (name : Token) : List (Located Remark) :=
  match env.lookup name.text with
  | some (.variable _) => []
  | some _ => [⟨.notAVariable name.text, name.location⟩]
  | none =>
    if (Builtin.variableNamed? name.text stage).isSome then []
    else [⟨.undeclared name.text, name.location⟩]

/-- A name in front of a declaration is that of a type. -/
def typeRemarks (env : Env) (name : Token) : List (Located Remark) :=
  match env.lookup name.text with
  | some (.struct _) => []
  | some _ => [⟨.notAType name.text, name.location⟩]
  | none =>
    if (Primitive.ofName? name.text).isSome then []
    else [⟨.undeclared name.text, name.location⟩]

end Env

/-- What is written to is a variable that may be written, or a part of one. -/
def Expr.writeRemarks (target : Expr) : List (Located Remark) :=
  match target.root with
  | .variable info name =>
    match info.symbol with
    | some (.variable v) => if v.readOnly then [⟨.readOnly name.text, name.location⟩] else []
    | _ => []
  | other => if other.info.type.isSome then [⟨.notAssignable, other.location⟩] else []

/-- Storage qualifiers other than `const` stand at file scope, and attributes in vertex shaders. -/
def StorageWord.remarks (stage : Stage) (word : StorageWord) : List (Located Remark) :=
  (if (word.qualifier.isGlobalStorage || word.qualifier == .invariant) && !word.fileScope then
    [⟨.notGlobal word.qualifier, word.location⟩] else []) ++
  (if word.qualifier == .attrib && stage != .vertex then
    [⟨.attributeInFragment, word.location⟩] else [])

/-! ## Events -/

namespace ScopeEvent

/-- The environment after the event. -/
def after (env : Env) : ScopeEvent → Env
  | enter => env.enter
  | leave => env.leave
  | .variable _ name (some v) => env.declare name.text (.object (.variable v))
  | struct name (some s) => env.declare name.text (.object (.struct s))
  | function name => env.declare name.text .function
  | _ => env

/-- What there is to remark on the event. -/
def remarks (stage : Stage) (env : Env) : ScopeEvent → List (Located Remark)
  | .variable _ name _ | struct name _ => env.redeclaration name
  | function name => env.functionRedeclaration name
  | reference name _ | invariant name _ => env.variableRemarks stage name
  | typeName name => env.typeRemarks name
  | write target => target.writeRemarks
  | storage word => word.remarks stage
  | enter | leave => []

/-- What typing has found out at the event is what the environment says. A declared variable is a
new one of the name, which is read-only if the words in front of it say so. -/
def Right (stage : Stage) (env : Env) : ScopeEvent → Prop
  | .variable words name symbol =>
    ∃ v, symbol = some v ∧ v.name = name.text ∧ v.declaredAt = some name.location ∧
      v.readOnly = words.any Token.forbidsWriting
  | struct name defined =>
    ∃ s, defined = some s ∧ s.name = some name.text ∧ s.location = name.location
  | reference name symbol => symbol = (env.variableNamed? stage name.text).map .variable
  | invariant name symbol => symbol = env.variableNamed? stage name.text
  | _ => True

end ScopeEvent

namespace Env

variable {stage : Stage} {env : Env} {events more : List ScopeEvent}

/-- The environment after the events. -/
def run (env : Env) (events : List ScopeEvent) : Env := events.foldl ScopeEvent.after env

/-- All remarks on the events, in order. -/
def remarks (stage : Stage) (env : Env) : List ScopeEvent → List (Located Remark)
  | [] => []
  | event :: events => event.remarks stage env ++ remarks stage (event.after env) events

/-- Every event is right where it stands. -/
def AllRight (stage : Stage) (env : Env) : List ScopeEvent → Prop
  | [] => True
  | event :: events => event.Right stage env ∧ AllRight stage (event.after env) events

@[simp] theorem run_nil : env.run [] = env := rfl

@[simp] theorem run_cons (event : ScopeEvent) :
    env.run (event :: events) = (event.after env).run events := rfl

@[simp] theorem run_append : env.run (events ++ more) = (env.run events).run more :=
  List.foldl_append

theorem remarks_append : env.remarks stage (events ++ more) =
    env.remarks stage events ++ (env.run events).remarks stage more := by
  induction events generalizing env with
  | nil => rfl
  | cons event events ih => simp [remarks, ih]

theorem allRight_append : env.AllRight stage (events ++ more) ↔
    env.AllRight stage events ∧ (env.run events).AllRight stage more := by
  induction events generalizing env with
  | nil => simp [AllRight]
  | cons event events ih => simp [AllRight, ih, and_assoc]

/-- Each event in particular is right after those before it. -/
theorem AllRight.at (h : env.AllRight stage events) {before rest : List ScopeEvent}
    {event : ScopeEvent} (hevents : events = before ++ event :: rest) :
    event.Right stage (env.run before) := by
  subst hevents
  exact (allRight_append.1 h).2.1

/-- Where there is nothing to remark on the events, there is nothing on each of them. -/
theorem remarks_at (h : env.remarks stage events = []) {before rest : List ScopeEvent}
    {event : ScopeEvent} (hevents : events = before ++ event :: rest) :
    event.remarks stage (env.run before) = [] := by
  subst hevents
  rw [remarks_append, remarks, List.append_eq_nil_iff, List.append_eq_nil_iff] at h
  exact h.2.1

/-! ## Known variables -/

/-- All variables of the environment have a property. -/
def Knows (P : Variable → Prop) (env : Env) : Prop :=
  ∀ frame ∈ env.current :: env.outer, ∀ name v, frame name = some (.object (.variable v)) → P v

namespace Knows

variable {P : Variable → Prop}

theorem empty : Env.empty.Knows P := by
  intro frame hframe name v h
  rw [List.mem_singleton.1 hframe] at h
  cases h

theorem enter (henv : env.Knows P) : env.enter.Knows P := by
  intro frame hframe name v h
  rcases List.mem_cons.1 hframe with rfl | hframe
  · cases h
  · exact henv frame hframe name v h

theorem leave (henv : env.Knows P) : env.leave.Knows P := by
  intro frame hframe name v h
  unfold Env.leave at hframe
  split at hframe
  · exact henv frame hframe name v h
  · rename_i outer rest houter
    refine henv frame (List.mem_cons_of_mem _ ?_) name v h
    rw [houter]
    exact hframe

theorem declare (henv : env.Knows P) (name : String) {entry : Entry}
    (hentry : ∀ v, entry = .object (.variable v) → P v) : (env.declare name entry).Knows P := by
  unfold Env.declare
  split
  · intro frame hframe other v h
    rcases List.mem_cons.1 hframe with rfl | hframe
    · dsimp only at h
      by_cases hother : other = name
      · subst hother
        rw [Function.update_self] at h
        exact hentry v (Option.some.inj h)
      · rw [Function.update_of_ne hother] at h
        exact henv _ List.mem_cons_self other v h
    · exact henv frame (List.mem_cons_of_mem _ hframe) other v h
  · exact henv

/-- One event adds only the variable that it declares. -/
theorem after (henv : env.Knows P) {event : ScopeEvent}
    (h : ∀ words name v, event = .variable words name (some v) → P v) :
    (event.after env).Knows P := by
  cases event with
  | enter => exact henv.enter
  | leave => exact henv.leave
  | «variable» words name symbol =>
      cases symbol with
      | none => exact henv
      | some v =>
          refine henv.declare name.text ?_
          rintro _ ⟨⟩
          exact h words name v rfl
  | struct name defined =>
      cases defined with
      | none => exact henv
      | some s => exact henv.declare name.text nofun
  | function name => exact henv.declare name.text nofun
  | _ => exact henv

theorem run (henv : env.Knows P)
    (h : ∀ words name v, .variable words name (some v) ∈ events → P v) :
    (env.run events).Knows P := by
  induction events generalizing env with
  | nil => exact henv
  | cons event events ih =>
      refine ih (henv.after ?_) ?_
      · rintro words name v rfl
        exact h words name v List.mem_cons_self
      · exact fun words name v hmem => h words name v (List.mem_cons_of_mem _ hmem)

theorem variableNamed? (henv : env.Knows P) {name : String} {v : Variable}
    (h : env.variableNamed? stage name = some v) :
    Builtin.variableNamed? name stage = some v ∨ P v := by
  unfold Env.variableNamed? at h
  split at h
  · rename_i w hlookup
    obtain ⟨frame, hframe, hw⟩ := List.exists_of_findSome?_eq_some hlookup
    obtain ⟨entry, hentry, hobject⟩ := Option.bind_eq_some_iff.1 hw
    cases h
    cases entry with
    | object symbol =>
        cases hobject
        exact .inr (henv frame hframe name v hentry)
    | function => cases hobject
  · cases h
  · exact .inl h

end Knows

end Env

end Essl
