import Essl.Proofs.Token.Preprocessed

/-!
# What directives do to sections

A directive leaves the open sections alone unless it opens, continues or closes one. What it does
to the flags of a section depends on the value of its condition, and a condition is evaluated only
if something depends on it.
-/

namespace Essl

/-- The directives that open a section. -/
def Directive.Opens : Directive → Prop
  | when | whenDefined _ => True
  | _ => False

/-- The directives that begin a group with a condition. -/
def Directive.HasCondition (d : Directive) : Prop := d.Opens ∨ d = elif

theorem expandLine_nil (table : MacroTable) : expandLine table [] = ([], []) := by
  unfold expandLine
  dsimp only [List.map_nil]
  generalize Queue.stepLimit lineSupply _ = count
  cases count with
  | zero => rfl
  | succ count =>
      unfold Queue.takeTokens Queue.next
      generalize Queue.stepLimit lineSupply _ = steps
      cases steps <;> rfl

theorem Condition.evaluate_nil (location : Location) :
    ∃ failure, evaluate location [] = .error failure := ⟨_, rfl⟩

namespace Environment

variable (env : Environment) (hash name directive : Token) (line : List Token)

@[simp] theorem sections_report (cause : DirectiveCause) (location : Location) :
    (env.report cause location).sections = env.sections := rfl

@[simp] theorem sections_openSection (active value : Bool) (location : Location) :
    (env.openSection active value location).sections =
      ⟨value, value || !active, false, location⟩ :: env.sections := rfl

@[simp] theorem sections_condition : (env.condition directive line).2.sections = env.sections := by
  unfold condition
  split
  rename_i resolved env' hresolved
  have henv : env'.sections = env.sections := by
    split at hresolved <;> (obtain ⟨-, rfl⟩ := Prod.mk.inj hresolved; rfl)
  dsimp only
  split <;> simp [henv]

@[simp] theorem sections_macroName : (env.macroName directive line).2.sections = env.sections := by
  unfold macroName
  split
  · rfl
  · split <;> rfl

theorem sections_define : (env.define directive line).sections = env.sections := by
  have hnamed := env.sections_macroName directive line
  unfold define
  split <;> rename_i hname <;> rw [hname] at hnamed
  · exact hnamed
  · dsimp only at hnamed ⊢
    split
    · exact hnamed
    · split
      · exact hnamed
      · split
        · split <;> exact hnamed
        · exact hnamed

theorem sections_undef : (env.undef directive line).sections = env.sections := by
  have hnamed := env.sections_macroName directive line
  unfold undef
  split <;> rename_i hname <;> rw [hname] at hnamed
  · exact hnamed
  · split <;> exact hnamed

/-- The value of a condition depends on no more than the macros. -/
theorem condition_fst_congr {env env' : Environment} (h : env'.macros = env.macros) :
    (env'.condition directive line).1 = (env.condition directive line).1 := by
  have hdefined : env'.isDefined = env.isDefined := by
    unfold isDefined
    rw [h]
  unfold condition
  rw [hdefined]
  cases resolveDefined (fun name => env.isDefined name || name == "__LINE__") line with
  | ok resolved =>
      dsimp only
      rw [h]
      split <;> rfl
  | error location =>
      have hreported : (env'.report .invalidExpression location).macros =
          (env.report .invalidExpression location).macros := h
      dsimp only
      rw [hreported]
      split <;> rfl

/-! ## Conditions -/

/-- The value of the condition of a directive, if it is evaluated. -/
def value? (env : Environment) (name : Token) (line : List Token) : Option Bool :=
  match Directive.ofName name.text with
  | .when => if env.isActive then some (env.condition name line).1 else none
  | .whenDefined expected =>
    if env.isActive then
      some ((env.macroName name line).1.any fun operand => env.isDefined operand.text == expected)
    else none
  | .elif =>
    match env.sections with
    | [] => none
    | top :: _ => if top.taken then none else some (env.condition name line).1
  | _ => none

variable {env name}

/-- Opening a section evaluates its condition where tokens count. -/
theorem isSome_value?_of_opens (hname : (Directive.ofName name.text).Opens) :
    (env.value? name line).isSome = env.isActive := by
  cases h : Directive.ofName name.text with
  | when | whenDefined =>
      simp only [value?, h]
      cases env.isActive <;> rfl
  | elif | otherwise | endif | define | undef | error | ignored | unknown =>
      rw [h] at hname
      exact hname.elim

theorem value?_elif {top : Section} {outer : List Section}
    (hname : Directive.ofName name.text = .elif) (hsections : env.sections = top :: outer) :
    env.value? name line = if top.taken then none else some (env.condition name line).1 := by
  simp only [value?, hname, hsections]

theorem sections_directive_opens (hname : (Directive.ofName name.text).Opens) :
    (env.directive hash (name :: line)).sections =
      ⟨(env.value? name line).getD false, (env.value? name line).getD false || !env.isActive, false,
        hash.location.join name.location⟩ :: env.sections := by
  cases h : Directive.ofName name.text with
  | when =>
      simp only [directive, value?, h]
      cases env.isActive <;> simp
  | whenDefined expected =>
      have hsections := env.sections_macroName name line
      have hmacros := env.macros_macroName name line
      simp only [directive, value?, h]
      cases env.isActive with
      | false => simp
      | true =>
          simp only [↓reduceIte, sections_openSection]
          split <;> rename_i hoperand <;> rw [hoperand] at hsections hmacros
          · dsimp only at hsections hmacros
            simp [hsections, hoperand, isDefined, hmacros]
          · dsimp only at hsections
            simp [hsections, hoperand]
  | elif | otherwise | endif | define | undef | error | ignored | unknown =>
      rw [h] at hname
      exact hname.elim

theorem sections_directive_elif {top : Section} {outer : List Section}
    (hname : Directive.ofName name.text = .elif) (hsections : env.sections = top :: outer) :
    (env.directive hash (name :: line)).sections =
      { top with
        active := (env.value? name line).getD false
        taken := top.taken || (env.value? name line).getD false } :: outer := by
  have hreported := fun cause location =>
    @condition_fst_congr name line env (env.report cause location) rfl
  simp only [directive, value?, hname, elif, hsections]
  cases top.taken with
  | true => simp
  | false => cases top.seenElse <;> simp [hreported]

theorem sections_directive_otherwise {top : Section} {outer : List Section}
    (hname : Directive.ofName name.text = .otherwise) (hsections : env.sections = top :: outer) :
    (env.directive hash (name :: line)).sections =
      { top with
        active := !top.taken && !top.seenElse
        taken := top.taken || !top.seenElse
        seenElse := true } :: outer := by
  simp only [directive, hname, otherwise, hsections]
  cases top.seenElse <;> simp

/-! ## Conditions that are not looked at -/

/-- The directive does the same whatever its condition is. -/
def Ignores (env : Environment) (hash name : Token) : Prop :=
  ∀ line line', env.directive hash (name :: line) = env.directive hash (name :: line')

/-- A condition of nothing is one error, and one that breaks off after `defined` is two. -/
theorem length_errors_condition (env : Environment) (directive t : Token) :
    (env.condition directive []).2.errors.length = env.errors.length + 1 ∧
      (env.condition directive
        [{ t with kind := .identifier, text := "defined" }]).2.errors.length =
          env.errors.length + 2 := by
  obtain ⟨failure, hfailure⟩ := Condition.evaluate_nil directive.location
  simp [condition, resolveDefined, expandLine_nil, hfailure, report]

theorem ignores_of_value?_eq_none (hcondition : (Directive.ofName name.text).HasCondition)
    (h : env.value? name line = none) : env.Ignores hash name := by
  intro line' line''
  rcases hcondition with hopens | hname
  · have hactive : env.isActive = false := by
      rw [← isSome_value?_of_opens line hopens, h]
      rfl
    cases hname : Directive.ofName name.text with
    | when | whenDefined => simp [directive, hname, hactive]
    | elif | otherwise | endif | define | undef | error | ignored | unknown =>
        rw [hname] at hopens
        exact hopens.elim
  · simp only [directive, hname, elif]
    cases hsections : env.sections with
    | nil => rfl
    | cons top outer =>
        rw [value?_elif line hname hsections] at h
        have htaken : top.taken = true := by simpa using h
        simp [htaken]

theorem not_ignores_of_value? (hcondition : (Directive.ofName name.text).HasCondition)
    {value : Bool} (h : env.value? name line = some value) : ¬ env.Ignores hash name := by
  intro hignores
  -- Two lines that report different numbers of errors, whatever the macros are.
  have herrors := congrArg (fun env => env.errors.length)
    (hignores [] [{ name with kind := .identifier, text := "defined" }])
  have hlengths := fun env => length_errors_condition env name name
  rcases hcondition with hopens | hname
  · have hactive : env.isActive = true := by
      rw [← isSome_value?_of_opens line hopens, h]
      rfl
    cases hname : Directive.ofName name.text with
    | when => simp [directive, hname, hactive, openSection, hlengths] at herrors
    | whenDefined => simp [directive, hname, hactive, openSection, macroName, report] at herrors
    | elif | otherwise | endif | define | undef | error | ignored | unknown =>
        rw [hname] at hopens
        exact hopens.elim
  · simp only [directive, hname, elif] at herrors
    cases hsections : env.sections with
    | nil => simp [value?, hname, hsections] at h
    | cons top outer =>
        have htaken : top.taken = false := by
          cases htaken : top.taken with
          | false => rfl
          | true => simp [value?_elif line hname hsections, htaken] at h
        simp [hsections, htaken, hlengths] at herrors

/-- A condition is evaluated unless the directive does the same whatever its condition is. -/
theorem value?_eq_none_iff (hcondition : (Directive.ofName name.text).HasCondition) :
    env.value? name line = none ↔ env.Ignores hash name := by
  constructor
  · exact ignores_of_value?_eq_none hash line hcondition
  · intro hignores
    cases hvalue : env.value? name line with
    | none => rfl
    | some value =>
        exact absurd hignores (not_ignores_of_value? hash line hcondition hvalue)

end Environment

end Essl
