import Essl.Directive.Reader
import Essl.Proofs.Macro.Mapped

/-!
# Errors are only added

Nothing that directives or expansion do depends on the errors found so far: they are handed on
with the new ones behind them. So errors can be taken at any time without any other effect.
-/

namespace Essl

namespace Environment

/-- The environment with errors that were found earlier. -/
def after (earlier : List FrontError) (env : Environment) : Environment :=
  { env with errors := earlier ++ env.errors }

variable (earlier : List FrontError) (env : Environment) (directive : Token) (line : List Token)

@[simp] theorem macros_after : (env.after earlier).macros = env.macros := rfl

@[simp] theorem sections_after : (env.after earlier).sections = env.sections := rfl

@[simp] theorem errors_after : (env.after earlier).errors = earlier ++ env.errors := rfl

@[simp] theorem isActive_after : (env.after earlier).isActive = env.isActive := rfl

@[simp] theorem isDefined_after : (env.after earlier).isDefined = env.isDefined := rfl

theorem note_after (errors : List FrontError) :
    { env.after earlier with errors := (env.after earlier).errors ++ errors } =
      { env with errors := env.errors ++ errors }.after earlier := by
  simp [after]

@[simp] theorem report_after (cause : DirectiveCause) (location : Location) :
    (env.after earlier).report cause location = (env.report cause location).after earlier := by
  simp [report, after]

@[simp] theorem openSection_after (active value : Bool) (location : Location) :
    (env.after earlier).openSection active value location =
      (env.openSection active value location).after earlier := rfl

@[simp] theorem condition_after :
    (env.after earlier).condition directive line =
      ((env.condition directive line).1, (env.condition directive line).2.after earlier) := by
  unfold condition
  rw [isDefined_after]
  cases resolveDefined (fun name => env.isDefined name || name == "__LINE__") line with
  | ok resolved =>
      dsimp only
      rw [note_after, macros_after]
      split <;> simp
  | error location =>
      dsimp only
      rw [report_after, note_after, macros_after]
      split <;> simp

@[simp] theorem macroName_after :
    (env.after earlier).macroName directive line =
      ((env.macroName directive line).1, (env.macroName directive line).2.after earlier) := by
  unfold macroName
  split
  · simp
  · split <;> simp

theorem elif_after :
    (env.after earlier).elif directive line = (env.elif directive line).after earlier := by
  unfold elif
  rw [sections_after]
  split
  · simp
  · rename_i top outer _
    dsimp only
    split <;> split <;> simp <;> rfl

theorem otherwise_after :
    (env.after earlier).otherwise directive = (env.otherwise directive).after earlier := by
  unfold otherwise
  rw [sections_after]
  split
  · simp
  · split
    · rw [← report_after]
      rfl
    · rfl

theorem endif_after :
    (env.after earlier).endif directive = (env.endif directive).after earlier := by
  unfold endif
  rw [sections_after]
  split
  · simp
  · rfl

theorem define_after :
    (env.after earlier).define directive line = (env.define directive line).after earlier := by
  unfold define
  rw [macroName_after]
  rcases env.macroName directive line with ⟨_ | name, env'⟩
  · rfl
  · dsimp only
    split
    · simp
    · split
      · rfl
      · split
        · split
          · rfl
          · simp
        · rfl

theorem undef_after :
    (env.after earlier).undef directive line = (env.undef directive line).after earlier := by
  unfold undef
  rw [macroName_after]
  rcases env.macroName directive line with ⟨_ | name, env'⟩
  · rfl
  · dsimp only
    split
    · simp
    · rfl

theorem userError_after :
    (env.after earlier).userError directive line = (env.userError directive line).after earlier :=
  report_after ..

theorem directive_after (hash : Token) :
    (env.after earlier).directive hash line = (env.directive hash line).after earlier := by
  unfold Environment.directive
  rcases line with _ | ⟨name, line⟩
  · rfl
  · dsimp only
    rw [isActive_after]
    split
    · split <;> simp
    · split
      · rw [macroName_after]
        rcases env.macroName name line with ⟨_ | operand, env'⟩ <;> rfl
      · rfl
    · exact elif_after ..
    · exact otherwise_after ..
    · exact endif_after ..
    · split
      · split
        · exact define_after ..
        · exact undef_after ..
        · exact userError_after ..
        · simp
        · rfl
      · rfl

end Environment

namespace Reader

/-- The reader with errors that were found earlier. -/
def after (earlier : List FrontError) (r : Reader) : Reader := ⟨r.feed, r.env.after earlier⟩

variable (earlier : List FrontError)

@[simp] theorem errors_after (r : Reader) :
    (r.after earlier).env.errors = earlier ++ r.env.errors := rfl

theorem after_injective : Function.Injective (after earlier) := by
  rintro ⟨feed, macros, sections, errors⟩ ⟨feed', macros', sections', errors'⟩ h
  simpa [after, Environment.after] using h

theorem finish_after (env : Environment) :
    finish (env.after earlier) = (finish env).after earlier := by
  simp [finish, Environment.after]

theorem next_nil (trailing : List FrontError) (env : Environment) :
    Reader.next ⟨⟨[], trailing⟩, env⟩ =
      (none, ⟨.empty, finish { env with errors := env.errors ++ trailing }⟩) := by
  rw [Reader.next]

theorem next_cons (delivery : Delivery) (rest : List Delivery) (trailing : List FrontError)
    (env : Environment) :
    Reader.next ⟨⟨delivery :: rest, trailing⟩, env⟩ =
      let env := { env with errors := env.errors ++ delivery.errors }
      let line := Feed.line ⟨rest, trailing⟩
      if startsDirective delivery.token then
        Reader.next ⟨line.rest, { env with errors := env.errors ++ line.errors }.directive
          delivery.token line.tokens⟩
      else if env.isActive then (some delivery.token, ⟨⟨rest, trailing⟩, env⟩)
      else Reader.next ⟨⟨rest, trailing⟩, env⟩ := by
  rw [Reader.next]

theorem next_after (r : Reader) :
    (r.after earlier).next = (r.next.1, r.next.2.after earlier) := by
  fun_induction Reader.next r with
  | case1 r env heq =>
      obtain ⟨⟨_, trailing⟩, env⟩ := r
      obtain rfl := heq
      rw [after, next_nil, Environment.note_after, finish_after]
      rfl
  | case2 r env delivery rest heq feed env' hstarts line env'' ih =>
      obtain ⟨⟨_, trailing⟩, env⟩ := r
      obtain rfl := heq
      rw [after, next_cons, if_pos hstarts, Environment.note_after, Environment.note_after,
        Environment.directive_after]
      exact ih
  | case3 r env delivery rest heq feed env' hstarts hactive =>
      obtain ⟨⟨_, trailing⟩, env⟩ := r
      obtain rfl := heq
      rw [after, next_cons, if_neg hstarts, Environment.note_after]
      exact if_pos hactive
  | case4 r env delivery rest heq feed env' hstarts hactive ih =>
      obtain ⟨⟨_, trailing⟩, env⟩ := r
      obtain rfl := heq
      rw [after, next_cons, if_neg hstarts, Environment.note_after]
      exact (if_neg hactive).trans ih

/-- At its end a reader stays as it is. -/
theorem next_finished {r last : Reader} (h : r.next = (none, last)) :
    last.next = (none, last) := by
  fun_induction Reader.next r with
  | case1 r env heq =>
      obtain ⟨-, rfl⟩ := Prod.mk.inj h
      rw [Feed.empty, next_nil]
      simp [finish, Feed.empty]
  | case2 r env delivery rest heq feed env' hstarts line env'' ih => exact ih h
  | case3 => simp at h
  | case4 r env delivery rest heq feed env' hstarts hactive ih => exact ih h

theorem supply_commutes : supply.Commutes (after earlier) where
  next := next_after earlier
  macros _ := rfl
  report error r := by simp [supply, after, Environment.after]
  size _ := rfl

end Reader

end Essl
