import Essl.Proofs.Tree.Erasure
import Essl.Typing.Expr

/-!
# Typing expressions again

What is written into an expression by typing it makes no difference when it is typed again.
-/

namespace Essl

namespace Noted

variable {α β : Type}

@[simp] theorem value_map (f : α → β) (x : Noted α) : (f <$> x).value = f x.value := rfl

end Noted

namespace Expr

mutual

theorem check_erase (c : Context) : ∀ e : Expr, e.erase.check c = e.check c
  | .assignment _ left op right => by
      rw [erase, check, check, check_erase c left, check_erase c right]
  | .ternary _ condition question whenTrue colon whenFalse => by
      rw [erase, check, check, check_erase c condition, check_erase c whenTrue,
        check_erase c whenFalse]
  | .binary _ left op right => by
      rw [erase, check, check, check_erase c left, check_erase c right]
  | .unary _ op operand => by rw [erase, check, check, check_erase c operand]
  | .step _ operand op => by rw [erase, check, check, check_erase c operand]
  | .literal _ token => rfl
  | .group _ opening inner closing => by rw [erase, check, check, check_erase c inner]
  | .variable _ name => rfl
  | .call _ callee opening void arguments closing => by
      rw [erase, check, check, checkAll_eraseAll c arguments]
  | .arrayCall _ callee bracket size bracketEnd opening void arguments closing => by
      rw [erase, check, check, check_erase c size, checkAll_eraseAll c arguments]
  | .field _ operand dot selector => by rw [erase, check, check, check_erase c operand]
  | .index _ operand opening position closing => by
      rw [erase, check, check, check_erase c operand, check_erase c position]
  | .list _ exprs => by rw [erase, check, check, checkAll_eraseAll c exprs]

theorem checkAll_eraseAll (c : Context) :
    ∀ es : List Expr, checkAll c (eraseAll es) = checkAll c es
  | [] => rfl
  | e :: es => by
      rw [eraseAll, checkAll, checkAll, check_erase c e, checkAll_eraseAll c es]

end

mutual

theorem erase_check (c : Context) : ∀ e : Expr, (e.check c).value.erase = e.erase
  | .assignment _ left op right => by
      simp [erase, check, erase_check c left, erase_check c right]
  | .ternary _ condition question whenTrue colon whenFalse => by
      simp [erase, check, erase_check c condition, erase_check c whenTrue,
        erase_check c whenFalse]
  | .binary _ left op right => by
      simp [erase, check, erase_check c left, erase_check c right]
  | .unary _ op operand => by simp [erase, check, erase_check c operand]
  | .step _ operand op => by simp [erase, check, erase_check c operand]
  | .literal _ token => rfl
  | .group _ opening inner closing => by simp [erase, check, erase_check c inner]
  | .variable _ name => rfl
  | .call _ callee opening void arguments closing => by
      simp [erase, check, eraseAll_checkAll c arguments]
  | .arrayCall _ callee bracket size bracketEnd opening void arguments closing => by
      simp [erase, check, erase_check c size, eraseAll_checkAll c arguments]
  | .field _ operand dot selector => by simp [erase, check, erase_check c operand]
  | .index _ operand opening position closing => by
      simp [erase, check, erase_check c operand, erase_check c position]
  | .list _ exprs => by simp [erase, check, eraseAll_checkAll c exprs]

theorem eraseAll_checkAll (c : Context) :
    ∀ es : List Expr, eraseAll (checkAll c es).value = eraseAll es
  | [] => rfl
  | e :: es => by
      simp [eraseAll, checkAll, erase_check c e, eraseAll_checkAll c es]

end

end Expr

end Essl
