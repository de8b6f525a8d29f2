import Essl.Typing.Context

/-!
# What typing ensures

Typing goes on after a problem, and leaves parts of the tree without a type. So most of what can be
said holds only if no problem was noted. The judgements here have a proposition `clean` for that:
with `True` for it they are about typing that notes no problem, with `False` about any. Where a
problem is noted, it is known that `clean` does not hold.
-/

namespace Essl

variable {α β : Type} {clean : Prop}

/-! ## Values with problems -/

/-- The value has a property, provided that there are no problems if `clean` holds. -/
def Noted.Ensures (clean : Prop) (x : Noted α) (P : α → Prop) : Prop :=
  (clean → x.problems = []) → P x.value

namespace Noted.Ensures

variable {P : α → Prop} {Q : β → Prop} {x : Noted α} {f : α → Noted β}

theorem pure {a : α} (h : P a) : Ensures clean (pure a) P := fun _ => h

theorem bind (hx : x.Ensures clean P) (hf : ∀ a, P a → (f a).Ensures clean Q) :
    (x >>= f).Ensures clean Q := by
  intro h
  apply hf
  · apply hx
    intro hclean
    exact (List.append_eq_nil_iff.1 (h hclean)).1
  · intro hclean
    exact (List.append_eq_nil_iff.1 (h hclean)).2

theorem mono {R : α → Prop} (hx : x.Ensures clean P) (h : ∀ a, P a → R a) : x.Ensures clean R :=
  fun hproblems => h _ (hx hproblems)

theorem trivial : x.Ensures clean fun _ => True := fun _ => True.intro

/-- Of the first value nothing is known. -/
theorem andThen (hf : ∀ a, (f a).Ensures clean Q) : (x >>= f).Ensures clean Q :=
  bind trivial fun a _ => hf a

theorem report (cause : SemanticCause) (location : Location) :
    (report cause location).Ensures clean fun _ => ¬ clean := by
  intro h hclean
  cases h hclean

theorem report_imp (cause : SemanticCause) (location : Location) {p : Prop} :
    (Essl.report cause location).Ensures clean fun _ => clean → p :=
  (report cause location).mono fun _ hnot hclean => absurd hclean hnot

/-- What is given after a problem matters only where `clean` does not hold. -/
theorem reported {cause : SemanticCause} {location : Location} {a : α} (h : ¬ clean → P a) :
    Ensures clean (do Essl.report cause location; Pure.pure a) P :=
  (report cause location).bind fun _ hclean => pure (h hclean)

end Noted.Ensures

/-! ## Actions -/

/-- In a context with some invariant the action keeps it and gives something with a property,
provided that it notes no problem if `clean` holds. -/
def Keeps (clean : Prop) (I : Context → Prop) (x : Check α) (P : α → Prop) : Prop :=
  ∀ c, I c → (clean → (x c).problems = []) → P (x c).value.1 ∧ I (x c).value.2

namespace Keeps

variable {I J : Context → Prop} {P : α → Prop} {Q : β → Prop} {x : Check α} {f : α → Check β}

theorem pure {a : α} (h : P a) : Keeps clean I (pure a) P := fun _ hI _ => ⟨h, hI⟩

theorem bind (hx : Keeps clean I x P) (hf : ∀ a, P a → Keeps clean I (f a) Q) :
    Keeps clean I (x >>= f) Q := by
  intro c hI h
  have hfirst : clean → (x c).problems = [] :=
    fun hclean => (List.append_eq_nil_iff.1 (h hclean)).1
  obtain ⟨ha, hI'⟩ := hx c hI hfirst
  exact hf _ ha _ hI' fun hclean => (List.append_eq_nil_iff.1 (h hclean)).2

theorem lift {x : Noted α} (hx : x.Ensures clean P) : Keeps clean I (liftM x : Check α) P := by
  intro c hI h
  refine ⟨hx ?_, hI⟩
  intro hclean
  exact (List.append_eq_nil_iff.1 (h hclean)).1

/-- An action before another one, if there is a reason for it. -/
theorem first_if {p : Prop} [Decidable p] {x : Check Unit} {f : Unit → Check β}
    (hx : Keeps clean I x fun _ => True) (hf : ∀ u, Keeps clean I (f u) Q) :
    Keeps clean I (if p then x >>= f else f ()) Q := by
  split
  · exact hx.bind fun u _ => hf u
  · exact hf ()

/-- The context that is looked at has the invariant. -/
theorem get_bind {f : Context → Check β} (hf : ∀ c, I c → Keeps clean I (f c) Q) :
    Keeps clean I (get >>= f) Q :=
  fun c hI h => hf c hI c hI h

theorem put {c : Context} (hc : I c) : Keeps clean I (set c : Check Unit) fun _ => True :=
  fun _ _ _ => ⟨trivial, hc⟩

theorem change {g : Context → Context} (hg : ∀ c, I c → I (g c)) :
    Keeps clean I (modify g : Check Unit) fun _ => True :=
  fun c hI _ => ⟨trivial, hg c hI⟩

/-- Between two changes of the context another invariant holds. -/
theorem between {enter leave : Context → Context} (henter : ∀ c, I c → J (enter c))
    (hx : Keeps clean J x P) (hleave : ∀ c, J c → I (leave c)) :
    Keeps clean I (do modify enter; let a ← x; modify leave; Pure.pure a) P := by
  intro c hI h
  have hproblems : clean → (x (enter c)).problems = [] := by
    intro hclean
    have hall : (x (enter c)).problems ++ [] = [] := h hclean
    exact (List.append_eq_nil_iff.1 hall).1
  obtain ⟨ha, hJ⟩ := hx (enter c) (henter c hI) hproblems
  exact ⟨ha, hleave _ hJ⟩

end Keeps

end Essl
