import Essl.Macro.Expansion

/-!
# Expansion over a changed supply

Expansion sees of its supply no more than the tokens, the macros and how much is left. A change of
the supply that keeps these can be made before or after any step of expansion.
-/

namespace Essl

/-- A change of the state of a supply that shows in nothing expansion looks at. -/
structure Supply.Commutes {σ : Type} (S : Supply σ) (f : σ → σ) : Prop where
  next : ∀ s, S.next (f s) = ((S.next s).1, f (S.next s).2)
  macros : ∀ s, S.macros (f s) = S.macros s
  report : ∀ error s, S.report error (f s) = f (S.report error s)
  size : ∀ s, S.size (f s) = S.size s

namespace Queue

variable {σ : Type} {S : Supply σ} {f : σ → σ}

/-- The same tokens in front of a changed supply. -/
def mapLater (f : σ → σ) (q : Queue σ) : Queue σ := ⟨q.waiting, f q.later⟩

@[simp] theorem waiting_mapLater (q : Queue σ) : (q.mapLater f).waiting = q.waiting := rfl

@[simp] theorem later_mapLater (q : Queue σ) : (q.mapLater f).later = f q.later := rfl

@[simp] theorem push_mapLater (cs : List Candidate) (q : Queue σ) :
    (q.mapLater f).push cs = (q.push cs).mapLater f := rfl

theorem mapLater_injective (hf : Function.Injective f) : Function.Injective (mapLater f) := by
  rintro ⟨waiting, later⟩ ⟨waiting', later'⟩ h
  obtain ⟨hwaiting, hlater⟩ := Queue.mk.inj h
  simp only [Queue.mk.injEq]
  exact ⟨hwaiting, hf hlater⟩

variable (hS : S.Commutes f)

include hS

theorem report_mapLater (cause : DirectiveCause) (location : Location) (q : Queue σ) :
    (q.mapLater f).report S cause location = (q.report S cause location).mapLater f := by
  simp [report, mapLater, hS.report]

theorem pull_mapLater (q : Queue σ) :
    (q.mapLater f).pull S = ((q.pull S).1, (q.pull S).2.mapLater f) := by
  obtain ⟨waiting, later⟩ := q
  cases waiting with
  | nil => simp [pull, mapLater, hS.next]
  | cons c rest => rfl

theorem untilClosing_mapLater (depth : Nat) (q : Queue σ) :
    (q.mapLater f).untilClosing S depth =
      ((q.untilClosing S depth).1, (q.untilClosing S depth).2.mapLater f) := by
  fun_induction Queue.untilClosing S depth q with
  | case1 depth q q' hpull =>
      have hmapped := pull_mapLater hS q
      rw [hpull] at hmapped
      rw [untilClosing, hmapped]
  | case2 depth q c q' hpull hclosing =>
      have hmapped := pull_mapLater hS q
      rw [hpull] at hmapped
      rw [untilClosing, hmapped]
      simp [hclosing]
  | case3 depth q c q' hpull hclosing depth' found q'' hrest ih =>
      have hmapped := pull_mapLater hS q
      rw [hpull] at hmapped
      rw [hrest] at ih
      rw [untilClosing, hmapped]
      simp only [depth', dite_eq_ite] at ih
      simp [hclosing, ih]

theorem arguments_mapLater (name : Token) (q : Queue σ) :
    (q.mapLater f).arguments S name =
      ((q.arguments S name).1, (q.arguments S name).2.mapLater f) := by
  unfold arguments
  rw [untilClosing_mapLater hS]
  rcases q.untilClosing S 0 with ⟨_ | ⟨inside, closing⟩, q'⟩
  · simp [report_mapLater hS]
  · rfl

theorem expandInvocation_mapLater (m : MacroDef) (parameters : List String) (name : Candidate)
    (q : Queue σ) :
    (q.mapLater f).expandInvocation S m parameters name =
      ((q.expandInvocation S m parameters name).1,
        (q.expandInvocation S m parameters name).2.mapLater f) := by
  unfold expandInvocation
  rw [pull_mapLater hS]
  rcases q.pull S with ⟨_ | next, q'⟩
  · rfl
  · dsimp only
    split
    · rw [arguments_mapLater hS]
      rcases q'.arguments S name.token with ⟨_ | ⟨arguments, closing⟩, q''⟩
      · rfl
      · dsimp only
        split <;> simp [report_mapLater hS]
    · rfl

theorem expand_mapLater (name : Candidate) (q : Queue σ) :
    (q.mapLater f).expand S name = ((q.expand S name).1, (q.expand S name).2.mapLater f) := by
  unfold expand
  rw [later_mapLater, hS.macros]
  split
  · rfl
  · split
    · rfl
    · split
      · rfl
      · split
        · rfl
        · exact expandInvocation_mapLater hS _ _ name q

theorem settle_mapLater (steps : Nat) (q : Queue σ) :
    (q.mapLater f).settle S steps = ((q.settle S steps).1, (q.settle S steps).2.mapLater f) := by
  induction steps generalizing q with
  | zero => rfl
  | succ steps ih =>
      rw [settle, settle, pull_mapLater hS]
      rcases q.pull S with ⟨_ | c, q'⟩
      · rfl
      · dsimp only
        split
        · rw [expand_mapLater hS]
          rcases q'.expand S c with ⟨_ | cs, q''⟩
          · rfl
          · simp [ih]
        · rfl

theorem stepLimit_mapLater (q : Queue σ) : (q.mapLater f).stepLimit S = q.stepLimit S := by
  simp [stepLimit, size, hS.macros, hS.size]

theorem next_mapLater (q : Queue σ) :
    (q.mapLater f).next S = ((q.next S).1, (q.next S).2.mapLater f) := by
  rw [next, stepLimit_mapLater hS, settle_mapLater hS, next]

end Queue

end Essl
