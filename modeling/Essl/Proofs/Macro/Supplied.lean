import Essl.Macro.Expansion

/-!
# What expansion does to its supply

Expansion takes tokens from its supply and reports errors to it, and does nothing else to it. So
it keeps whatever these two keep.
-/

namespace Essl

/-- Taking a token and reporting an error keep something about the state of a supply. -/
structure Supply.Preserves {σ : Type} (S : Supply σ) (Inv : σ → Prop) : Prop where
  next : ∀ {s}, Inv s → Inv (S.next s).2
  report : ∀ {s} (error : FrontError), Inv s → Inv (S.report error s)

namespace Queue

variable {σ : Type} {S : Supply σ} {Inv : σ → Prop} (hS : S.Preserves Inv) {q : Queue σ}

include hS

theorem pull_preserves (h : Inv q.later) : Inv (q.pull S).2.later := by
  unfold pull
  split
  · exact h
  · exact hS.next h

theorem untilClosing_preserves (depth : Nat) (h : Inv q.later) :
    Inv (q.untilClosing S depth).2.later := by
  fun_induction Queue.untilClosing S depth q with
  | case1 depth q q' hpull =>
      have hq' := pull_preserves hS h
      rwa [hpull] at hq'
  | case2 depth q c q' hpull hclosing =>
      have hq' := pull_preserves hS h
      rwa [hpull] at hq'
  | case3 depth q c q' hpull hclosing depth' found q'' hrest ih =>
      have hq' := pull_preserves hS h
      rw [hpull] at hq'
      have hq'' := ih hq'
      rwa [hrest] at hq''

theorem arguments_preserves (name : Token) (h : Inv q.later) :
    Inv (q.arguments S name).2.later := by
  have hclosed := untilClosing_preserves hS 0 h
  unfold arguments
  split <;> rename_i hrest <;> rw [hrest] at hclosed
  · exact hS.report _ hclosed
  · exact hclosed

theorem expandInvocation_preserves (m : MacroDef) (parameters : List String) (name : Candidate)
    (h : Inv q.later) : Inv (q.expandInvocation S m parameters name).2.later := by
  have hpulled := pull_preserves hS h
  unfold expandInvocation
  split <;> rename_i hpull <;> rw [hpull] at hpulled
  · exact hpulled
  · split
    · have hcollected := arguments_preserves hS name.token hpulled
      split <;> rename_i hrest <;> rw [hrest] at hcollected
      · exact hcollected
      · dsimp only
        split
        · exact hcollected
        · exact hS.report _ hcollected
    · exact hpulled

theorem expand_preserves (name : Candidate) (h : Inv q.later) :
    Inv (q.expand S name).2.later := by
  unfold expand
  split
  · exact h
  · split
    · exact h
    · split
      · exact h
      · split
        · exact h
        · exact expandInvocation_preserves hS _ _ name h

theorem settle_preserves (steps : Nat) (h : Inv q.later) : Inv (q.settle S steps).2.later := by
  induction steps generalizing q with
  | zero => exact h
  | succ steps ih =>
      have hpulled := pull_preserves hS h
      rw [settle]
      split <;> rename_i hpull <;> rw [hpull] at hpulled
      · exact hpulled
      · rename_i c q'
        split
        · have hexpanded := expand_preserves hS c hpulled
          split <;> rename_i hexpand <;> rw [hexpand] at hexpanded
          · exact ih hexpanded
          · exact hexpanded
        · exact hpulled

end Queue

end Essl
