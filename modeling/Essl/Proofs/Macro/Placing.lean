import Essl.Macro.Expansion
import Essl.Proofs.Token.Places

/-!
# Where expansion puts tokens

All tokens that come out of an invocation lie where it does, from its name to its closing
parenthesis. So whatever is known of the places of the tokens in a queue is kept by expansion, if
it is kept by pulling tokens, joining two places and pushing tokens to the place joined.
-/

namespace Essl

theorem location_of_mem_placeAt {name : Token} {location : Location} {cs : List Candidate}
    {c : Candidate} (hc : c ∈ placeAt name location cs) : c.token.location = location := by
  cases cs with
  | nil => cases hc
  | cons first rest =>
      rcases List.mem_cons.1 hc with rfl | hc
      · rfl
      · obtain ⟨d, -, rfl⟩ := List.mem_map.1 hc
        rfl

/-- What is known of queues and of the locations of tokens that were pulled from them. The location
of the token pulled last is `New`; it stays `Old` while more is pulled. -/
structure Supply.Tracks {σ : Type} (S : Supply σ) (Inv : Queue σ → Prop)
    (Old New : Queue σ → Location → Prop) : Prop where
  pull : ∀ {q}, Inv q →
    Inv (q.pull S).2 ∧ ∀ c ∈ (q.pull S).1, New (q.pull S).2 c.token.location
  pull_old : ∀ {q l}, Inv q → Old q l → Old (q.pull S).2 l
  /-- A token that was only looked at is put back. -/
  back : ∀ {q l}, Inv q → Old q l → ∀ c ∈ (q.pull S).1, Old ((q.pull S).2.push [c]) l
  old : ∀ {q l}, New q l → Old q l
  join : ∀ {q l m}, Inv q → Old q l → New q m → New q (l.join m)
  push : ∀ {q l cs}, Inv q → New q l → (∀ c ∈ cs, c.token.location = l) → Inv (q.push cs)
  report : ∀ {q l} (name : String) (expected actual : Nat), Inv q → New q l →
    Inv (q.report S (.argumentCount name expected actual) l)
  unclosed : ∀ {q l} (name : String), Inv q → Old q l →
    Inv (q.report S (.unclosedInvocation name) l)

namespace Queue

variable {σ : Type} {S : Supply σ} {Inv : Queue σ → Prop} {Old New : Queue σ → Location → Prop}
  (hS : S.Tracks Inv Old New) {q : Queue σ}

include hS

theorem untilClosing_tracks (depth : Nat) {l : Location} (h : Inv q) (hl : Old q l) :
    let closed := q.untilClosing S depth
    Inv closed.2 ∧ Old closed.2 l ∧ ∀ found ∈ closed.1, New closed.2 found.2.token.location := by
  fun_induction Queue.untilClosing S depth q with
  | case1 depth q q' hpull =>
      have hq' := (hS.pull h).1
      have hl' := hS.pull_old h hl
      rw [hpull] at hq' hl'
      exact ⟨hq', hl', by simp⟩
  | case2 depth q c q' hpull hclosing =>
      have hq' := hS.pull h
      have hl' := hS.pull_old h hl
      rw [hpull] at hq' hl'
      refine ⟨hq'.1, hl', ?_⟩
      rintro _ ⟨⟩
      exact hq'.2 c rfl
  | case3 depth q c q' hpull hclosing depth' found q'' hrest ih =>
      have hq' := (hS.pull h).1
      have hl' := hS.pull_old h hl
      rw [hpull] at hq' hl'
      obtain ⟨hq'', hl'', hfound⟩ := ih hq' hl'
      rw [hrest] at hq'' hl'' hfound
      refine ⟨hq'', hl'', ?_⟩
      intro more hmore
      obtain ⟨inside, hinside, rfl⟩ := Option.map_eq_some_iff.1 hmore
      exact hfound inside hinside

theorem arguments_tracks (name : Token) (h : Inv q) (hname : Old q name.location) :
    let collected := q.arguments S name
    Inv collected.2 ∧ ∀ found ∈ collected.1,
      Old collected.2 name.location ∧ New collected.2 found.2.token.location := by
  obtain ⟨hclosed, hkept, hfound⟩ := untilClosing_tracks hS 0 h hname
  unfold arguments
  split <;> rename_i hrest <;> rw [hrest] at hclosed hkept hfound
  · exact ⟨hS.unclosed _ hclosed hkept, by simp⟩
  · refine ⟨hclosed, ?_⟩
    rintro _ ⟨⟩
    exact ⟨hkept, hfound _ rfl⟩

/-- What an expansion puts in front can be put there, and a name that stays is still known of. -/
def Expanded (Inv : Queue σ → Prop) (Old : Queue σ → Location → Prop) (name : Candidate)
    (expansion : Option (List Candidate) × Queue σ) : Prop :=
  (∀ cs ∈ expansion.1, Inv (expansion.2.push cs)) ∧
    (expansion.1 = none → Inv expansion.2 ∧ Old expansion.2 name.token.location)

theorem expandInvocation_tracks (m : MacroDef) (parameters : List String) {name : Candidate}
    (h : Inv q) (hname : Old q name.token.location) :
    Expanded Inv Old name (q.expandInvocation S m parameters name) := by
  have hpulled := hS.pull h
  have hold := hS.pull_old h hname
  have hback := hS.back h hname
  unfold expandInvocation
  split <;> rename_i hpull <;> rw [hpull] at hpulled hold hback
  · exact ⟨by simp, fun _ => ⟨hpulled.1, hold⟩⟩
  · rename_i next q'
    split
    · obtain ⟨hcollected, hfound⟩ := arguments_tracks hS name.token hpulled.1 hold
      split <;> rename_i hrest <;> rw [hrest] at hcollected hfound
      · refine ⟨?_, by simp⟩
        rintro _ ⟨⟩
        exact hcollected
      · rename_i arguments closing q''
        obtain ⟨hkept, hclosing⟩ := hfound _ rfl
        have hjoined := hS.join hcollected hkept hclosing
        dsimp only
        split
        · refine ⟨?_, by simp⟩
          rintro _ ⟨⟩
          exact hS.push hcollected hjoined fun c hc => location_of_mem_placeAt hc
        · refine ⟨?_, by simp⟩
          rintro _ ⟨⟩
          exact hS.report _ _ _ hcollected hjoined
    · refine ⟨by simp, fun _ => ⟨?_, hback next rfl⟩⟩
      refine hS.push hpulled.1 (hpulled.2 next rfl) fun c hc => ?_
      rw [List.mem_singleton.1 hc]

theorem expand_tracks {name : Candidate} (h : Inv q) (hname : New q name.token.location) :
    Expanded Inv Old name (q.expand S name) := by
  have hstays : Expanded Inv Old name (none, q) := ⟨by simp, fun _ => ⟨h, hS.old hname⟩⟩
  have hreplaced : ∀ cs : List Candidate, (∀ c ∈ cs, c.token.location = name.token.location) →
      Expanded Inv Old name (some cs, q) := by
    intro cs hcs
    refine ⟨?_, by simp⟩
    rintro _ ⟨⟩
    exact hS.push h hname hcs
  unfold expand
  split
  · exact hstays
  · split
    · refine hreplaced _ fun c hc => ?_
      rw [List.mem_singleton.1 hc]
      rfl
    · split
      · exact hstays
      · split
        · exact hreplaced _ fun c hc => location_of_mem_placeAt hc
        · exact expandInvocation_tracks hS _ _ h (hS.old hname)

theorem settle_tracks (steps : Nat) (h : Inv q) :
    Inv (q.settle S steps).2 ∧
      ∀ t, (q.settle S steps).1 = .token t → Old (q.settle S steps).2 t.location := by
  induction steps generalizing q with
  | zero => exact ⟨h, by simp [settle]⟩
  | succ steps ih =>
      have hpulled := hS.pull h
      rw [settle]
      split <;> rename_i hpull <;> rw [hpull] at hpulled
      · exact ⟨hpulled.1, by simp⟩
      · rename_i c q'
        have hc := hpulled.2 c rfl
        split
        · have hexpanded := expand_tracks hS hpulled.1 hc
          split <;> rename_i hexpand <;> rw [hexpand] at hexpanded
          · exact ih (hexpanded.1 _ rfl)
          · refine ⟨(hexpanded.2 rfl).1, ?_⟩
            rintro _ ⟨⟩
            exact (hexpanded.2 rfl).2
        · refine ⟨hpulled.1, ?_⟩
          rintro _ ⟨⟩
          exact hS.old hc

end Queue

/-! ## Directive lines -/

/-- The error is about directives or macros, at a place that is made from those of tokens. -/
structure FrontError.MadeFrom (ts : List Token) (e : FrontError) : Prop where
  cause : ∃ c, e.cause = .directive c
  location : e.location.MadeFrom ts

/-- All that is left of a line and all that was reported lies where tokens of the line do. -/
structure LineOf (line : List Token) (q : Queue (MacroTable × List FrontError)) : Prop where
  waiting : ∀ c ∈ q.waiting, c.token.location.JoinedFrom line
  errors : ∀ e ∈ q.later.2, e.MadeFrom line

theorem lineSupply_tracks (line : List Token) :
    lineSupply.Tracks (LineOf line) (fun _ l => l.JoinedFrom line)
      fun _ l => l.JoinedFrom line where
  pull {q} h := by
    unfold Queue.pull
    split
    · rename_i c rest heq
      have hwaiting := h.waiting
      rw [heq, List.forall_mem_cons] at hwaiting
      refine ⟨⟨hwaiting.2, h.errors⟩, ?_⟩
      rintro _ ⟨⟩
      exact hwaiting.1
    · exact ⟨⟨by simp, h.errors⟩, by simp [lineSupply]⟩
  pull_old _ h := h
  back _ h _ _ := h
  old h := h
  join _ hl hm := hl.join hm
  push h hl hcs :=
    ⟨List.forall_mem_append.2 ⟨fun c hc => hcs c hc ▸ hl, h.waiting⟩, h.errors⟩
  report _ _ _ h hl :=
    ⟨h.waiting, List.forall_mem_append.2
      ⟨h.errors, List.forall_mem_singleton.2 ⟨⟨_, rfl⟩, .inl hl⟩⟩⟩
  unclosed _ h hl :=
    ⟨h.waiting, List.forall_mem_append.2
      ⟨h.errors, List.forall_mem_singleton.2 ⟨⟨_, rfl⟩, .inl hl⟩⟩⟩

theorem takeTokens_lineOf {line : List Token} (count : Nat)
    {q : Queue (MacroTable × List FrontError)} (h : LineOf line q) :
    (∀ t ∈ (q.takeTokens lineSupply count).1, t.location.JoinedFrom line) ∧
      LineOf line (q.takeTokens lineSupply count).2 := by
  induction count generalizing q with
  | zero => exact ⟨by simp [Queue.takeTokens], h⟩
  | succ count ih =>
      obtain ⟨hq, ht⟩ := Queue.settle_tracks (lineSupply_tracks line) (q.stepLimit lineSupply) h
      rw [Queue.takeTokens]
      split
      · rename_i t q' hnext
        rw [Queue.next] at hnext
        rw [hnext] at hq ht
        obtain ⟨hts, hq'⟩ := ih hq
        exact ⟨List.forall_mem_cons.2 ⟨ht t rfl, hts⟩, hq'⟩
      · rename_i q' _ hnext
        rw [Queue.next] at hnext
        rw [hnext] at hq
        exact ⟨by simp, hq⟩

/-- The tokens of a line that is expanded, and the errors found in it, lie where its tokens do. -/
theorem expandLine_madeFrom (table : MacroTable) {line ts : List Token}
    (h : ∀ t ∈ ts, t.location.JoinedFrom line) :
    (∀ t ∈ (expandLine table ts).1, t.location.JoinedFrom line) ∧
      ∀ e ∈ (expandLine table ts).2, e.MadeFrom line := by
  have hstart : LineOf line ⟨ts.map Candidate.ofToken, (table, [])⟩ :=
    ⟨List.forall_mem_map.2 h, by simp⟩
  obtain ⟨hts, hq⟩ := takeTokens_lineOf _ hstart
  exact ⟨hts, hq.errors⟩

end Essl
