import Essl.Proofs.Token.Delivered

/-!
# How preprocessed tokens move through the source

The tokens that come out of preprocessing are put at places that are joined from those of the tokens
of the source, and neither where they start nor where they stop goes back. Whatever is joined to the
place of a name stops where the name does or behind it, so that nothing that waits stops in front of
what came out before.
-/

namespace Essl

variable {code : Code} {start stop : Nat} {P : Location → Prop}

/-- Two things that are known of a queue are kept together. -/
theorem Supply.Tracks.and {σ : Type} {S : Supply σ} {Inv Inv' : Queue σ → Prop}
    {Old New Old' New' : Queue σ → Location → Prop} (h : S.Tracks Inv Old New)
    (h' : S.Tracks Inv' Old' New') :
    S.Tracks (fun q => Inv q ∧ Inv' q) (fun q l => Old q l ∧ Old' q l)
      fun q l => New q l ∧ New' q l where
  pull hq := ⟨⟨(h.pull hq.1).1, (h'.pull hq.2).1⟩,
    fun c hc => ⟨(h.pull hq.1).2 c hc, (h'.pull hq.2).2 c hc⟩⟩
  pull_old hq hl := ⟨h.pull_old hq.1 hl.1, h'.pull_old hq.2 hl.2⟩
  back hq hl c hc := ⟨h.back hq.1 hl.1 c hc, h'.back hq.2 hl.2 c hc⟩
  old hl := ⟨h.old hl.1, h'.old hl.2⟩
  join hq hl hm := ⟨h.join hq.1 hl.1 hm.1, h'.join hq.2 hl.2 hm.2⟩
  push hq hl hcs := ⟨h.push hq.1 hl.1 hcs, h'.push hq.2 hl.2 hcs⟩
  report name expected actual hq hl :=
    ⟨h.report name expected actual hq.1 hl.1, h'.report name expected actual hq.2 hl.2⟩
  unclosed name hq hl := ⟨h.unclosed name hq.1 hl.1, h'.unclosed name hq.2 hl.2⟩

/-! ## Places of what is left -/

theorem Feed.tokens_line (feed : Feed) :
    feed.line.tokens ++ feed.line.rest.tokens = feed.tokens := by
  rw [tokens_of_line, tokens_behind_line, List.takeWhile_append_dropWhile]

/-- What a reader leaves are tokens that it had, and the one that it reads is one of them. -/
theorem Reader.next_forall {P : Token → Prop} {r : Reader} (h : ∀ t ∈ r.feed.tokens, P t) :
    (∀ t ∈ r.next.1, P t) ∧ ∀ t ∈ r.next.2.feed.tokens, P t := by
  fun_induction Reader.next r with
  | case1 r env heq => exact ⟨by simp, by simp [Feed.tokens, Feed.empty]⟩
  | case2 r env delivery rest heq feed env' hstarts line env'' ih =>
      refine ih fun t ht => h t ?_
      have hline : t ∈ feed.tokens := by
        rw [← feed.tokens_line]
        exact List.mem_append_right _ ht
      rw [Feed.tokens, heq]
      exact List.mem_cons_of_mem _ hline
  | case3 r env delivery rest heq feed env' hstarts hactive =>
      rw [Feed.tokens, heq] at h
      obtain ⟨hfirst, hrest⟩ := List.forall_mem_cons.1 h
      refine ⟨?_, hrest⟩
      rintro _ ⟨⟩
      exact hfirst
  | case4 r env delivery rest heq feed env' hstarts hactive ih =>
      rw [Feed.tokens, heq] at h
      exact ih (List.forall_mem_cons.1 h).2

/-- All that is left to come out lies at places of some kind. -/
structure Queue.LeftAt (P : Location → Prop) (q : Queue Reader) : Prop where
  waiting : ∀ c ∈ q.waiting, P c.token.location
  feed : ∀ t ∈ q.later.feed.tokens, P t.location

theorem Queue.LeftAt.pull {q : Queue Reader} (h : q.LeftAt P) :
    (q.pull Reader.supply).2.LeftAt P ∧
      ∀ c ∈ (q.pull Reader.supply).1, P c.token.location := by
  obtain ⟨waiting, r⟩ := q
  cases waiting with
  | cons c cs =>
      obtain ⟨hc, hcs⟩ := List.forall_mem_cons.1 h.waiting
      refine ⟨⟨hcs, h.feed⟩, ?_⟩
      rintro _ ⟨⟩
      exact hc
  | nil =>
      obtain ⟨hread, hfeed⟩ := Reader.next_forall h.feed
      refine ⟨⟨List.forall_mem_nil _, hfeed⟩, ?_⟩
      intro c hc
      obtain ⟨t, ht, rfl⟩ := Option.map_eq_some_iff.1 hc
      exact hread t ht

/-- Expansion keeps to the places of a kind, if joining two of them does. -/
theorem Reader.supply_tracks_leftAt (hjoin : ∀ {l m : Location}, P l → P m → P (l.join m)) :
    Reader.supply.Tracks (Queue.LeftAt P) (fun _ l => P l) fun _ l => P l where
  pull h := h.pull
  pull_old _ hl := hl
  back _ hl _ _ := hl
  old hl := hl
  join _ hl hm := hjoin hl hm
  push h hl hcs := ⟨List.forall_mem_append.2 ⟨fun c hc => hcs c hc ▸ hl, h.waiting⟩, h.feed⟩
  report _ _ _ h _ := ⟨h.waiting, h.feed⟩
  unclosed _ h _ := ⟨h.waiting, h.feed⟩

/-- The place is joined from those of tokens of the text and does not stop in front of an offset. -/
structure Location.MadeBehind (code : Code) (stop : Nat) (l : Location) : Prop where
  joinedFrom : l.JoinedFrom code.scan.tokens
  stop : stop ≤ l.stop

theorem Location.MadeBehind.exactIn {l : Location} (h : l.MadeBehind code stop) :
    l.ExactIn code := h.joinedFrom.exactIn code.scan_located.tokens

theorem Location.MadeBehind.join {l m : Location} (hl : l.MadeBehind code stop)
    (hm : m.MadeBehind code stop) : (l.join m).MadeBehind code stop where
  joinedFrom := hl.joinedFrom.join hm.joinedFrom
  stop := by
    rw [Location.stop_join hl.exactIn.code hm.exactIn.code]
    exact hl.stop.trans (le_max_left _ _)

namespace Preprocessor

variable {p : Preprocessor}

/-- All that is left to come out starts and stops behind two offsets. -/
structure Behind (code : Code) (start stop : Nat) (p : Preprocessor) : Prop where
  ready : p.ready = []
  waits : p.queue.later.Waits code (fun _ => False) [] start p.queue.waiting
  left : p.queue.LeftAt (Location.MadeBehind code stop)

/-- Once a token came out, all that is left starts and stops behind it. -/
theorem Behind.next (h : p.Behind code start stop) :
    (p.next.1 = none → p.next.2.Behind code start stop) ∧
      ∀ t ∈ p.next.1, start ≤ t.location.start ∧ t.location.MadeBehind code stop ∧
        p.next.2.Behind code t.location.start t.location.stop := by
  have hleftAt : Reader.supply.Tracks (Queue.LeftAt (Location.MadeBehind code stop))
      (fun _ l => l.MadeBehind code stop) fun _ l => l.MadeBehind code stop :=
    Reader.supply_tracks_leftAt Location.MadeBehind.join
  obtain ⟨⟨hwaits, hleft⟩, htoken⟩ := Queue.settle_tracks (Reader.supply_tracks.and hleftAt)
    (p.queue.stepLimit Reader.supply) ⟨h.waits, h.left⟩
  have hnext : p.next = p.produce := by
    unfold Preprocessor.next
    rw [h.ready]
  rw [hnext, produce, Queue.next]
  split <;> rename_i hsettle <;> rw [hsettle] at hwaits hleft htoken
  · rename_i t q
    refine ⟨by simp, ?_⟩
    rintro _ ⟨⟩
    obtain ⟨hpassed, hmade⟩ := htoken t rfl
    refine ⟨hpassed.bound, hmade, h.ready, hwaits.behind hpassed, ?_, ?_⟩
    · exact fun c hc => ⟨(hleft.waiting c hc).joinedFrom, (hpassed.waiting c hc).2⟩
    · intro u hu
      have hu' := hleft.feed u hu
      exact ⟨hu'.joinedFrom, (hpassed.feed.tokens u hu).trans hu'.exactIn.exact.le⟩
  · exact ⟨fun _ => ⟨h.ready, hwaits, hleft⟩, by simp⟩
  · rename_i q
    refine ⟨fun _ => ⟨h.ready, ?_, List.forall_mem_nil _, by simp [Feed.tokens, Feed.empty]⟩,
      by simp⟩
    have hrecords := hwaits.records
    refine ⟨⟨List.nil_suffix, ⟨by simp [Feed.tokens, Feed.empty], by simp [Feed.errors, Feed.empty]⟩,
      List.Pairwise.nil, hrecords.sections, ?_⟩, Feed.after_empty⟩
    exact ⟨hrecords.recorded.exact, fun _ _ => False.elim, hrecords.recorded.ordered⟩

/-- The tokens that so many calls of `next` return. -/
def returned : Nat → Preprocessor → List Token
  | 0, _ => []
  | count + 1, p => p.next.1.toList ++ returned count p.next.2

/-- Along a run no token starts or stops in front of an earlier one. -/
theorem Behind.returned (count : Nat) (h : p.Behind code start stop) :
    (∀ t ∈ p.returned count, start ≤ t.location.start ∧ t.location.MadeBehind code stop) ∧
      (p.returned count).Pairwise fun t u =>
        t.location.start ≤ u.location.start ∧ t.location.stop ≤ u.location.stop := by
  induction count generalizing p start stop with
  | zero => exact ⟨by simp [Preprocessor.returned], List.Pairwise.nil⟩
  | succ count ih =>
      obtain ⟨hnone, hsome⟩ := h.next
      rw [Preprocessor.returned]
      cases hnext : p.next.1 with
      | none => exact ih (hnone hnext)
      | some t =>
          obtain ⟨hstart, hmade, hlater⟩ := hsome t hnext
          obtain ⟨hall, hpairs⟩ := ih hlater
          refine ⟨List.forall_mem_cons.2 ⟨⟨hstart, hmade⟩, fun u hu => ?_⟩,
            List.pairwise_cons.2 ⟨fun u hu => ?_, hpairs⟩⟩
          · obtain ⟨hu, hmadeBehind⟩ := hall u hu
            exact ⟨hstart.trans hu, hmadeBehind.joinedFrom, hmade.stop.trans hmadeBehind.stop⟩
          · exact ⟨(hall u hu).1, (hall u hu).2.stop⟩

/-- Every token that comes out of preprocessing lies in the source, whichever macros are defined; it
starts where a token of the source does and stops where one does; and along a run tokens neither
start nor stop in front of earlier ones. -/
theorem returned_moves (code : Code) (definitions : List (String × String)) (count : Nat) :
    let tokens := ((ofFeed code.scan).defineAll definitions).returned count
    (∀ t ∈ tokens, t.location.code = code ∧
        (∃ first ∈ code.scan.tokens, first.location.start = t.location.start) ∧
        ∃ last ∈ code.scan.tokens, last.location.stop = t.location.stop) ∧
      tokens.Pairwise fun t u =>
        t.location.start ≤ u.location.start ∧ t.location.stop ≤ u.location.stop := by
  have hown : ∀ e : FrontError, False → ∀ d ∈ definitions,
      e.location.code ≠ .ofString d.2 (.define d.1) := fun _ => False.elim
  obtain ⟨env, hdefined, hwaits⟩ := defineAll_waits code definitions hown
  have hstart : Behind code 0 0 ((ofFeed code.scan).defineAll definitions) := by
    rw [hdefined]
    exact ⟨rfl, hwaits, List.forall_mem_nil _, fun t ht => ⟨.token ht, Nat.zero_le _⟩⟩
  obtain ⟨hall, hpairs⟩ := hstart.returned count
  refine ⟨fun t ht => ?_, hpairs⟩
  have hmade := (hall t ht).2
  exact ⟨hmade.exactIn.code, hmade.joinedFrom.exists_start code.scan_located.tokens,
    hmade.joinedFrom.exists_stop code.scan_located.tokens⟩

end Preprocessor

end Essl
