import Essl.Preprocessor
import Essl.Proofs.Directive.Recording

/-!
# What preprocessing delivers

Tokens come out of preprocessing in the order of the text, at locations that cover whole
characters of it, and so do errors, as far as they are in order.

The tokens that wait for expansion are in order and behind all that was delivered, the feed is
behind them, and what was recorded does not start behind any of them.
-/

namespace Essl

section

variable (code : Code) (own : FrontError → Prop) (earlier : List FrontError) (bound : Nat)

/-- A location, behind a bound, that nothing left in a queue is in front of. -/
structure Queue.Passed (q : Queue Reader) (l : Location) : Prop where
  exactIn : l.ExactIn code
  bound : bound ≤ l.start
  waiting : ∀ c ∈ q.waiting,
    l.start ≤ c.token.location.start ∧ l.stop ≤ c.token.location.stop
  feed : q.later.feed.After l.stop

/-- Moreover, nothing that was recorded starts behind the location. -/
structure Queue.Reached (q : Queue Reader) (l : Location) : Prop extends q.Passed code bound l where
  recorded : ∀ e ∈ earlier ++ q.later.env.errors, own e → e.location.start ≤ l.stop

/-- Tokens that wait in front of a reader come in order. -/
def Reader.Waits (r : Reader) : List Candidate → Prop
  | [] => r.Records code own earlier ∧ r.feed.After bound
  | c :: cs => Queue.Reached code own earlier bound ⟨cs, r⟩ c.token.location ∧ r.Waits cs

end

variable {code : Code} {own : FrontError → Prop} {earlier : List FrontError} {bound : Nat}

namespace Reader.Waits

variable {r : Reader} {cs ds : List Candidate}

theorem records (h : r.Waits code own earlier bound cs) : r.Records code own earlier := by
  induction cs with
  | nil => exact h.1
  | cons c cs ih => exact ih h.2

/-- Something is recorded in front of what waits. -/
theorem report (h : r.Waits code own earlier bound cs) {f : FrontError} (hexact : f.location.Exact)
    (hahead : r.feed.After f.location.start)
    (hprecedes : ∀ e ∈ earlier ++ r.env.errors, own e → e.Precedes code f)
    (hwaiting : ∀ c ∈ cs, f.location.start ≤ c.token.location.stop) :
    (Reader.supply.report f r).Waits code own earlier bound cs := by
  induction cs with
  | nil =>
      refine ⟨⟨h.1.suffix, h.1.located, h.1.inOrder, h.1.sections, ?_⟩, h.2⟩
      dsimp only [Reader.supply]
      rw [← List.append_assoc]
      refine h.1.recorded.add (fun _ hoffset => hoffset) ?_ ?_ ?_ (List.pairwise_singleton _ _)
      · exact List.forall_mem_singleton.2 hexact
      · exact List.forall_mem_singleton.2 hahead
      · exact fun e he hown => List.forall_mem_singleton.2 (hprecedes e he hown)
  | cons c cs ih =>
      obtain ⟨hc, hcs⟩ := List.forall_mem_cons.1 hwaiting
      refine ⟨⟨⟨h.1.exactIn, h.1.bound, h.1.waiting, h.1.feed⟩, ?_⟩, ih h.2 hcs⟩
      dsimp only [Reader.supply]
      rw [← List.append_assoc]
      refine List.forall_mem_append.2 ⟨h.1.recorded, List.forall_mem_singleton.2 fun _ => hc⟩

/-- Tokens are put in front, all at one place that was reached. -/
theorem push {l : Location} (h : r.Waits code own earlier bound ds)
    (hl : Queue.Reached code own earlier bound ⟨ds, r⟩ l)
    (hcs : ∀ c ∈ cs, c.token.location = l) : r.Waits code own earlier bound (cs ++ ds) := by
  induction cs with
  | nil => exact h
  | cons c cs ih =>
      obtain ⟨hc, hcs⟩ := List.forall_mem_cons.1 hcs
      refine ⟨⟨⟨hc ▸ hl.exactIn, hc ▸ hl.bound, ?_, hc ▸ hl.feed⟩, hc ▸ hl.recorded⟩, ih hcs⟩
      rw [hc]
      refine List.forall_mem_append.2 ⟨fun d hd => ?_, hl.waiting⟩
      rw [hcs d hd]
      exact ⟨Nat.le_refl _, Nat.le_refl _⟩

/-- What waits is behind every location that was passed. -/
theorem behind {l : Location} (h : r.Waits code own earlier bound cs)
    (hl : Queue.Passed code bound ⟨cs, r⟩ l) : r.Waits code own earlier l.start cs := by
  induction cs with
  | nil => exact ⟨h.1, hl.feed.mono hl.exactIn.exact.le⟩
  | cons c cs ih =>
      obtain ⟨hc, hcs⟩ := List.forall_mem_cons.1 hl.waiting
      exact ⟨⟨⟨h.1.exactIn, hc.1, h.1.waiting, h.1.feed⟩, h.1.recorded⟩,
        ih h.2 ⟨hl.exactIn, hl.bound, hcs, hl.feed⟩⟩

/-- Errors that are taken are those found earlier from then on. -/
theorem takeErrors (h : r.Waits code own earlier bound cs) :
    Reader.Waits code own (earlier ++ r.env.errors) bound
      ⟨r.feed, { r.env with errors := [] }⟩ cs := by
  induction cs with
  | nil =>
      refine ⟨⟨h.1.suffix, h.1.located, h.1.inOrder, h.1.sections, ?_⟩, h.2⟩
      rw [List.append_nil]
      exact h.1.recorded
  | cons c cs ih =>
      refine ⟨⟨⟨h.1.exactIn, h.1.bound, h.1.waiting, h.1.feed⟩, ?_⟩, ih h.2⟩
      rw [List.append_nil]
      exact h.1.recorded

end Reader.Waits

theorem Queue.Passed.join {q : Queue Reader} {l m : Location} (hl : q.Passed code bound l)
    (hm : q.Reached code own earlier bound m) : q.Reached code own earlier bound (l.join m) := by
  have hstart := Location.start_join hl.exactIn.code hm.exactIn.code
  have hstop := Location.stop_join hl.exactIn.code hm.exactIn.code
  refine ⟨⟨hl.exactIn.join hm.exactIn, ?_, fun c hc => ?_, ?_⟩, fun e he hown => ?_⟩
  · rw [hstart]
    exact le_min hl.bound hm.bound
  · rw [hstart, hstop]
    have hlc := hl.waiting c hc
    have hmc := hm.waiting c hc
    omega
  · rw [hstop]
    rcases max_choice l.stop m.stop with h | h <;> rw [h]
    · exact hl.feed
    · exact hm.feed
  · rw [hstop]
    exact (hm.recorded e he hown).trans (le_max_right _ _)

theorem Reader.supply_tracks : Reader.supply.Tracks
    (fun q => q.later.Waits code own earlier bound q.waiting) (Queue.Passed code bound)
    (Queue.Reached code own earlier bound) where
  pull {q} h := by
    obtain ⟨waiting, r⟩ := q
    cases waiting with
    | cons c cs =>
        refine ⟨h.2, ?_⟩
        rintro _ ⟨⟩
        exact h.1
    | nil =>
        obtain ⟨hrecords, hbound⟩ := h
        have hnext := next_advances hrecords
        refine ⟨⟨hnext.records, hnext.after _ hbound⟩, ?_⟩
        intro c hc
        obtain ⟨t, ht, rfl⟩ := Option.map_eq_some_iff.1 hc
        exact ⟨⟨hnext.located t ht, hnext.behind t ht _ hbound, List.forall_mem_nil _,
          hnext.ahead t ht⟩,
          hnext.recorded t ht⟩
  pull_old {q l} h hl := by
    obtain ⟨waiting, r⟩ := q
    cases waiting with
    | cons c cs => exact ⟨hl.exactIn, hl.bound, (List.forall_mem_cons.1 hl.waiting).2, hl.feed⟩
    | nil =>
        exact ⟨hl.exactIn, hl.bound, List.forall_mem_nil _,
          (next_advances h.records).after _ hl.feed⟩
  back {q l} h hl := by
    obtain ⟨waiting, r⟩ := q
    cases waiting with
    | cons c cs =>
        rintro _ ⟨⟩
        exact hl
    | nil =>
        have hnext := next_advances h.records
        intro c hc
        obtain ⟨t, ht, rfl⟩ := Option.map_eq_some_iff.1 hc
        have hstop := hnext.behind t ht _ hl.feed
        refine ⟨hl.exactIn, hl.bound, List.forall_mem_singleton.2 ⟨?_, ?_⟩, hnext.after _ hl.feed⟩
        · exact hl.exactIn.exact.le.trans hstop
        · exact hstop.trans (hnext.located t ht).exact.le
  old h := h.toPassed
  join _ hl hm := hl.join hm
  push h hl hcs := h.push hl hcs
  report name expected actual h hl := by
    refine h.report hl.exactIn.exact (hl.feed.mono hl.exactIn.exact.le) (fun e he hown => ?_)
      fun c hc => hl.exactIn.exact.le.trans (hl.waiting c hc).2
    exact FrontError.precedes_of_directive rfl fun _ _ t _ _ hle =>
      (hl.recorded e he hown).trans hle
  unclosed name h hl := by
    refine h.report hl.exactIn.exact (hl.feed.mono hl.exactIn.exact.le) (fun e he hown => ?_)
      fun c hc => hl.exactIn.exact.le.trans (hl.waiting c hc).2
    exact FrontError.precedes_of_directive rfl fun _ hne => absurd rfl (hne name)

/-! ## Feeds -/

section

variable (code : Code) (own : FrontError → Prop) (earlier : List FrontError) (bound : Nat)

/-- Tokens and errors are delivered in order, at exact locations, behind a bound. -/
structure Feed.Delivered (feed : Feed) : Prop where
  located : ∀ t ∈ feed.tokens, t.location.ExactIn code
  bound : ∀ t ∈ feed.tokens, bound ≤ t.location.start
  inOrder : feed.tokens.Pairwise (·.location.start ≤ ·.location.start)
  exact : ∀ e ∈ earlier ++ feed.errors, e.location.Exact
  ordered : (earlier ++ feed.errors).Pairwise fun e f => own e → own f → e.Precedes code f

end

/-- A token is delivered with the errors that were recorded. -/
theorem Feed.Delivered.cons {d : Delivery} {later : Feed} (ht : d.token.location.ExactIn code)
    (hbound : bound ≤ d.token.location.start)
    (h : later.Delivered code own (earlier ++ d.errors) d.token.location.start) :
    Feed.Delivered code own earlier bound ⟨d :: later.deliveries, later.trailing⟩ where
  located := Feed.forall_mem_tokens_cons.2 ⟨ht, h.located⟩
  bound := Feed.forall_mem_tokens_cons.2 ⟨hbound, fun t hmem => hbound.trans (h.bound t hmem)⟩
  inOrder := List.pairwise_cons.2 ⟨h.bound, h.inOrder⟩
  exact := by
    rw [Feed.errors_cons, ← List.append_assoc]
    exact h.exact
  ordered := by
    rw [Feed.errors_cons, ← List.append_assoc]
    exact h.ordered

/-- All that is left are errors. -/
theorem Feed.delivered_errors {feed : Feed} {errors : List FrontError}
    (h : Recorded code own feed (earlier ++ errors)) :
    Feed.Delivered code own earlier bound ⟨[], errors⟩ :=
  ⟨by simp [Feed.tokens], by simp [Feed.tokens], List.Pairwise.nil, h.exact, h.ordered⟩

namespace Preprocessor

theorem deliver_delivered (count : Nat) {p : Preprocessor} (hready : p.ready = [])
    (h : p.queue.later.Waits code own earlier bound p.queue.waiting) :
    (p.deliver count).Delivered code own earlier bound := by
  induction count generalizing p earlier bound with
  | zero =>
      obtain ⟨hexact, -, hordered⟩ := h.records.recorded
      rw [deliver]
      refine ⟨by simp [Feed.tokens, Feed.empty], by simp [Feed.tokens, Feed.empty],
        List.Pairwise.nil, ?_, ?_⟩
      · simpa [Feed.errors, Feed.empty] using (List.forall_mem_append.1 hexact).1
      · simpa [Feed.errors, Feed.empty] using (List.pairwise_append.1 hordered).1
  | succ count ih =>
      obtain ⟨hq, ht⟩ :=
        Queue.settle_tracks Reader.supply_tracks (p.queue.stepLimit Reader.supply) h
      have hnext : p.next = p.produce := by
        unfold next
        rw [hready]
      unfold deliver
      rw [hnext, produce, Queue.next]
      split
      · rename_i t p' heq
        split at heq
        · rename_i found q hsettle
          rw [hsettle] at hq ht
          obtain ⟨rfl, rfl⟩ : found = t ∧ _ := by simpa using heq
          have hpassed := ht found rfl
          refine .cons hpassed.exactIn hpassed.bound ?_
          exact ih hready (hq.behind hpassed).takeErrors
        · cases heq
        · cases heq
      · rename_i p' heq
        split at heq
        · cases heq
        · rename_i q hsettle
          rw [hsettle] at hq
          obtain rfl : { p with queue := q } = p' := by simpa using heq
          exact Feed.delivered_errors hq.records.recorded
        · rename_i q hsettle
          rw [hsettle] at hq
          obtain rfl : { p with queue := ⟨[], ⟨.empty, q.later.env⟩⟩ } = p' := by simpa using heq
          exact Feed.delivered_errors hq.records.recorded

/-- Definitions open no section, and the errors in their values are located there. -/
theorem defineAll_starts (definitions : List (String × String)) (feed : Feed) (env : Environment) :
    ∃ env' : Environment, defineAll ⟨[], ⟨[], ⟨feed, env⟩⟩⟩ definitions = ⟨[], ⟨[], ⟨feed, env'⟩⟩⟩ ∧
      env'.sections = env.sections ∧ ∀ e ∈ env'.errors, e ∈ env.errors ∨
        ∃ d ∈ definitions, e.location.ExactIn (.ofString d.2 (.define d.1)) := by
  induction definitions generalizing env with
  | nil => exact ⟨env, rfl, rfl, fun e he => .inl he⟩
  | cons d ds ih =>
      obtain ⟨env', hdefined, hsections, herrors⟩ :=
        ih (env.defineText d.1 d.2 (.define d.1))
      refine ⟨env', hdefined, hsections, fun e he => ?_⟩
      rcases herrors e he with he | ⟨other, hother, hlocated⟩
      · rcases List.mem_append.1 he with he | he
        · exact .inl he
        · exact .inr ⟨d, List.mem_cons_self, ((Code.scan_located _).errors e he).1⟩
      · exact .inr ⟨other, List.mem_cons_of_mem d hother, hlocated⟩

end Preprocessor

theorem Environment.errors_predefined : predefined.errors = [] :=
  List.isEmpty_iff.1 (by decide +kernel)

/-- A shader with definitions is read from its start, and nothing was recorded yet but the errors in
the values of definitions. -/
theorem Preprocessor.defineAll_waits (code : Code) (definitions : List (String × String))
    (hown : ∀ e, own e → ∀ d ∈ definitions, e.location.code ≠ .ofString d.2 (.define d.1)) :
    ∃ env : Environment,
      (ofFeed code.scan).defineAll definitions = ⟨[], ⟨[], ⟨code.scan, env⟩⟩⟩ ∧
        Reader.Waits code own [] 0 ⟨code.scan, env⟩ [] := by
  obtain ⟨env, hdefined, hsections, herrors⟩ :=
    defineAll_starts definitions code.scan .predefined
  have hvalues : ∀ e ∈ env.errors,
      ∃ d ∈ definitions, e.location.ExactIn (.ofString d.2 (.define d.1)) := by
    intro e he
    refine (herrors e he).resolve_left ?_
    rw [Environment.errors_predefined]
    exact List.not_mem_nil
  have hnone : ∀ e ∈ env.errors, ¬ own e := by
    intro e he hmine
    obtain ⟨d, hd, hlocated⟩ := hvalues e he
    exact hown e hmine d hd hlocated.code
  have hstart : Reader.Records code own [] ⟨code.scan, env⟩ := by
    refine ⟨List.suffix_refl _, code.scan_located, code.scan_inOrder, ?_, ?_, ?_, ?_⟩
    · dsimp only
      rw [hsections]
      exact List.forall_mem_nil _
    · intro e he
      obtain ⟨d, hd, hlocated⟩ := hvalues e he
      exact hlocated.exact
    · exact fun e he hmine => absurd hmine (hnone e he)
    · exact List.pairwise_of_forall_mem_list fun e he f _ hmine => absurd hmine (hnone e he)
  exact ⟨env, hdefined, hstart, fun _ _ => Nat.zero_le _, fun _ _ => Nat.zero_le _⟩

/-- Tokens are delivered in the order of the text, and errors too, apart from those in the values of
definitions. -/
theorem Code.preprocess_delivered (code : Code) (definitions : List (String × String))
    (hown : ∀ e, own e → ∀ d ∈ definitions, e.location.code ≠ .ofString d.2 (.define d.1)) :
    (code.preprocess definitions).Delivered code own [] 0 := by
  obtain ⟨env, hdefined, hwaits⟩ := Preprocessor.defineAll_waits code definitions hown
  unfold preprocess
  rw [hdefined]
  exact Preprocessor.deliver_delivered _ rfl hwaits

end Essl
