import Essl.Proofs.Directive.ErrorLog
import Essl.Preprocessor

/-!
# Streams as lists with pushback

A stream of tokens can be read, looked into and put back to in any order of calls. To its reader it
is the list of the tokens that it would deliver one after the other, and the errors found on the
way to the end are the same however it is read.
-/

namespace Essl

/-- What can be asked of a stream of tokens. -/
inductive StreamCall where
  | next
  | peek
  | eof
  | unconsume (token : Token)
  | takeErrors

/-- What a stream of tokens returns to a call, apart from errors. -/
inductive StreamAnswer where
  | token (token : Option Token)
  | ended (ended : Bool)
  | nothing

/-- The answers that tell the end of the input. -/
def StreamAnswer.isEnd : StreamAnswer → Bool
  | token t => t.isNone
  | ended e => e
  | nothing => false

@[simp] theorem StreamAnswer.isEnd_head? (ts : List Token) :
    (token ts.head?).isEnd = ts.isEmpty := by
  cases ts <;> rfl

@[simp] theorem StreamAnswer.isEnd_ended (e : Bool) : (ended e).isEnd = e := rfl

@[simp] theorem StreamAnswer.isEnd_nothing : nothing.isEnd = false := rfl

/-- The calls that a stream of tokens takes, each with the state after it. -/
structure StreamOps (σ : Type) where
  next : σ → Option Token × σ
  peek : σ → Option Token × σ
  eof : σ → Bool × σ
  unconsume : Token → σ → σ
  takeErrors : σ → List FrontError × σ

/-- What came of some calls: the answers, the errors taken, and the state after them. -/
structure StreamRun (σ : Type) where
  answers : List StreamAnswer
  taken : List FrontError
  state : σ

namespace StreamOps

/-- Text that is split into tokens. -/
def lexer : StreamOps TokenStream where
  next := TokenStream.next
  peek := TokenStream.peek
  eof := TokenStream.eof
  unconsume := TokenStream.unconsume
  takeErrors := TokenStream.takeErrors

/-- Text of which the directives are carried out and the macros expanded. -/
def preprocessor : StreamOps Preprocessor where
  next := Preprocessor.next
  peek := Preprocessor.peek
  eof := Preprocessor.eof
  unconsume := Preprocessor.unconsume
  takeErrors := Preprocessor.takeErrors

/-- A list of tokens. Reading removes the head, and what is put back comes in front. -/
def list : StreamOps (List Token) where
  next ts := (ts.head?, ts.tail)
  peek ts := (ts.head?, ts)
  eof ts := (ts.isEmpty, ts)
  unconsume t ts := t :: ts
  takeErrors ts := ([], ts)

variable {σ : Type} (ops : StreamOps σ)

/-- Answers one call. -/
def call (s : σ) : StreamCall → StreamRun σ
  | .next => ⟨[.token (ops.next s).1], [], (ops.next s).2⟩
  | .peek => ⟨[.token (ops.peek s).1], [], (ops.peek s).2⟩
  | .eof => ⟨[.ended (ops.eof s).1], [], (ops.eof s).2⟩
  | .unconsume t => ⟨[.nothing], [], ops.unconsume t s⟩
  | .takeErrors => ⟨[.nothing], (ops.takeErrors s).1, (ops.takeErrors s).2⟩

/-- Answers calls in order. -/
def calls (s : σ) : List StreamCall → StreamRun σ
  | [] => ⟨[], [], s⟩
  | c :: cs =>
    let first := ops.call s c
    let later := calls first.state cs
    ⟨first.answers ++ later.answers, first.taken ++ later.taken, later.state⟩

/-- All errors taken by some calls and by taking errors once more after them. -/
def allTaken (s : σ) (cs : List StreamCall) : List FrontError :=
  (ops.calls s cs).taken ++ (ops.takeErrors (ops.calls s cs).state).1

/-- Reading to the end returns some tokens and stops in some state. -/
inductive Reads : σ → List Token → σ → Prop where
  | finish {s s' : σ} : ops.next s = (none, s') → Reads s [] s'
  | token {s s' last : σ} {t : Token} {ts : List Token} :
      ops.next s = (some t, s') → Reads s' ts last → Reads s (t :: ts) last

/-- To its reader the stream is a list of tokens, and whatever calls get to its end, they bring up
certain errors. -/
def IsList (s : σ) (ts : List Token) (errors : List FrontError) : Prop :=
  ∀ cs : List StreamCall,
    (ops.calls s cs).answers = (list.calls ts cs).answers ∧
      ((ops.calls s cs).answers.any StreamAnswer.isEnd = true → ops.allTaken s cs = errors)

/-- Each call keeps a relation to the list of tokens to come, the errors still to be taken, and
whether the end has been seen. From the end on no more errors come up. -/
structure Simulates (Holds : σ → List Token → List FrontError → Bool → Prop) : Prop where
  next : ∀ {s ts errors ended}, Holds s ts errors ended →
    (ops.next s).1 = ts.head? ∧ Holds (ops.next s).2 ts.tail errors (ended || ts.isEmpty)
  peek : ∀ {s ts errors ended}, Holds s ts errors ended →
    (ops.peek s).1 = ts.head? ∧ Holds (ops.peek s).2 ts errors (ended || ts.isEmpty)
  eof : ∀ {s ts errors ended}, Holds s ts errors ended →
    (ops.eof s).1 = ts.isEmpty ∧ Holds (ops.eof s).2 ts errors (ended || ts.isEmpty)
  unconsume : ∀ {s ts errors ended} (t : Token), Holds s ts errors ended →
    Holds (ops.unconsume t s) (t :: ts) errors ended
  takeErrors : ∀ {s ts errors ended}, Holds s ts errors ended → ∃ later,
    errors = (ops.takeErrors s).1 ++ later ∧ Holds (ops.takeErrors s).2 ts later ended ∧
      (ended = true → later = [])

variable {ops} {Holds : σ → List Token → List FrontError → Bool → Prop}

theorem Simulates.call (h : ops.Simulates Holds) {s : σ} {ts : List Token}
    {errors : List FrontError} {ended : Bool} (hs : Holds s ts errors ended) (c : StreamCall) :
    (ops.call s c).answers = (list.call ts c).answers ∧
      ∃ later, errors = (ops.call s c).taken ++ later ∧
        Holds (ops.call s c).state (list.call ts c).state later
          (ended || (ops.call s c).answers.any StreamAnswer.isEnd) := by
  cases c with
  | next =>
      obtain ⟨hanswer, hholds⟩ := h.next hs
      refine ⟨by simp [StreamOps.call, list, hanswer], errors, rfl, ?_⟩
      simpa [StreamOps.call, list, hanswer] using hholds
  | peek =>
      obtain ⟨hanswer, hholds⟩ := h.peek hs
      refine ⟨by simp [StreamOps.call, list, hanswer], errors, rfl, ?_⟩
      simpa [StreamOps.call, list, hanswer] using hholds
  | eof =>
      obtain ⟨hanswer, hholds⟩ := h.eof hs
      refine ⟨by simp [StreamOps.call, list, hanswer], errors, rfl, ?_⟩
      simpa [StreamOps.call, list, hanswer] using hholds
  | unconsume t =>
      refine ⟨rfl, errors, rfl, ?_⟩
      simpa [StreamOps.call, list] using h.unconsume t hs
  | takeErrors =>
      obtain ⟨later, herrors, hholds, -⟩ := h.takeErrors hs
      refine ⟨rfl, later, herrors, ?_⟩
      simpa [StreamOps.call, list] using hholds

theorem Simulates.calls (h : ops.Simulates Holds) {s : σ} {ts : List Token}
    {errors : List FrontError} {ended : Bool} (hs : Holds s ts errors ended)
    (cs : List StreamCall) :
    (ops.calls s cs).answers = (list.calls ts cs).answers ∧
      ∃ later, errors = (ops.calls s cs).taken ++ later ∧
        Holds (ops.calls s cs).state (list.calls ts cs).state later
          (ended || (ops.calls s cs).answers.any StreamAnswer.isEnd) := by
  induction cs generalizing s ts errors ended with
  | nil => exact ⟨rfl, errors, rfl, by simpa [StreamOps.calls] using hs⟩
  | cons c cs ih =>
      obtain ⟨hfirst, rest, herrors, hholds⟩ := h.call hs c
      obtain ⟨hlater, last, hrest, hlast⟩ := ih hholds
      refine ⟨by simp [StreamOps.calls, hfirst, hlater], last, ?_, ?_⟩
      · simp [StreamOps.calls, herrors, hrest]
      · simpa [StreamOps.calls, Bool.or_assoc] using hlast

theorem Simulates.isList (h : ops.Simulates Holds) {s : σ} {ts : List Token}
    {errors : List FrontError} (hs : Holds s ts errors false) : ops.IsList s ts errors := by
  intro cs
  obtain ⟨hanswers, later, herrors, hholds⟩ := h.calls hs cs
  refine ⟨hanswers, fun hended => ?_⟩
  obtain ⟨rest, hlater, -, hrest⟩ := h.takeErrors hholds
  rw [allTaken, herrors, hlater, hrest (by simp [hended]), List.append_nil]

end StreamOps

/-! ## Scanned text -/

namespace TokenStream

/-- The tokens and the errors that a stream has not handed out yet. From the end on there are no
errors but those noticed. -/
def Offers (s : TokenStream) (ts : List Token) (errors : List FrontError) (ended : Bool) : Prop :=
  s.feed.tokens = ts ∧ s.noticed ++ s.feed.errors = errors ∧ (ended = true → s.feed.errors = [])

theorem lexer_simulates : StreamOps.lexer.Simulates Offers where
  next := by
    rintro ⟨⟨deliveries, trailing⟩, noticed⟩ ts errors ended ⟨rfl, rfl, hended⟩
    cases deliveries with
    | nil => simp [StreamOps.lexer, next, Offers, Feed.tokens, Feed.errors, Feed.empty]
    | cons d rest =>
        simp_all [StreamOps.lexer, next, Offers, Feed.tokens, Feed.errors]
  peek := by
    rintro ⟨⟨deliveries, trailing⟩, noticed⟩ ts errors ended ⟨rfl, rfl, hended⟩
    cases deliveries with
    | nil => simp [StreamOps.lexer, peek, Offers, Feed.tokens, Feed.errors, Feed.empty]
    | cons d rest =>
        simp_all [StreamOps.lexer, peek, Offers, Feed.tokens, Feed.errors]
  eof := by
    rintro ⟨⟨deliveries, trailing⟩, noticed⟩ ts errors ended ⟨rfl, rfl, hended⟩
    cases deliveries with
    | nil => simp [StreamOps.lexer, eof, peek, Offers, Feed.tokens, Feed.errors, Feed.empty]
    | cons d rest =>
        simp_all [StreamOps.lexer, eof, peek, Offers, Feed.tokens, Feed.errors]
  unconsume := by
    rintro ⟨⟨deliveries, trailing⟩, noticed⟩ ts errors ended t ⟨rfl, rfl, hended⟩
    simp_all [StreamOps.lexer, unconsume, Offers, Feed.tokens, Feed.errors]
  takeErrors := by
    rintro ⟨feed, noticed⟩ ts errors ended ⟨rfl, rfl, hended⟩
    exact ⟨feed.errors, rfl, ⟨rfl, rfl, hended⟩, hended⟩

theorem reads (feed : Feed) (noticed : List FrontError) :
    StreamOps.lexer.Reads ⟨feed, noticed⟩ feed.tokens ⟨.empty, noticed ++ feed.errors⟩ := by
  obtain ⟨deliveries, trailing⟩ := feed
  induction deliveries generalizing noticed with
  | nil => exact .finish rfl
  | cons d rest ih =>
      refine .token rfl ?_
      simpa [Feed.errors, Feed.tokens] using ih (noticed ++ d.errors)

end TokenStream

/-! ## Preprocessed text -/

namespace Queue

/-- Expansion comes to an end after these tokens, with nothing left but a certain queue. -/
inductive Expands : Queue Reader → List Token → Queue Reader → Prop where
  | finish {q last : Queue Reader} : q.next Reader.supply = (.finished, last) → Expands q [] last
  | token {q q' last : Queue Reader} {t : Token} {ts : List Token} :
      q.next Reader.supply = (.token t, q') → Expands q' ts last → Expands q (t :: ts) last

variable {q last : Queue Reader} {ts : List Token}

/-- Expansion finishes only where the supply does. -/
theorem settle_finished {steps : Nat} (h : q.settle Reader.supply steps = (.finished, last)) :
    ∃ r : Reader, r.next = (none, last.later) ∧ last.waiting = [] := by
  induction steps generalizing q with
  | zero => simp [settle] at h
  | succ steps ih =>
      rw [settle] at h
      split at h
      · rename_i q' hpull
        obtain ⟨-, rfl⟩ := Prod.mk.inj h
        obtain ⟨_ | ⟨c, waiting⟩, r⟩ := q
        · obtain ⟨hnone, rfl⟩ := Prod.mk.inj hpull
          exact ⟨r, Prod.ext (by simpa [Reader.supply] using hnone) rfl, rfl⟩
        · simp [pull] at hpull
      · split at h
        · split at h
          · exact ih h
          · simp at h
        · simp at h

theorem settle_of_pull {q' : Queue Reader} {steps : Nat} (hsteps : 0 < steps)
    (h : q.pull Reader.supply = (none, q')) : q.settle Reader.supply steps = (.finished, q') := by
  cases steps with
  | zero => exact absurd hsteps (Nat.lt_irrefl 0)
  | succ steps => rw [settle, h]

theorem stepLimit_pos (q : Queue Reader) : 0 < q.stepLimit Reader.supply :=
  Nat.lt_of_lt_of_le (by decide) (Nat.le_max_right _ (Nat.pow 2 60))

/-- What expansion leaves at its end stays as it is. -/
theorem next_finished (h : q.next Reader.supply = (.finished, last)) :
    last.next Reader.supply = (.finished, last) := by
  obtain ⟨r, hr, hwaiting⟩ := settle_finished h
  have hsupply : last.later.next = (none, last.later) := Reader.next_finished hr
  obtain ⟨waiting, later⟩ := last
  obtain rfl : waiting = [] := hwaiting
  apply settle_of_pull (stepLimit_pos _)
  simp only [pull, Reader.supply]
  rw [hsupply]
  rfl

theorem Expands.finished (h : Expands q ts last) : last.next Reader.supply = (.finished, last) := by
  induction h with
  | finish h => exact next_finished h
  | token _ _ ih => exact ih

theorem Expands.of_last (h : Expands last ts last) : ts = [] := by
  cases h with
  | finish => rfl
  | token h hrest =>
      rw [hrest.finished] at h
      cases h

/-- The tokens that come out of expansion and what is left after them, if it comes to an end
after fewer than so many. -/
def expansion? : Nat → Queue Reader → Option (List Token × Queue Reader)
  | 0, _ => none
  | count + 1, q =>
    match q.next Reader.supply with
    | (.token t, q) => (expansion? count q).map fun (ts, last) => (t :: ts, last)
    | (.finished, last) => some ([], last)
    | (.gaveUp, _) => none

theorem expands_of_expansion? {count : Nat} (h : q.expansion? count = some (ts, last)) :
    q.Expands ts last := by
  induction count generalizing q ts with
  | zero => cases h
  | succ count ih =>
      rw [expansion?] at h
      split at h
      · rename_i t q' hnext
        obtain ⟨⟨ts', last'⟩, hrest, heq⟩ := Option.map_eq_some_iff.1 h
        obtain ⟨rfl, rfl⟩ := Prod.mk.inj heq
        exact .token hnext (ih hrest)
      · rename_i last' hnext
        obtain ⟨rfl, rfl⟩ := Prod.mk.inj (Option.some.inj h)
        exact .finish hnext
      · cases h

/-- Errors found earlier are handed on to the end. -/
theorem Expands.of_after {earlier : List FrontError}
    (h : Expands (q.mapLater (Reader.after earlier)) ts last) :
    ∃ last', Expands q ts last' ∧ last = last'.mapLater (Reader.after earlier) := by
  generalize hq : q.mapLater (Reader.after earlier) = mapped at h
  induction h generalizing q with
  | @finish mapped last h =>
      rw [← hq, next_mapLater (Reader.supply_commutes earlier)] at h
      obtain ⟨hsettled, rfl⟩ := Prod.mk.inj h
      exact ⟨(q.next Reader.supply).2, .finish (Prod.ext hsettled rfl), rfl⟩
  | @token mapped mapped' last t ts h _ ih =>
      rw [← hq, next_mapLater (Reader.supply_commutes earlier)] at h
      obtain ⟨hsettled, hlater⟩ := Prod.mk.inj h
      obtain ⟨last', hexpands, heq⟩ := ih hlater
      exact ⟨last', .token (Prod.ext hsettled rfl) hexpands, heq⟩

end Queue

namespace Preprocessor

/-- The tokens and the errors that a preprocessor has not handed out yet. From the end on there
are no errors but those found. -/
def Offers (p : Preprocessor) (ts : List Token) (errors : List FrontError) (ended : Bool) : Prop :=
  ∃ us last, ts = p.ready ++ us ∧ p.queue.Expands us last ∧ last.later.env.errors = errors ∧
    (ended = true → p.queue = last)

variable {p : Preprocessor} {us : List Token} {last : Queue Reader}

theorem produce_finished (h : p.queue.next Reader.supply = (.finished, last)) :
    p.produce = (none, ⟨p.ready, last⟩) := by
  rw [produce, h]

theorem produce_token {t : Token} {q : Queue Reader}
    (h : p.queue.next Reader.supply = (.token t, q)) :
    p.produce = (some t, ⟨p.ready, q⟩) := by
  rw [produce, h]

/-- What a preprocessor produces is the first of the tokens that expansion comes to an end
after. -/
theorem produce_expands (h : p.queue.Expands us last) :
    p.produce.1 = us.head? ∧ p.produce.2.ready = p.ready ∧
      p.produce.2.queue.Expands us.tail last ∧ (us = [] → p.produce.2.queue = last) := by
  cases h with
  | finish h =>
      rw [produce_finished h]
      exact ⟨rfl, rfl, .finish (Queue.next_finished h), fun _ => rfl⟩
  | token h hrest =>
      rw [produce_token h]
      exact ⟨rfl, rfl, hrest, by simp⟩

theorem next_holds {ts : List Token} {errors : List FrontError} {ended : Bool}
    (h : p.Offers ts errors ended) :
    p.next.1 = ts.head? ∧ p.next.2.Offers ts.tail errors (ended || ts.isEmpty) := by
  obtain ⟨us, last, rfl, hexpands, herrors, hended⟩ := h
  obtain ⟨_ | ⟨t, ready⟩, q⟩ := p
  · obtain ⟨hfirst, hready, hrest, hlast⟩ := produce_expands hexpands
    refine ⟨hfirst, us.tail, last, ?_, hrest, herrors, ?_⟩
    · simp [Preprocessor.next, hready]
    · intro hseen
      apply hlast
      rcases Bool.or_eq_true_iff.1 hseen with hseen | hseen
      · rw [hended hseen] at hexpands
        exact hexpands.of_last
      · simpa using hseen
  · exact ⟨rfl, us, last, rfl, hexpands, herrors, by simpa [Preprocessor.next] using hended⟩

theorem peek_holds {ts : List Token} {errors : List FrontError} {ended : Bool}
    (h : p.Offers ts errors ended) :
    p.peek.1 = ts.head? ∧ p.peek.2.Offers ts errors (ended || ts.isEmpty) := by
  obtain ⟨us, last, rfl, hexpands, herrors, hended⟩ := h
  obtain ⟨_ | ⟨t, ready⟩, q⟩ := p
  · cases hexpands with
    | finish h =>
        simp only [Preprocessor.peek, produce_finished h]
        exact ⟨rfl, [], last, rfl, .finish (Queue.next_finished h), herrors, fun _ => rfl⟩
    | token h hrest =>
        simp only [Preprocessor.peek, produce_token h]
        refine ⟨rfl, _, last, rfl, hrest, herrors, ?_⟩
        intro hseen
        have hq : q = last := hended (by simpa using hseen)
        rw [hq, hrest.finished] at h
        cases h
  · exact ⟨rfl, us, last, rfl, hexpands, herrors, by simpa [Preprocessor.peek] using hended⟩

theorem takeErrors_holds {ts : List Token} {errors : List FrontError} {ended : Bool}
    (h : p.Offers ts errors ended) : ∃ later, errors = p.takeErrors.1 ++ later ∧
      p.takeErrors.2.Offers ts later ended ∧ (ended = true → later = []) := by
  obtain ⟨us, last, rfl, hexpands, rfl, hended⟩ := h
  -- the queue is the one without errors after those taken
  have hqueue : p.queue = p.takeErrors.2.queue.mapLater (Reader.after p.takeErrors.1) := by
    simp [takeErrors, Queue.mapLater, Reader.after, Environment.after]
  rw [hqueue] at hexpands hended
  obtain ⟨last', hexpands', rfl⟩ := hexpands.of_after
  have hlast : ended = true → p.takeErrors.2.queue = last' := fun hseen =>
    Queue.mapLater_injective (Reader.after_injective _) (hended hseen)
  refine ⟨last'.later.env.errors, rfl, ⟨us, last', rfl, hexpands', rfl, hlast⟩, ?_⟩
  intro hseen
  rw [← hlast hseen]
  rfl

theorem preprocessor_simulates : StreamOps.preprocessor.Simulates Offers where
  next := next_holds
  peek := peek_holds
  eof h := by
    obtain ⟨hanswer, hholds⟩ := peek_holds h
    refine ⟨?_, hholds⟩
    exact (congrArg Option.isNone hanswer).trans (StreamAnswer.isEnd_head? _)
  unconsume t h := by
    obtain ⟨us, last, rfl, hrest⟩ := h
    exact ⟨us, last, rfl, hrest⟩
  takeErrors := takeErrors_holds

theorem reads (h : p.queue.Expands us last) :
    StreamOps.preprocessor.Reads p (p.ready ++ us) ⟨[], last⟩ := by
  obtain ⟨ready, q⟩ := p
  induction ready with
  | nil =>
      dsimp only at h ⊢
      induction h with
      | finish h => exact .finish (produce_finished (p := ⟨[], _⟩) h)
      | token h _ ih => exact .token (produce_token (p := ⟨[], _⟩) h) ih
  | cons t ready ih => exact .token rfl (ih h)

end Preprocessor

/-! ## Both streams -/

/-- To its reader a stream of tokens is the list of the tokens that reading to its end returns,
whether they come out of a text directly or, if expansion comes to an end, out of preprocessing.
The errors taken on the way to the end are those of reading to the end, whatever the calls. -/
theorem streams_are_lists :
    (∀ code : Code,
      StreamOps.lexer.Reads (.ofFeed code.scan) code.scan.tokens ⟨.empty, code.scan.errors⟩ ∧
      StreamOps.lexer.IsList (.ofFeed code.scan) code.scan.tokens code.scan.errors) ∧
    ∀ (p : Preprocessor) (ts : List Token) (last : Queue Reader), p.queue.Expands ts last →
      StreamOps.preprocessor.Reads p (p.ready ++ ts) ⟨[], last⟩ ∧
      StreamOps.preprocessor.IsList p (p.ready ++ ts) last.later.env.errors := by
  refine ⟨fun code => ⟨TokenStream.reads code.scan [], ?_⟩, fun p ts last h =>
    ⟨Preprocessor.reads h, ?_⟩⟩
  · exact TokenStream.lexer_simulates.isList ⟨rfl, rfl, nofun⟩
  · exact Preprocessor.preprocessor_simulates.isList ⟨ts, last, rfl, h, rfl, nofun⟩

/-- A macro with arguments is looked into, and a token put back, before the end is reached. -/
theorem streams_are_lists_invocation :
    let code := Code.ofString "#define twice(x) x x\n$ twice(1) b\n#if 1" .unknown
    let p := (Preprocessor.ofFeed code.scan).peek.2
    ∃ ts last, p.queue.Expands ts last ∧
      (p.ready ++ ts).map Token.text = ["1", "1", "b"] ∧
      last.later.env.errors.map Located.cause =
        [.lexical (.invalidCharacter '$'), .directive .unclosedConditional] ∧
      StreamOps.preprocessor.IsList p (p.ready ++ ts) last.later.env.errors := by
  intro code p
  have hrun : (p.queue.expansion? 4).map (fun r =>
      ((p.ready ++ r.1).map Token.text, r.2.later.env.errors.map Located.cause)) =
        some (["1", "1", "b"],
          [.lexical (.invalidCharacter '$'), .directive .unclosedConditional]) := by
    decide +kernel
  obtain ⟨⟨ts, last⟩, hexpansion, hshown⟩ := Option.map_eq_some_iff.1 hrun
  obtain ⟨htexts, hcauses⟩ := Prod.mk.inj hshown
  have hexpands : p.queue.Expands ts last := Queue.expands_of_expansion? hexpansion
  exact ⟨ts, last, hexpands, htexts, hcauses, (streams_are_lists.2 p ts last hexpands).2⟩

end Essl
