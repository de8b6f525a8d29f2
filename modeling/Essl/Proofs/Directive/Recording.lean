import Essl.Proofs.Directive.Placing

/-!
# The order in which errors are recorded

Errors about characters are recorded when the token behind them is looked at. So every error that
was recorded before one of them starts before it. A directive is carried out after its line, and
only after the first token of the next line was looked at: what was recorded before its errors
starts in front of that token, but may start behind the directive.
-/

namespace Essl

/-- An error that is recorded before another one does not start behind it, or, for errors of
directives and macros, not behind the first token of the lines after it. What is only found at the
end of the input is left aside. -/
structure FrontError.Precedes (code : Code) (e f : FrontError) : Prop where
  lexical : f.cause.IsLexical → e.location.start ≤ f.location.start
  directive : ∀ c, f.cause = .directive c → c ≠ .unclosedConditional →
    (∀ name, c ≠ .unclosedInvocation name) →
      ∀ t ∈ code.scan.tokens, t.firstInLine = true → f.location.stop ≤ t.location.start →
        e.location.start ≤ t.location.start

namespace FrontError

variable {code : Code} {e f : FrontError}

theorem precedes_of_lexical (hf : f.cause.IsLexical) (h : e.location.start ≤ f.location.start) :
    e.Precedes code f := by
  refine ⟨fun _ => h, fun c hc => ?_⟩
  obtain ⟨c', hc'⟩ := hf
  rw [hc'] at hc
  cases hc

theorem precedes_of_directive {c : DirectiveCause} (hf : f.cause = .directive c)
    (h : c ≠ .unclosedConditional → (∀ name, c ≠ .unclosedInvocation name) →
      ∀ t ∈ code.scan.tokens, t.firstInLine = true → f.location.stop ≤ t.location.start →
        e.location.start ≤ t.location.start) : e.Precedes code f := by
  refine ⟨?_, fun c' hc' => ?_⟩
  · rintro ⟨c', hc'⟩
    rw [hc'] at hf
    cases hf
  · rw [hf] at hc'
    cases hc'
    exact h

end FrontError

/-! ## What is recorded -/

section

variable (code : Code) (own : FrontError → Prop)

/-- The errors recorded so far are in order, as far as they are `own`, and what is left of the
feed is behind them. -/
structure Recorded (feed : Feed) (errors : List FrontError) : Prop where
  exact : ∀ e ∈ errors, e.location.Exact
  ahead : ∀ e ∈ errors, own e → feed.After e.location.start
  ordered : errors.Pairwise fun e f => own e → own f → e.Precedes code f

variable {code own} {feed later : Feed} {errors found : List FrontError}

/-- More is recorded, and maybe more of the feed is read. -/
theorem Recorded.add (h : Recorded code own feed errors)
    (hlater : ∀ offset, feed.After offset → later.After offset)
    (hexact : ∀ f ∈ found, f.location.Exact)
    (hahead : ∀ f ∈ found, later.After f.location.start)
    (hprecedes : ∀ e ∈ errors, own e → ∀ f ∈ found, e.Precedes code f)
    (hfound : found.Pairwise fun e f => e.Precedes code f) :
    Recorded code own later (errors ++ found) where
  exact := List.forall_mem_append.2 ⟨h.exact, hexact⟩
  ahead := List.forall_mem_append.2
    ⟨fun e he hown => hlater _ (h.ahead e he hown), fun f hf _ => hahead f hf⟩
  ordered := by
    refine List.pairwise_append.2 ⟨h.ordered, hfound.imp fun hef _ _ => hef, ?_⟩
    exact fun e he f hf hown _ => hprecedes e he hown f hf

/-- Errors about characters are recorded as they come. -/
theorem Recorded.addLexical (h : Recorded code own feed errors)
    (hlater : ∀ offset, feed.After offset →
      later.After offset ∧ ∀ f ∈ found, offset ≤ f.location.start)
    (hfound : ∀ f ∈ found, f.location.ExactIn code ∧ f.cause.IsLexical)
    (hahead : ∀ f ∈ found, later.After f.location.start) (hordered : Ordered found) :
    Recorded code own later (errors ++ found) := by
  refine h.add (fun offset hoffset => (hlater offset hoffset).1)
    (fun f hf => (hfound f hf).1.exact) hahead (fun e he hown f hf => ?_) ?_
  · exact FrontError.precedes_of_lexical (hfound f hf).2 ((hlater _ (h.ahead e he hown)).2 f hf)
  · exact hordered.imp_of_mem fun _ hf hle => FrontError.precedes_of_lexical (hfound _ hf).2 hle

end

/-! ## Lines -/

namespace Feed

variable {code : Code} {d : Delivery} {rest : List Delivery} {trailing : List FrontError}

theorem line_nil : line ⟨[], trailing⟩ = ⟨[], trailing, .empty⟩ := rfl

theorem line_first (h : d.token.firstInLine = true) :
    line ⟨d :: rest, trailing⟩ = ⟨[], d.errors, ⟨⟨[], d.token⟩ :: rest, trailing⟩⟩ := by
  simp [line, h]

theorem line_cons (h : d.token.firstInLine = false) :
    line ⟨d :: rest, trailing⟩ =
      ⟨d.token :: (line ⟨rest, trailing⟩).tokens, d.errors ++ (line ⟨rest, trailing⟩).errors,
        (line ⟨rest, trailing⟩).rest⟩ := by
  simp only [line, h, List.takeWhile_cons, List.dropWhile_cons, Bool.not_false, if_true]
  split <;> simp

theorem tokens_of_line (feed : Feed) :
    feed.line.tokens = feed.tokens.takeWhile (!·.firstInLine) := by
  simp only [tokens, List.takeWhile_map]
  unfold line
  split <;> rfl

theorem tokens_behind_line (feed : Feed) :
    feed.line.rest.tokens = feed.tokens.dropWhile (!·.firstInLine) := by
  simp only [tokens, List.dropWhile_map, Function.comp_def]
  unfold line
  split <;> rename_i heq <;> rw [heq] <;> rfl

/-- Reading a line meets no error twice and passes over none. -/
theorem errors_line (feed : Feed) : feed.line.errors ++ feed.line.rest.errors = feed.errors := by
  have hsplit := List.takeWhile_append_dropWhile (p := fun d : Delivery => !d.token.firstInLine)
    (l := feed.deliveries)
  have herrors := congrArg (List.flatMap Delivery.errors) hsplit
  rw [List.flatMap_append] at herrors
  unfold line
  split <;> rename_i heq <;> rw [heq] at herrors <;> simp [errors, ← herrors, Feed.empty]

/-- What reading to the end of a line leaves is behind what it takes. -/
structure Splits (code : Code) (feed : Feed) (line : Line) : Prop where
  tokens : feed.tokens = line.tokens ++ line.rest.tokens
  sameLine : ∀ t ∈ line.tokens, t.firstInLine = false
  located : line.rest.LocatedIn code
  inOrder : InOrder line.rest.trailing line.rest.deliveries
  after : ∀ offset, feed.After offset →
    line.rest.After offset ∧ ∀ e ∈ line.errors, offset ≤ e.location.start
  errors : ∀ e ∈ line.errors, e.location.ExactIn code ∧ e.cause.IsLexical
  ordered : Ordered line.errors
  behindErrors : ∀ e ∈ line.errors, line.rest.After e.location.start
  behindTokens : ∀ t ∈ line.tokens, line.rest.After t.location.stop

theorem line_splits (trailing : List FrontError) : ∀ deliveries : List Delivery,
    LocatedIn code ⟨deliveries, trailing⟩ → InOrder trailing deliveries →
      Splits code ⟨deliveries, trailing⟩ (line ⟨deliveries, trailing⟩)
  | [], hlocated, hordered => by
      rw [line_nil]
      exact {
        tokens := rfl
        sameLine := by simp
        located := ⟨by simp [Feed.tokens, empty], by simp [Feed.errors, empty]⟩
        inOrder := List.Pairwise.nil
        after := fun offset h => ⟨after_empty, h.errors⟩
        errors := hlocated.errors
        ordered := hordered
        behindErrors := fun _ _ => after_empty
        behindTokens := by simp }
  | d :: rest, hlocated, ⟨hordered, hle, hafter, hrest⟩ => by
      obtain ⟨herrors, htoken, hlocated⟩ := locatedIn_cons.1 hlocated
      have hstop := htoken.exact.le
      cases hfirst : d.token.firstInLine with
      | true =>
          rw [line_first hfirst]
          have hnext : After d.token.location.start ⟨⟨[], d.token⟩ :: rest, trailing⟩ :=
            after_cons.2 ⟨by simp, Nat.le_refl _, hafter.mono hstop⟩
          exact {
            tokens := rfl
            sameLine := by simp
            located := locatedIn_cons.2 ⟨by simp, htoken, hlocated⟩
            inOrder := ⟨List.Pairwise.nil, by simp, hafter, hrest⟩
            after := fun offset h =>
              ⟨after_cons.2 ⟨by simp, (after_cons.1 h).2⟩, (after_cons.1 h).1⟩
            errors := herrors
            ordered := hordered
            behindErrors := fun e he => hnext.mono (hle e he)
            behindTokens := by simp }
      | false =>
          have hlater := line_splits trailing rest hlocated hrest
          rw [line_cons hfirst]
          obtain ⟨hbehind, hfollows⟩ := hlater.after _ hafter
          exact {
            tokens := congrArg (d.token :: ·) hlater.tokens
            sameLine := List.forall_mem_cons.2 ⟨hfirst, hlater.sameLine⟩
            located := hlater.located
            inOrder := hlater.inOrder
            after := fun offset h => by
              obtain ⟨herrors, -, hrest⟩ := after_cons.1 h
              obtain ⟨hrest, hmore⟩ := hlater.after offset hrest
              exact ⟨hrest, List.forall_mem_append.2 ⟨herrors, hmore⟩⟩
            errors := List.forall_mem_append.2 ⟨herrors, hlater.errors⟩
            ordered := List.pairwise_append.2 ⟨hordered, hlater.ordered,
              fun e he f hf => (hle e he).trans (hstop.trans (hfollows f hf))⟩
            behindErrors := List.forall_mem_append.2
              ⟨fun e he => hbehind.mono ((hle e he).trans hstop), hlater.behindErrors⟩
            behindTokens := List.forall_mem_cons.2 ⟨hbehind, hlater.behindTokens⟩ }

end Feed

/-! ## Reading -/

namespace Location.MadeFrom

variable {code : Code} {l : Location} {ts : List Token}

theorem exists_stop (h : l.MadeFrom ts) (hts : ∀ t ∈ ts, t.location.ExactIn code) :
    ∃ t ∈ ts, t.location.stop = l.stop := by
  rcases h with h | ⟨m, h, rfl⟩
  · exact h.exists_stop hts
  · exact h.exists_stop hts

end Location.MadeFrom

/-- An error in a directive line is preceded by whatever starts in front of the next line. -/
theorem FrontError.MadeFrom.preceded {code : Code} {e f : FrontError} {hash : Token}
    {line : List Token} {rest : Feed} (hf : f.MadeFrom line)
    (hsuffix : hash :: (line ++ rest.tokens) <:+ code.scan.tokens)
    (hline : ∀ t ∈ line, t.firstInLine = false) (he : rest.After e.location.start) :
    e.Precedes code f := by
  obtain ⟨before, hsplit⟩ := hsuffix
  have hproper := code.scan_tokens_cover
  have hordered := code.scan_tokens_ordered
  obtain ⟨c, hc⟩ := hf.cause
  refine precedes_of_directive hc fun _ _ t ht hfirst hle => ?_
  have hlocated : ∀ u ∈ line, u.location.ExactIn code := fun u hu =>
    code.scan_located.tokens u (by rw [← hsplit]; simp [hu])
  obtain ⟨u, hu, hstop⟩ := hf.location.exists_stop hlocated
  have hpos := (hproper t ht).2.1
  have hupos := (hproper u (by rw [← hsplit]; simp [hu])).2.1
  -- A token that was read before the line, or its `#`, ends in front of the line.
  have hearlier : t ∈ before ++ [hash] → False := by
    intro ht
    rw [← hsplit, ← List.singleton_append, ← List.append_assoc] at hordered
    have := (List.pairwise_append.1 hordered).2.2 t ht u (List.mem_append_left _ hu)
    omega
  rw [← hsplit] at ht
  simp only [List.mem_append, List.mem_cons] at ht hearlier
  rcases ht with ht | rfl | ht | ht
  · exact (hearlier (.inl ht)).elim
  · exact (hearlier (.inr (.inl rfl))).elim
  · rw [hline t ht] at hfirst
    cases hfirst
  · exact he.tokens t ht

section

variable (code : Code) (own : FrontError → Prop) (earlier : List FrontError)

/-- A reader part of the way through the text, of which some errors were taken earlier. -/
structure Reader.Records (r : Reader) : Prop where
  suffix : r.feed.tokens <:+ code.scan.tokens
  located : r.feed.LocatedIn code
  inOrder : Feed.InOrder r.feed.trailing r.feed.deliveries
  sections : ∀ s ∈ r.env.sections, s.location.ExactIn code
  recorded : Recorded code own r.feed (earlier ++ r.env.errors)

/-- From a reader a token is read, or nothing, and another one is left. -/
structure Reader.Advances (r : Reader) (token : Option Token) (later : Reader) : Prop where
  records : later.Records code own earlier
  after : ∀ offset, r.feed.After offset → later.feed.After offset
  located : ∀ t ∈ token, t.location.ExactIn code
  behind : ∀ t ∈ token, ∀ offset, r.feed.After offset → offset ≤ t.location.start
  ahead : ∀ t ∈ token, later.feed.After t.location.stop
  recorded : ∀ t ∈ token, ∀ e ∈ earlier ++ later.env.errors, own e →
    e.location.start ≤ t.location.stop

end

namespace Reader

variable {code : Code} {own : FrontError → Prop} {earlier : List FrontError}

theorem Advances.of_after {r r' later : Reader} {token : Option Token}
    (h : r'.Advances code own earlier token later)
    (hafter : ∀ offset, r.feed.After offset → r'.feed.After offset) :
    r.Advances code own earlier token later where
  records := h.records
  after offset hoffset := h.after offset (hafter offset hoffset)
  located := h.located
  behind t ht offset hoffset := h.behind t ht offset (hafter offset hoffset)
  ahead := h.ahead
  recorded := h.recorded

namespace Records

variable {d : Delivery} {rest : List Delivery} {trailing : List FrontError} {env : Environment}

/-- The next token is taken. -/
theorem take (h : Records code own earlier ⟨⟨d :: rest, trailing⟩, env⟩) :
    Records code own earlier
      ⟨⟨rest, trailing⟩, { env with errors := env.errors ++ d.errors }⟩ := by
  obtain ⟨hfound, htoken, hlocated⟩ := Feed.locatedIn_cons.1 h.located
  obtain ⟨hordered, hle, hafter, hrest⟩ := h.inOrder
  refine ⟨(List.suffix_cons _ _).trans h.suffix, hlocated, hrest, h.sections, ?_⟩
  rw [← List.append_assoc]
  refine h.recorded.addLexical (fun offset hoffset => ?_) hfound (fun f hf => ?_) hordered
  · exact ⟨(Feed.after_cons.1 hoffset).2.2, (Feed.after_cons.1 hoffset).1⟩
  · exact hafter.mono ((hle f hf).trans htoken.exact.le)

/-- A directive is carried out. -/
theorem carryOut (h : Records code own earlier ⟨⟨d :: rest, trailing⟩, env⟩) :
    let line := Feed.line ⟨rest, trailing⟩
    Records code own earlier ⟨line.rest,
      { env with errors := env.errors ++ d.errors ++ line.errors }.directive d.token
        line.tokens⟩ := by
  intro line
  have hsplits : Feed.Splits code ⟨rest, trailing⟩ line :=
    Feed.line_splits trailing rest h.take.located h.take.inOrder
  have htoken := (Feed.locatedIn_cons.1 h.located).2.1
  have hsuffix : d.token :: (line.tokens ++ line.rest.tokens) <:+ code.scan.tokens := by
    rw [← hsplits.tokens]
    exact h.suffix
  have hline : ∀ t ∈ line.tokens, t.location.ExactIn code := fun t ht =>
    h.take.located.tokens t (by rw [hsplits.tokens]; exact List.mem_append_left _ ht)
  obtain ⟨found, herrors, hfound⟩ := Environment.directive_reports
    { env with errors := env.errors ++ d.errors ++ line.errors } d.token line.tokens
  have hread : Recorded code own line.rest
      (earlier ++ (env.errors ++ d.errors ++ line.errors)) := by
    rw [← List.append_assoc]
    exact h.take.recorded.addLexical hsplits.after hsplits.errors hsplits.behindErrors
      hsplits.ordered
  have hbehind : ∀ f ∈ found, line.rest.After f.location.start := by
    intro f hf
    obtain ⟨t, ht, hstop⟩ := (hfound f hf).location.exists_stop hline
    refine (hsplits.behindTokens t ht).mono ?_
    rw [hstop]
    exact ((hfound f hf).location.exactIn hline).exact.le
  refine ⟨?_, hsplits.located, hsplits.inOrder, ?_, ?_⟩
  · exact ((List.suffix_append _ _).trans (List.suffix_cons _ _)).trans hsuffix
  · exact Environment.directive_sections h.sections fun name hname => htoken.join (hline name hname)
  · dsimp only
    rw [herrors, ← List.append_assoc]
    refine hread.add (fun _ hoffset => hoffset)
      (fun f hf => ((hfound f hf).location.exactIn hline).exact) hbehind ?_ ?_
    · exact fun e he hown f hf => (hfound f hf).preceded hsuffix hsplits.sameLine
        (hread.ahead e he hown)
    · exact List.pairwise_of_forall_mem_list fun e he f hf =>
        (hfound f hf).preceded hsuffix hsplits.sameLine (hbehind e he)

/-- At the end the conditionals that are left open are reported. -/
theorem finish (h : Records code own earlier ⟨⟨[], trailing⟩, env⟩) :
    Records code own earlier
      ⟨.empty, Reader.finish { env with errors := env.errors ++ trailing }⟩ := by
  have hread : Recorded code own .empty (earlier ++ (env.errors ++ trailing)) := by
    rw [← List.append_assoc]
    exact h.recorded.addLexical (fun offset hoffset => ⟨Feed.after_empty, hoffset.errors⟩)
      h.located.errors (fun _ _ => Feed.after_empty) h.inOrder
  have hunclosed : ∀ f ∈ env.sections.reverse.map fun s =>
      (⟨.directive .unclosedConditional, s.location⟩ : FrontError),
      f.cause = .directive .unclosedConditional ∧ f.location.Exact := by
    intro f hf
    obtain ⟨s, hs, rfl⟩ := List.mem_map.1 hf
    exact ⟨rfl, (h.sections s (List.mem_reverse.1 hs)).exact⟩
  have hlast : ∀ e f : FrontError, f.cause = .directive .unclosedConditional →
      e.Precedes code f :=
    fun e f hf => FrontError.precedes_of_directive hf fun hne => absurd rfl hne
  refine ⟨List.nil_suffix, ⟨by simp [Feed.tokens, Feed.empty], by simp [Feed.errors, Feed.empty]⟩,
    List.Pairwise.nil, by simp [Reader.finish], ?_⟩
  dsimp only [Reader.finish]
  rw [← List.append_assoc]
  refine hread.add (fun _ _ => Feed.after_empty) (fun f hf => (hunclosed f hf).2)
    (fun _ _ => Feed.after_empty) (fun e _ _ f hf => hlast e f (hunclosed f hf).1) ?_
  exact List.pairwise_of_forall_mem_list fun e _ f hf => hlast e f (hunclosed f hf).1

end Records

theorem next_advances {r : Reader} (h : r.Records code own earlier) :
    r.Advances code own earlier r.next.1 r.next.2 := by
  fun_induction Reader.next r with
  | case1 r env heq =>
      obtain ⟨⟨_, trailing⟩, env⟩ := r
      obtain rfl := heq
      exact {
        records := h.finish
        after := fun _ _ => Feed.after_empty
        located := by simp
        behind := by simp
        ahead := by simp
        recorded := by simp }
  | case2 r env delivery rest heq feed env' hstarts line env'' ih =>
      obtain ⟨⟨_, trailing⟩, env⟩ := r
      obtain rfl := heq
      have hsplits := Feed.line_splits trailing rest h.take.located h.take.inOrder
      refine (ih h.carryOut).of_after fun offset hoffset => ?_
      exact (hsplits.after offset (Feed.after_cons.1 hoffset).2.2).1
  | case3 r env delivery rest heq feed env' hstarts hactive =>
      obtain ⟨⟨_, trailing⟩, env⟩ := r
      obtain rfl := heq
      obtain ⟨hordered, hle, hafter, hrest⟩ := h.inOrder
      have hlocated := (Feed.locatedIn_cons.1 h.located).2.1
      refine ⟨h.take, fun offset hoffset => (Feed.after_cons.1 hoffset).2.2, ?_, ?_, ?_, ?_⟩ <;>
        rintro t ⟨⟩
      · exact hlocated
      · exact fun offset hoffset => (Feed.after_cons.1 hoffset).2.1
      · exact hafter
      · intro e he hown
        rw [← List.append_assoc] at he
        refine le_trans ?_ hlocated.exact.le
        rcases List.mem_append.1 he with he | he
        · exact (Feed.after_cons.1 (h.recorded.ahead e he hown)).2.1
        · exact hle e he
  | case4 r env delivery rest heq feed env' hstarts hactive ih =>
      obtain ⟨⟨_, trailing⟩, env⟩ := r
      obtain rfl := heq
      exact (ih h.take).of_after fun offset hoffset => (Feed.after_cons.1 hoffset).2.2

end Reader

end Essl
