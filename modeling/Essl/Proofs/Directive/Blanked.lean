import Essl.Proofs.Directive.Inert

/-!
# Blanking a deselected line

A shader in which a deselected line without a directive is replaced by spaces has the same tokens.
The errors are the same but for those that the scan finds in the line itself: that a line does not
count does not keep what is wrong with its characters from being reported.
-/

namespace Essl

open Text

/-! ## Numbers of lines -/

namespace Text

theorem takeUpTo_zero (cs : List Char) : takeUpTo 0 cs = [] := by
  cases cs with
  | nil => rfl
  | cons c cs => rw [takeUpTo, if_neg (Nat.not_le.2 c.utf8Size_pos)]

/-- Text without a line break only counts by its length. -/
theorem count_takeUpTo_line {line : List Char} (h : '\n' ∉ line) (size : Nat) (tail : List Char) :
    (takeUpTo size (line ++ tail)).count '\n' =
      (takeUpTo (size - byteLength line) tail).count '\n' := by
  induction line generalizing size with
  | nil => rfl
  | cons c line ih =>
      obtain ⟨hc, hline⟩ := not_or.1 (mt List.mem_cons.2 h)
      rw [List.cons_append, takeUpTo, byteLength_cons, ← Nat.sub_sub]
      split
      · rw [List.count_cons_of_ne (Ne.symm hc), ih hline]
      · have hzero : size - c.utf8Size = 0 := by omega
        rw [hzero, Nat.zero_sub, takeUpTo_zero]

theorem count_takeUpTo_append {cs cs' : List Char}
    (h : ∀ size, (takeUpTo size cs).count '\n' = (takeUpTo size cs').count '\n')
    (before : List Char) (size : Nat) :
    (takeUpTo size (before ++ cs)).count '\n' = (takeUpTo size (before ++ cs')).count '\n' := by
  induction before generalizing size with
  | nil => exact h size
  | cons c before ih =>
      rw [List.cons_append, List.cons_append, takeUpTo, takeUpTo]
      split
      · rw [List.count_cons, List.count_cons, ih]
      · rfl

/-- As many spaces as a line takes bytes. -/
def blank (line : List Char) : List Char := List.replicate (byteLength line) ' '

theorem newline_not_mem_blank (line : List Char) : '\n' ∉ blank line := by
  simp [blank]

theorem byteLength_blank (line : List Char) : byteLength (blank line) = byteLength line := by
  unfold blank
  induction byteLength line with
  | zero => rfl
  | succ count ih =>
      have hspace : ' '.utf8Size = 1 := rfl
      rw [List.replicate_succ, byteLength_cons, ih, hspace, Nat.add_comm]

end Text

theorem Feed.errors_empty : Feed.empty.errors = [] := rfl

/-! ## Scanning lines -/

namespace Scan

variable {code : Code} {state : State} {cs line tail : List Char}

/-- What is delivered first is first in its line if nothing else of that line was. -/
theorem firstInLine_of_feedFrom (h : state.firstInLine = true) :
    ∀ t ∈ (feedFrom code state cs).tokens.head?, t.firstInLine = true := by
  fun_induction feedFrom code state cs with
  | case1 => simp [Feed.tokens]
  | case2 state cs gap state' c rest hrest lexeme hlexeme later =>
      simp [Feed.tokens, State.deliver, state', State.skip, h]
  | case3 state cs gap state' c rest hrest hnone ih =>
      exact ih (by simp [State.reject, state', State.skip, h])

/-- What a text delivers from the end of a line on. -/
def behind (code : Code) (offset : Nat) : List Char → Feed
  | [] => .empty
  | _ :: rest => feedFrom code (.line (offset + 1)) rest

theorem firstInLine_of_behind (offset : Nat) :
    ∀ t ∈ (behind code offset tail).tokens.head?, t.firstInLine = true := by
  cases tail with
  | nil => simp [behind, Feed.tokens, Feed.empty]
  | cons c rest => exact firstInLine_of_feedFrom rfl

/-- A line delivers what is in it, wherever the text ends. -/
theorem feedFrom_line (hline : Closed (feedFrom code state line))
    (htail : ∀ c ∈ tail.head?, c = '\n') :
    (feedFrom code state (line ++ tail)).tokens = (feedFrom code state line).tokens ++
        (behind code (state.offset + byteLength line) tail).tokens ∧
      (feedFrom code state (line ++ tail)).errors = (feedFrom code state line).errors ++
        (behind code (state.offset + byteLength line) tail).errors := by
  cases tail with
  | nil => simp [behind, Feed.empty, Feed.tokens, Feed.errors]
  | cons c rest =>
      obtain rfl : c = '\n' := htail c rfl
      exact feedFrom_lines code state hline rest

theorem feedFrom_line_blank (code : Code) (offset : Nat) (line : List Char) :
    feedFrom code (.line offset) (blank line) = .empty := by
  rw [← List.append_nil (blank line), blank, feedFrom_spaces, feedFrom_nil]
  rfl

theorem unclosed_of_no_opener (h : ¬ ['/', '*'] <:+: cs) : (gap cs).unclosed = none := by
  fun_induction gap cs with
  | case1 => rfl
  | case2 rest ih =>
      have hsuffix : rest.dropWhile (· != '\n') <:+ '/' :: '/' :: rest :=
        (List.dropWhile_suffix _).trans ⟨['/', '/'], rfl⟩
      exact ih fun hopener => h (hopener.trans hsuffix.isInfix)
  | case3 rest => exact absurd ⟨[], rest, rfl⟩ h
  | case4 rest => exact absurd ⟨[], rest, rfl⟩ h
  | case5 c rest _ _ _ ih =>
      exact ih fun hopener => h (hopener.trans (List.suffix_cons c rest).isInfix)
  | case6 => rfl

/-- No comment is open at the end of a text in which none is opened. -/
theorem closed_of_no_opener (h : ¬ ['/', '*'] <:+: cs)
    (hstate : ∀ e ∈ state.errors, e.cause ≠ .lexical .unclosedComment) :
    Closed (feedFrom code state cs) := by
  have hskip (state : State) {cs : List Char} (h : ¬ ['/', '*'] <:+: cs) :
      (state.skip code (gap cs)).errors = state.errors := by
    simp [State.skip, unclosed_of_no_opener h]
  fun_induction feedFrom code state cs with
  | case1 state cs gap state' hrest =>
      have herrors : state'.errors = state.errors := hskip state h
      intro e he
      rw [Feed.errors, List.flatMap_nil, List.nil_append, herrors] at he
      exact hstate e he
  | case2 state cs gap state' c rest hrest lexeme hlexeme later ih =>
      have herrors : state'.errors = state.errors := hskip state h
      have hsuffix : lexeme.rest <:+ cs := by
        have hgap : gap.rest <:+ cs := ⟨gap.text, gap_append cs⟩
        rw [hrest, ← lexeme?_append hlexeme] at hgap
        exact (List.suffix_append _ _).trans hgap
      have hlater : Closed later :=
        ih (fun hopener => h (hopener.trans hsuffix.isInfix)) (List.forall_mem_nil _)
      intro e he
      rcases List.mem_append.1 (Feed.errors_cons .. ▸ he) with he | he
      · simp only [State.deliver, herrors] at he
        rcases List.mem_append.1 he with he | he
        · exact hstate e he
        · split at he
          · obtain rfl := List.mem_singleton.1 he
            intro hcause
            cases hcause
          · cases he
      · exact hlater e he
  | case3 state cs gap state' c rest hrest hnone ih =>
      have herrors : state'.errors = state.errors := hskip state h
      have hsuffix : rest <:+ cs := by
        have hgap : gap.rest <:+ cs := ⟨gap.text, gap_append cs⟩
        rw [hrest] at hgap
        exact (List.suffix_cons c rest).trans hgap
      refine ih (fun hopener => h (hopener.trans hsuffix.isInfix)) fun e he => ?_
      simp only [State.reject, herrors] at he
      rcases List.mem_append.1 he with he | he
      · exact hstate e he
      · obtain rfl := List.mem_singleton.1 he
        intro hcause
        cases hcause

theorem no_opener_of_not_mem (h : '*' ∉ cs) : ¬ ['/', '*'] <:+: cs :=
  fun hopener => h (hopener.subset (by simp))

theorem closed_empty : Closed .empty := by
  simp [Closed, Feed.errors, Feed.empty]

variable (ρ : Code.Renaming)

theorem Closed.rename {feed : Feed} (h : Closed feed) : Closed (feed.rename ρ) := by
  intro e he
  rw [Feed.errors_rename] at he
  obtain ⟨found, hfound, rfl⟩ := List.mem_map.1 he
  exact h found hfound

theorem behind_rename (offset : Nat) (tail : List Char) :
    behind (ρ.map code) offset tail = (behind code offset tail).rename ρ := by
  cases tail with
  | nil => rfl
  | cons c rest => exact feedFrom_rename ρ code (.line (offset + 1)) rest

end Scan

/-! ## Definitions from outside -/

/-- The environment in front of a shader, with some definitions from outside. -/
def Environment.defined (definitions : List (String × String)) : Environment :=
  definitions.foldl (fun env d => env.defineText d.1 d.2 (.define d.1)) .predefined

theorem Environment.sections_defined (definitions : List (String × String)) :
    (defined definitions).sections = [] := by
  refine List.foldlRecOn definitions _ (motive := fun env : Environment => env.sections = []) rfl ?_
  exact fun _ h _ _ => h

theorem Preprocessor.defineAll_eq (definitions : List (String × String)) (feed : Feed)
    (env : Environment) : Preprocessor.defineAll ⟨[], ⟨[], ⟨feed, env⟩⟩⟩ definitions =
      ⟨[], ⟨[], ⟨feed,
        definitions.foldl (fun env d => env.defineText d.1 d.2 (.define d.1)) env⟩⟩⟩ := by
  induction definitions generalizing env with
  | nil => rfl
  | cons d definitions ih => exact ih _

/-! ## Lines in place -/

/-- What stands around a line of a shader text: the lines before it, up to the line break in front
of it, and what comes from its end on. -/
structure Surroundings where
  head : List Char
  tail : List Char
  firstLine : Nat
  origin : Origin

namespace Surroundings

variable (s : Surroundings) (definitions : List (String × String)) (line : List Char)

/-- The text with some line. -/
def fill : Code := ⟨s.head ++ '\n' :: (line ++ s.tail), s.firstLine, s.origin⟩

/-- What the lines before deliver. -/
def headFeed : Feed := Scan.feedFrom (s.fill line) .start s.head

/-- What the line delivers. -/
def lineFeed : Feed := Scan.feedFrom (s.fill line) (.line (byteLength s.head + 1)) line

/-- What comes behind the line. -/
def tailFeed : Feed :=
  Scan.behind (s.fill line) (byteLength s.head + 1 + byteLength line) s.tail

/-- The text is about to be read. -/
def queue : Queue Reader :=
  ((Preprocessor.ofFeed (s.fill line).scan).defineAll definitions).queue

/-- A line that is in a deselected group and carries no directive. -/
structure Deselects : Prop where
  newline : '\n' ∉ line
  ends : ∀ c ∈ s.tail.head?, c = '\n'
  /-- The line does not begin inside a comment. -/
  outside : Scan.Closed (s.headFeed line)
  /-- The line does not open a comment that goes on behind it. -/
  closed : Scan.Closed (s.lineFeed line)
  plain : ∀ t ∈ (s.lineFeed line).tokens, Reader.startsDirective t = false
  deselected :
    ((s.queue definitions line).later.env.through (s.headFeed line).tokens).isActive = false

variable {s line}

theorem scan_fill (houtside : Scan.Closed (s.headFeed line))
    (hclosed : Scan.Closed (s.lineFeed line)) (hends : ∀ c ∈ s.tail.head?, c = '\n') :
    (s.fill line).scan.tokens = (s.headFeed line).tokens ++
        ((s.lineFeed line).tokens ++ (s.tailFeed line).tokens) ∧
      (s.fill line).scan.errors = (s.headFeed line).errors ++
        ((s.lineFeed line).errors ++ (s.tailFeed line).errors) := by
  obtain ⟨htokens, herrors⟩ := Scan.feedFrom_lines (s.fill line) .start houtside (line ++ s.tail)
  obtain ⟨htokens', herrors'⟩ := Scan.feedFrom_line hclosed hends
  simp only [Scan.State.start, Nat.zero_add] at htokens herrors
  rw [htokens'] at htokens
  rw [herrors'] at herrors
  exact ⟨htokens, herrors⟩

theorem line_fill (hline : '\n' ∉ line) (index : Nat) :
    ((s.fill line).lineColumn index).1 = ((s.fill (blank line)).lineColumn index).1 := by
  have hlines : ∀ size, (takeUpTo size (line ++ s.tail)).count '\n' =
      (takeUpTo size (blank line ++ s.tail)).count '\n' := by
    intro size
    rw [count_takeUpTo_line hline, count_takeUpTo_line (newline_not_mem_blank line),
      byteLength_blank]
  have hcount := count_takeUpTo_append (count_takeUpTo_append hlines ['\n']) s.head index
  rw [Code.lineColumn_eq, Code.lineColumn_eq]
  exact congrArg (fun count => (s.firstLine + count) % UInt64.size) hcount

variable (s line) in
/-- The text with the line blank takes the place of the text with the line. -/
def blanking (hline : '\n' ∉ line) : Code.Renaming :=
  .swap (s.fill line) (s.fill (blank line)) (line_fill hline) rfl

section

variable (hline : '\n' ∉ line)

theorem map_blanking : (s.blanking line hline).map (s.fill line) = s.fill (blank line) :=
  Equiv.swap_apply_left _ _

theorem headFeed_blank :
    s.headFeed (blank line) = (s.headFeed line).rename (s.blanking line hline) := by
  rw [headFeed, ← map_blanking hline]
  exact Scan.feedFrom_rename _ _ .start _

theorem tailFeed_blank :
    s.tailFeed (blank line) = (s.tailFeed line).rename (s.blanking line hline) := by
  rw [tailFeed, ← map_blanking hline, byteLength_blank]
  exact Scan.behind_rename _ _ _

end

theorem lineFeed_blank : s.lineFeed (blank line) = .empty := Scan.feedFrom_line_blank _ _ _

theorem queue_eq :
    s.queue definitions line = ⟨[], ⟨(s.fill line).scan, .defined definitions⟩⟩ := by
  rw [queue, Preprocessor.ofFeed, Preprocessor.defineAll_eq]
  rfl

variable {definitions}

theorem Deselects.follows (h : s.Deselects definitions line) :
    (s.queue definitions line).Follows (s.blanking line h.newline)
      (Reader.Follows (s.blanking line h.newline) ((s.lineFeed line).errors.map Located.bare))
      (s.queue definitions (blank line)) := by
  obtain ⟨htokens, herrors⟩ := scan_fill h.outside h.closed h.ends
  have houtside : Scan.Closed (s.headFeed (blank line)) := by
    rw [headFeed_blank h.newline]
    exact h.outside.rename _
  have hclosed : Scan.Closed (s.lineFeed (blank line)) := by
    rw [lineFeed_blank]
    exact Scan.closed_empty
  obtain ⟨htokens', herrors'⟩ := scan_fill houtside hclosed h.ends
  rw [headFeed_blank h.newline, tailFeed_blank h.newline, lineFeed_blank] at htokens' herrors'
  have hdeselected := h.deselected
  rw [queue_eq] at hdeselected ⊢
  rw [queue_eq]
  refine ⟨rfl, ⟨⟨rfl, ?_⟩, ?_⟩, (s.headFeed line).tokens ++ (s.tailFeed line).tokens, ?_, ?_⟩
  · simp [Environment.sections_defined]
  · simp only [Reader.allErrors, herrors, herrors', Feed.errors_rename, List.map_append,
      List.map_map, Function.comp_def, Located.bare_rename, List.append_assoc]
    refine .append_left _ (.append_left _ ?_)
    rw [Feed.errors_empty, List.map_nil, List.nil_append]
    exact List.perm_append_comm
  · rw [htokens]
    refine Reader.Skips.of_append hdeselected h.plain ?_ (Scan.firstInLine_of_behind _)
    have hfirst : ∀ t ∈ (Scan.feedFrom (s.fill line) (.line (byteLength s.head + 1))
        (line ++ s.tail)).tokens.head?, t.firstInLine = true := Scan.firstInLine_of_feedFrom rfl
    rw [(Scan.feedFrom_line h.closed h.ends).1] at hfirst
    exact hfirst
  · rw [htokens', Feed.tokens_rename, Feed.tokens_rename, List.map_append]
    rfl

/-- **Deselected lines**: if the shader comes to an end with the line blank, then it does so with
the line, after the same tokens at the same places. The errors are the same too, at the same places,
but for those that the scan finds in the characters of the line, which all come on top. -/
theorem Deselects.expands_of_blank (h : s.Deselects definitions line) {ts : List Token}
    {last : Queue Reader} (hends : (s.queue definitions (blank line)).Expands ts last) :
    ∃ us last', (s.queue definitions line).Expands us last' ∧
      us.map Token.bare = ts.map Token.bare ∧
      (last'.later.env.errors.map Located.bare).Perm
        (last.later.env.errors.map Located.bare ++ (s.lineFeed line).errors.map Located.bare) := by
  obtain ⟨us, last', hexpands, rfl, hlast⟩ := hends.of_follows h.follows
  refine ⟨us, last', hexpands, by simp [Function.comp_def], ?_⟩
  have herrors := hlast.later.agrees.errors
  rwa [Reader.allErrors, Reader.allErrors, hexpands.feed_last, hends.feed_last, Feed.errors_empty,
    List.append_nil, List.append_nil] at herrors

/-- A deselected line between the parentheses of an invocation, with a character in it that starts
no token. -/
theorem expands_of_blank_invocation :
    let s : Surroundings := ⟨"#define twice(x) x x\ntwice(\n#if 0".toList,
      "\n#endif\n__LINE__)".toList, 1, .unknown⟩
    let line := "1 @ twice".toList
    s.Deselects [] line ∧ ∃ ts last, (s.queue [] (blank line)).Expands ts last ∧
      ts.map Token.text = ["2", "2"] ∧ last.later.env.errors.map Located.cause = [] ∧
      ∃ us last', (s.queue [] line).Expands us last' ∧ us.map Token.bare = ts.map Token.bare ∧
        (last'.later.env.errors.map Located.bare).Perm
          (last.later.env.errors.map Located.bare ++
            (s.lineFeed line).errors.map Located.bare) := by
  intro s line
  have hends : s.tail.head? = some '\n' := by decide +kernel
  have hdeselects : s.Deselects [] line := by
    refine ⟨by decide +kernel, fun c hc => Option.some.inj (hc.symm.trans hends), ?_, ?_, ?_, ?_⟩
    · refine Scan.closed_of_no_opener (Scan.no_opener_of_not_mem ?_) (List.forall_mem_nil _)
      decide +kernel
    · refine Scan.closed_of_no_opener (Scan.no_opener_of_not_mem ?_) (List.forall_mem_nil _)
      decide +kernel
    · decide +kernel
    · decide +kernel
  have hrun : ((s.queue [] (blank line)).expansion? 3).map (fun r =>
      (r.1.map Token.text, r.2.later.env.errors.map Located.cause)) = some (["2", "2"], []) := by
    decide +kernel
  obtain ⟨⟨ts, last⟩, hexpansion, hshown⟩ := Option.map_eq_some_iff.1 hrun
  obtain ⟨htexts, herrors⟩ := Prod.mk.inj hshown
  have hexpands := Queue.expands_of_expansion? hexpansion
  exact ⟨hdeselects, ts, last, hexpands, htexts, herrors, hdeselects.expands_of_blank hexpands⟩

/-- An error is reported in a line that does not count, and none once the line is blank. -/
theorem errors_of_deselected_line :
    let s : Surroundings := ⟨"#if 0".toList, "\n#endif\ny".toList, 1, .unknown⟩
    let line := "@".toList
    s.Deselects [] line ∧
      (∃ ts last, (s.queue [] (blank line)).Expands ts last ∧
        last.later.env.errors.map Located.cause = []) ∧
      ∃ us last', (s.queue [] line).Expands us last' ∧
        last'.later.env.errors.map Located.cause = [.lexical (.invalidCharacter '@')] := by
  intro s line
  have hends : s.tail.head? = some '\n' := by decide +kernel
  have hblank : ((s.queue [] (blank line)).expansion? 2).map (fun r =>
      r.2.later.env.errors.map Located.cause) = some [] := by decide +kernel
  have hline : ((s.queue [] line).expansion? 2).map (fun r =>
      r.2.later.env.errors.map Located.cause) = some [.lexical (.invalidCharacter '@')] := by
    decide +kernel
  obtain ⟨⟨ts, last⟩, hexpansion, herrors⟩ := Option.map_eq_some_iff.1 hblank
  obtain ⟨⟨us, last'⟩, hexpansion', herrors'⟩ := Option.map_eq_some_iff.1 hline
  have hdeselects : s.Deselects [] line := by
    refine ⟨by decide +kernel, fun c hc => Option.some.inj (hc.symm.trans hends), ?_, ?_, ?_, ?_⟩
    · refine Scan.closed_of_no_opener (Scan.no_opener_of_not_mem ?_) (List.forall_mem_nil _)
      decide +kernel
    · refine Scan.closed_of_no_opener (Scan.no_opener_of_not_mem ?_) (List.forall_mem_nil _)
      decide +kernel
    · decide +kernel
    · decide +kernel
  exact ⟨hdeselects, ⟨ts, last, Queue.expands_of_expansion? hexpansion, herrors⟩,
    ⟨us, last', Queue.expands_of_expansion? hexpansion', herrors'⟩⟩

end Surroundings

end Essl
