import Essl.Proofs.Token.Places
import Essl.Proofs.Token.Respelling

/-!
# Scanning line by line

No token goes past the end of a line, and no gap does so unless it opens a comment that is still
open there. So what a text delivers is what its lines deliver one after the other, if no comment is
open where they meet.
-/

namespace Essl

open Text

/-! ## What does not go on -/

theorem takeWhile_append_of_head? {α : Type} {p : α → Bool} {b : List α}
    (hb : ∀ c ∈ b.head?, p c = false) (a : List α) : (a ++ b).takeWhile p = a.takeWhile p := by
  have hstop : b.takeWhile p = [] := by
    cases b with
    | nil => rfl
    | cons c b => simp [hb c rfl]
  rw [List.takeWhile_append]
  split
  · rename_i hall
    rw [hstop, List.append_nil, (List.takeWhile_prefix p).eq_of_length hall]
  · rfl

theorem dropWhile_append_of_head? {α : Type} {p : α → Bool} {b : List α}
    (hb : ∀ c ∈ b.head?, p c = false) (a : List α) :
    (a ++ b).dropWhile p = a.dropWhile p ++ b := by
  have hsplit := List.takeWhile_append_dropWhile (p := p) (l := a ++ b)
  rw [takeWhile_append_of_head? hb] at hsplit
  apply List.append_cancel_left
  rw [hsplit, ← List.append_assoc, List.takeWhile_append_dropWhile]

namespace Scan

/-- What is read of a text without a line break is read of the line before one. -/
theorem prefix_of_newline_not_mem {read cs rest : List Char} (h : read <+: cs ++ '\n' :: rest)
    (hread : '\n' ∉ read) : read <+: cs := by
  have hline : cs ++ ['\n'] <+: cs ++ '\n' :: rest := ⟨rest, by simp⟩
  rcases List.prefix_or_prefix_of_prefix h hline with h | h
  · rcases List.prefix_concat_iff.1 h with rfl | h
    · exact absurd (by simp) hread
    · exact h
  · exact absurd (h.subset (by simp)) hread

theorem newline_not_mem_takeWhile {p : Char → Bool} (hp : p '\n' = false) (cs : List Char) :
    '\n' ∉ cs.takeWhile p := by
  intro h
  rw [List.mem_takeWhile_imp h] at hp
  cases hp

/-! ## Lexemes -/

theorem newline_not_mem_fraction (cs : List Char) : '\n' ∉ fraction cs := by
  unfold fraction
  split
  · simpa using newline_not_mem_takeWhile (by decide) _
  · simp

theorem newline_not_mem_exponent (cs : List Char) : '\n' ∉ exponent cs := by
  unfold exponent
  split
  · rename_i e rest
    split
    · rename_i he
      dsimp only
      split
      · simp
      · have hletter : '\n' ≠ e := by rintro rfl; exact absurd he (by decide)
        simp only [List.mem_cons, List.mem_append, List.mem_filter, not_or]
        exact ⟨hletter, fun h => absurd h.2 (by decide), newline_not_mem_takeWhile (by decide) _⟩
    · simp
  · simp

theorem newline_not_mem_numeral (cs : List Char) : '\n' ∉ (numeral cs).2 := by
  by_cases hhex : ∃ x rest, IsHexMark x ∧ cs = '0' :: x :: rest
  · obtain ⟨x, rest, hx, rfl⟩ := hhex
    rw [numeral_hex hx]
    have hmark : '\n' ≠ x := by rintro rfl; obtain hx | hx := hx <;> cases hx
    simpa [hmark] using newline_not_mem_takeWhile (by decide) _
  · rw [numeral_decimal fun x rest hx heq => hhex ⟨x, rest, hx, heq⟩]
    simp only [List.mem_append, not_or]
    exact ⟨⟨newline_not_mem_takeWhile (by decide) _, newline_not_mem_fraction _⟩,
      newline_not_mem_exponent _⟩

theorem numeral_newline (cs rest : List Char) : numeral (cs ++ '\n' :: rest) = numeral cs := by
  have hprefix : (numeral (cs ++ '\n' :: rest)).2 <+: cs :=
    prefix_of_newline_not_mem (numeral_isPrefix _) (newline_not_mem_numeral _)
  have hsame : numeral (cs ++ []) = numeral (cs ++ '\n' :: rest) :=
    numeral_append (by simp [SetsApart]) hprefix.length_le
  rw [← hsame, List.append_nil]

/-- The lexeme with more text behind it. -/
def Lexeme.before (rest : List Char) (lexeme : Lexeme) : Lexeme :=
  { lexeme with rest := lexeme.rest ++ rest }

theorem number_newline (cs rest : List Char) :
    number (cs ++ '\n' :: rest) = (number cs).before ('\n' :: rest) := by
  have hdigits : (numeral cs).2.length ≤ cs.length := (numeral_isPrefix cs).length_le
  have hstop : ∀ c ∈ ('\n' :: rest).head?, isWordPart c = false := by simp; decide
  have hlength : (number cs).text.length ≤ cs.length := by
    have := congrArg List.length (number_append cs)
    rw [List.length_append] at this
    omega
  simp only [number] at hlength
  simp only [number, numeral_newline, List.drop_append_of_le_length hdigits,
    takeWhile_append_of_head? hstop, Lexeme.before, List.drop_append_of_le_length hlength]

theorem word_newline (cs rest : List Char) :
    word (cs ++ '\n' :: rest) = (word cs).before ('\n' :: rest) := by
  have hstop : ∀ c ∈ ('\n' :: rest).head?, isWordPart c = false := by simp; decide
  simp only [word, takeWhile_append_of_head? hstop, dropWhile_append_of_head? hstop, Lexeme.before]

theorem longestAt_newline (cs rest : List Char) :
    Operator.longestAt (cs ++ '\n' :: rest) = Operator.longestAt cs := by
  unfold Operator.longestAt
  congr 1
  funext op
  have hspelling : '\n' ∉ op.spelling := by cases op <;> decide
  rw [Bool.eq_iff_iff, List.isPrefixOf_iff_prefix, List.isPrefixOf_iff_prefix]
  exact ⟨fun h => prefix_of_newline_not_mem h hspelling, fun h => h.trans (List.prefix_append _ _)⟩

theorem startsNumber_newline {cs : List Char} (h : cs ≠ []) (rest : List Char) :
    startsNumber (cs ++ '\n' :: rest) = startsNumber cs := by
  match cs with
  | [c] =>
      by_cases hc : c = '.'
      · subst hc
        rfl
      · rw [List.singleton_append, startsNumber_cons hc, startsNumber_cons hc]
  | c :: d :: cs =>
      by_cases hc : c = '.'
      · subst hc
        rfl
      · rw [List.cons_append, startsNumber_cons hc, startsNumber_cons hc]

theorem startsWord_append {cs : List Char} (h : cs ≠ []) (rest : List Char) :
    startsWord (cs ++ rest) = startsWord cs := by
  cases cs with
  | nil => exact absurd rfl h
  | cons c cs => rfl

theorem lexeme?_newline {cs : List Char} (h : cs ≠ []) (rest : List Char) :
    lexeme? (cs ++ '\n' :: rest) = (lexeme? cs).map (Lexeme.before ('\n' :: rest)) := by
  unfold lexeme?
  rw [startsNumber_newline h, startsWord_append h, number_newline, word_newline, longestAt_newline]
  split
  · rfl
  · split
    · rfl
    · cases hop : Operator.longestAt cs with
      | none => rfl
      | some op =>
          have hprefix : op.spelling <+: cs := by simpa using List.find?_some hop
          simp [Lexeme.before, List.drop_append_of_le_length hprefix.length_le]

/-! ## Gaps -/

theorem gap_blank {c : Char} (hc : isBlank c = true) (cs : List Char) :
    gap (c :: cs) = (gap cs).after [c] := by
  have hslash : c ≠ '/' := by rintro rfl; exact absurd hc (by decide)
  generalize htext : c :: cs = text
  fun_cases gap text with
  | case1 => cases htext
  | case2 => exact absurd (List.cons.inj htext).1 hslash
  | case3 => exact absurd (List.cons.inj htext).1 hslash
  | case4 => exact absurd (List.cons.inj htext).1 hslash
  | case5 =>
      obtain ⟨rfl, rfl⟩ := List.cons.inj htext
      rfl
  | case6 _ _ _ _ hblank =>
      obtain ⟨rfl, rfl⟩ := List.cons.inj htext
      exact absurd hc hblank

theorem gap_lineComment (cs : List Char) : gap ('/' :: '/' :: cs) =
    (gap (cs.dropWhile (· != '\n'))).after ('/' :: '/' :: cs.takeWhile (· != '\n')) := by
  generalize htext : '/' :: '/' :: cs = text
  fun_cases gap text with
  | case1 => cases htext
  | case2 =>
      obtain rfl := (List.cons.inj (List.cons.inj htext).2).2
      rfl
  | case3 => cases htext
  | case4 => cases htext
  | case5 _ _ hline =>
      obtain ⟨rfl, rfl⟩ := List.cons.inj htext
      exact (hline cs rfl rfl).elim
  | case6 _ _ hline =>
      obtain ⟨rfl, rfl⟩ := List.cons.inj htext
      exact (hline cs rfl rfl).elim

theorem gap_comment {cs inside after : List Char} (h : closeComment? cs = some (inside, after)) :
    gap ('/' :: '*' :: cs) = (gap after).after ('/' :: '*' :: inside) := by
  generalize htext : '/' :: '*' :: cs = text
  fun_cases gap text with
  | case1 => cases htext
  | case2 => cases htext
  | case3 _ _ _ hclose =>
      obtain rfl := (List.cons.inj (List.cons.inj htext).2).2
      obtain ⟨rfl, rfl⟩ := Prod.mk.inj (Option.some.inj (h.symm.trans hclose))
      rfl
  | case4 _ hnone =>
      obtain rfl := (List.cons.inj (List.cons.inj htext).2).2
      cases h.symm.trans hnone
  | case5 _ _ _ hblock =>
      obtain ⟨rfl, rfl⟩ := List.cons.inj htext
      exact (hblock cs rfl rfl).elim
  | case6 _ _ _ hblock =>
      obtain ⟨rfl, rfl⟩ := List.cons.inj htext
      exact (hblock cs rfl rfl).elim

/-- The gap with more text behind it, which goes on with it if nothing else comes in between. -/
def Gap.before (rest : List Char) (start : Gap) : Gap :=
  match start.rest with
  | [] => (gap rest).after start.text
  | c :: cs => ⟨start.text, c :: cs ++ rest, none⟩

theorem Gap.before_after (rest text : List Char) (start : Gap) :
    (start.after text).before rest = (start.before rest).after text := by
  obtain ⟨inside, _ | ⟨c, cs⟩, unclosed⟩ := start <;> simp [Gap.before, Gap.after]

theorem closeComment?_before {cs inside after : List Char}
    (h : closeComment? cs = some (inside, after)) (rest : List Char) :
    closeComment? (cs ++ rest) = some (inside, after ++ rest) := by
  fun_induction closeComment? cs generalizing inside after with
  | case1 => cases h
  | case2 tail =>
      simp only [Option.some.injEq, Prod.mk.injEq] at h
      obtain ⟨rfl, rfl⟩ := h
      rfl
  | case3 c tail hopen ih =>
      obtain ⟨⟨a, b⟩, hfound, heq⟩ := Option.map_eq_some_iff.1 h
      simp only [Prod.mk.injEq] at heq
      obtain ⟨rfl, rfl⟩ := heq
      -- What follows does not close the comment at once, as the end of it is still to come.
      have hopen' : ∀ more, c = '*' → tail ++ rest = '/' :: more → False := by
        intro more hc hmore
        cases tail with
        | nil => cases hfound
        | cons d tail => exact hopen tail hc (by rw [(List.cons.inj hmore).1])
      rw [List.cons_append, closeComment?, ih hfound]
      · rfl
      · exact hopen'

theorem gap_newline {cs : List Char} (h : (gap cs).unclosed = none) (rest : List Char) :
    gap (cs ++ '\n' :: rest) = (gap cs).before ('\n' :: rest) := by
  fun_induction gap cs with
  | case1 => simp [Gap.before, Gap.after]
  | case2 tail ih =>
      have hstop : ∀ c ∈ ('\n' :: rest).head?, (c != '\n') = false := by simp
      rw [Gap.before_after, ← ih h, List.cons_append, List.cons_append, gap_lineComment,
        takeWhile_append_of_head? hstop, dropWhile_append_of_head? hstop]
  | case3 tail inside after hclose ih =>
      rw [Gap.before_after, ← ih h, List.cons_append, List.cons_append,
        gap_comment (closeComment?_before hclose ('\n' :: rest))]
  | case4 => cases h
  | case5 c tail hline hblock hblank ih =>
      rw [Gap.before_after, ← ih h, List.cons_append, gap_blank hblank]
  | case6 c tail hline hblock hblank =>
      have hbare : Bare (c :: tail ++ '\n' :: rest) := by
        refine ⟨by simpa using hblank, fun hprefix => ?_, fun hprefix => ?_⟩
        · obtain ⟨after, hafter⟩ := prefix_of_newline_not_mem hprefix (by decide)
          obtain ⟨hc, htail⟩ := List.cons.inj hafter
          exact hline after hc.symm htail.symm
        · obtain ⟨after, hafter⟩ := prefix_of_newline_not_mem hprefix (by decide)
          obtain ⟨hc, htail⟩ := List.cons.inj hafter
          exact hblock after hc.symm htail.symm
      rw [hbare.gap_eq]
      rfl

/-! ## The scan -/

/-- What a scan does after its first gap. -/
theorem feedFrom_eq (code : Code) (state : State) (cs : List Char) :
    feedFrom code state cs =
      (let state := state.skip code (gap cs)
       match (gap cs).rest with
       | [] => ⟨[], state.errors⟩
       | c :: rest =>
         match lexeme? (c :: rest) with
         | some lexeme =>
           let later := feedFrom code (state.advance lexeme) lexeme.rest
           ⟨state.deliver code lexeme :: later.deliveries, later.trailing⟩
         | none => feedFrom code (state.reject code c) rest) := by
  fun_cases feedFrom code state cs with
  | case1 gap state' hrest => simp [gap, hrest, state']
  | case2 gap state' c rest hrest lexeme hlexeme later => simp [gap, hrest, hlexeme, later, state']
  | case3 gap state' c rest hrest hnone => simp [gap, hrest, hnone, state']

theorem feedFrom_congr {code : Code} {state state' : State} {cs cs' : List Char}
    (hrest : (gap cs).rest = (gap cs').rest)
    (hskip : state.skip code (gap cs) = state'.skip code (gap cs')) :
    feedFrom code state cs = feedFrom code state' cs' := by
  rw [feedFrom_eq, feedFrom_eq code state', hrest, hskip]

/-- The state with some white space or comments behind it. -/
def State.past (text : List Char) (state : State) : State :=
  ⟨state.offset + byteLength text, state.firstInLine || text.contains '\n',
    state.afterSpace || !text.isEmpty, state.errors⟩

theorem State.skip_after (code : Code) (state : State) (gap : Gap) (text : List Char) :
    state.skip code (gap.after text) = (state.past text).skip code gap := by
  cases text <;> simp [State.skip, State.past, Gap.after, Nat.add_assoc, Bool.or_assoc]

/-- White space is moved over. -/
theorem feedFrom_blank (code : Code) (state : State) {c : Char} (hc : isBlank c = true)
    (cs : List Char) : feedFrom code state (c :: cs) = feedFrom code (state.past [c]) cs := by
  refine feedFrom_congr ?_ ?_
  · rw [gap_blank hc]
    rfl
  · rw [gap_blank hc, State.skip_after]

theorem feedFrom_spaces (code : Code) (state : State) (count : Nat) (cs : List Char) :
    feedFrom code state (List.replicate count ' ' ++ cs) =
      feedFrom code (state.past (List.replicate count ' ')) cs := by
  induction count generalizing state with
  | zero => simp [State.past]
  | succ count ih =>
      rw [List.replicate_succ, List.cons_append, feedFrom_blank code state isBlank_space, ih]
      simp [State.past, Nat.add_assoc]

/-- The state with errors found earlier. -/
def State.after (earlier : List FrontError) (state : State) : State :=
  { state with errors := earlier ++ state.errors }

/-- Errors that wait to be delivered are delivered first. -/
theorem feedFrom_after (code : Code) (earlier : List FrontError) (state : State) (cs : List Char) :
    (feedFrom code (state.after earlier) cs).tokens = (feedFrom code state cs).tokens ∧
      (feedFrom code (state.after earlier) cs).errors =
        earlier ++ (feedFrom code state cs).errors := by
  fun_induction feedFrom code state cs with
  | case1 state cs gap state' hrest =>
      rw [feedFrom_eq]
      simp [gap, hrest, state', State.after, State.skip, Feed.tokens, Feed.errors]
  | case2 state cs gap state' c rest hrest lexeme hlexeme later ih =>
      rw [feedFrom_eq]
      simp [gap, hrest, hlexeme, later, state', State.after, State.skip, State.deliver, Feed.tokens,
        Feed.errors, State.advance]
  | case3 state cs gap state' c rest hrest hnone ih =>
      have hreject : ((state.after earlier).skip code gap).reject code c =
          (state'.reject code c).after earlier := by
        simp [state', State.after, State.skip, State.reject]
      rw [feedFrom_eq]
      simp only [gap] at hrest hreject
      simp only [hrest, hnone, hreject, ih]
      simp

/-- The state at the beginning of a line that is not the first one. -/
def State.line (offset : Nat) : State := ⟨offset, true, true, []⟩

/-- No comment is open at the end of a feed. -/
def Closed (feed : Feed) : Prop := ∀ e ∈ feed.errors, e.cause ≠ .lexical .unclosedComment

theorem unclosed_of_rest {cs : List Char} (h : (gap cs).rest ≠ []) : (gap cs).unclosed = none := by
  fun_induction gap cs with
  | case1 => rfl
  | case2 _ ih => exact ih h
  | case3 _ _ _ _ ih => exact ih h
  | case4 => exact absurd rfl h
  | case5 _ _ _ _ _ ih => exact ih h
  | case6 => rfl

theorem unclosed_of_closed {code : Code} {state : State} {cs : List Char}
    (h : Closed (feedFrom code state cs)) : (gap cs).unclosed = none := by
  by_cases hrest : (gap cs).rest = []
  · cases hcomment : (gap cs).unclosed with
    | none => rfl
    | some comment =>
        rw [feedFrom_eq] at h
        simp only [hrest, State.skip, hcomment] at h
        have hlast := h _ (List.mem_append_right _ (List.mem_append_right _
          (List.mem_singleton_self _)))
        exact absurd rfl hlast
  · exact unclosed_of_rest hrest

/-- What follows the line break begins a line of its own, if nothing is delivered in front. -/
theorem feedFrom_newline_nil (code : Code) (state : State) {cs : List Char}
    (hunclosed : (gap cs).unclosed = none) (hrest : (gap cs).rest = []) (rest : List Char) :
    feedFrom code state (cs ++ '\n' :: rest) =
      feedFrom code ((State.line (state.offset + byteLength cs + 1)).after state.errors) rest := by
  have hsplit := gap_append cs
  have hgap := gap_newline hunclosed rest
  rw [hrest, List.append_nil] at hsplit
  simp only [Gap.before, hrest, hsplit] at hgap
  have hstate : (state.past cs).past ['\n'] =
      (State.line (state.offset + byteLength cs + 1)).after state.errors := by
    simp [State.past, State.line, State.after, byteLength]
    rfl
  rw [← hstate, ← feedFrom_blank code _ isBlank_newline]
  refine feedFrom_congr ?_ ?_
  · rw [hgap]
    rfl
  · rw [hgap, State.skip_after]

theorem feedFrom_newline_cons (code : Code) (state : State) {cs tail : List Char} {c : Char}
    (hrest : (gap cs).rest = c :: tail) (rest : List Char) :
    feedFrom code state (cs ++ '\n' :: rest) =
      (let state := state.skip code (gap cs)
       match lexeme? (c :: tail) with
       | some lexeme =>
         let later := feedFrom code (state.advance lexeme) (lexeme.rest ++ '\n' :: rest)
         ⟨state.deliver code lexeme :: later.deliveries, later.trailing⟩
       | none => feedFrom code (state.reject code c) (tail ++ '\n' :: rest)) := by
  have hunclosed : (gap cs).unclosed = none := unclosed_of_rest (by simp [hrest])
  have hgap : gap (cs ++ '\n' :: rest) = ⟨(gap cs).text, c :: (tail ++ '\n' :: rest), none⟩ := by
    rw [gap_newline hunclosed, Gap.before, hrest]
    rfl
  have hskip : state.skip code ⟨(gap cs).text, c :: (tail ++ '\n' :: rest), none⟩ =
      state.skip code (gap cs) := by
    simp [State.skip, hunclosed]
  rw [feedFrom_eq, hgap, hskip]
  dsimp only
  rw [← List.cons_append, lexeme?_newline (by simp)]
  cases lexeme? (c :: tail) <;> rfl

/-- A line delivers what is in front of it, and the lines behind it begin anew. -/
theorem feedFrom_lines (code : Code) (state : State) {cs : List Char}
    (h : Closed (feedFrom code state cs)) (rest : List Char) :
    (feedFrom code state (cs ++ '\n' :: rest)).tokens = (feedFrom code state cs).tokens ++
        (feedFrom code (.line (state.offset + byteLength cs + 1)) rest).tokens ∧
      (feedFrom code state (cs ++ '\n' :: rest)).errors = (feedFrom code state cs).errors ++
        (feedFrom code (.line (state.offset + byteLength cs + 1)) rest).errors := by
  have hunclosed := unclosed_of_closed h
  have hlength := congrArg byteLength (gap_append cs)
  rw [byteLength_append] at hlength
  fun_induction feedFrom code state cs with
  | case1 state cs gap state' hrest =>
      obtain ⟨htokens, herrors⟩ :=
        feedFrom_after code state.errors (.line (state.offset + byteLength cs + 1)) rest
      rw [feedFrom_newline_nil code state hunclosed hrest, htokens, herrors]
      simp [Feed.tokens, Feed.errors, state', gap, State.skip, hunclosed]
  | case2 state cs gap state' c tail hrest lexeme hlexeme later ih =>
      rw [Closed, Feed.errors_cons] at h
      have hlater : Closed later := fun e he => h e (List.mem_append_right _ he)
      have hoffset : (state'.advance lexeme).offset + byteLength lexeme.rest =
          state.offset + byteLength cs := by
        have htail := congrArg byteLength (lexeme?_append hlexeme)
        simp only [gap] at hrest
        rw [hrest, ← htail, byteLength_append] at hlength
        simp only [State.advance, state', State.skip, gap]
        omega
      obtain ⟨htokens, herrors⟩ := ih hlater (unclosed_of_closed hlater)
        (by rw [← byteLength_append, gap_append])
      rw [hoffset] at htokens herrors
      rw [feedFrom_newline_cons code state hrest, hlexeme]
      constructor
      · exact congrArg (List.cons _) htokens
      · rw [Feed.errors_cons, Feed.errors_cons, List.append_assoc]
        exact congrArg (_ ++ ·) herrors
  | case3 state cs gap state' c tail hrest hnone ih =>
      have hoffset : (state'.reject code c).offset + byteLength tail =
          state.offset + byteLength cs := by
        simp only [gap] at hrest
        rw [hrest, byteLength_cons] at hlength
        simp only [State.reject, state', State.skip, gap]
        omega
      have hboth := ih h (unclosed_of_closed h) (by rw [← byteLength_append, gap_append])
      rw [hoffset] at hboth
      rw [feedFrom_newline_cons code state hrest, hnone]
      exact hboth

end Scan

end Essl
