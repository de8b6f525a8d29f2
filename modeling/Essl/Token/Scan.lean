import Essl.Text.Blank
import Essl.Text.Letter
import Essl.Token.Feed

/-!
# Scanning

Splits shader text into tokens. Between tokens lie gaps of white space and comments; a token is
the longest numeral, word or operator at its place. Characters that start no token and numerals
that are malformed are reported and do not stop the scan.
-/

namespace Essl.Scan

open Text

/-! ## Gaps -/

/-- Splits after the `*/` that closes a comment. -/
def closeComment? : List Char → Option (List Char × List Char)
  | [] => none
  | '*' :: '/' :: rest => some (['*', '/'], rest)
  | c :: rest => (closeComment? rest).map fun (inside, after) => (c :: inside, after)

/-- White space and comments in front of a token, and what follows them. -/
structure Gap where
  text : List Char
  rest : List Char
  /-- The comment that never ends, if the gap runs into one. -/
  unclosed : Option (List Char)

/-- The gap that has some more text in front. -/
def Gap.after (text : List Char) (gap : Gap) : Gap := { gap with text := text ++ gap.text }

theorem closeComment?_append {cs inside after : List Char}
    (h : closeComment? cs = some (inside, after)) : inside ++ after = cs := by
  fun_induction closeComment? cs generalizing inside after with
  | case1 => simp at h
  | case2 rest =>
      simp only [Option.some.injEq, Prod.mk.injEq] at h
      simp [← h.1, ← h.2]
  | case3 c rest _ ih =>
      obtain ⟨⟨a, b⟩, hab, heq⟩ := Option.map_eq_some_iff.1 h
      simp only [Prod.mk.injEq] at heq
      simp [← heq.1, ← heq.2, ih hab]

theorem length_of_closeComment? {cs inside after : List Char}
    (h : closeComment? cs = some (inside, after)) : after.length ≤ cs.length := by
  have := congrArg List.length (closeComment?_append h)
  simp at this
  omega

private theorem length_dropWhile_le_length {α : Type} (p : α → Bool) (l : List α) :
    (l.dropWhile p).length ≤ l.length :=
  (List.dropWhile_sublist p).length_le

/-- The gap at the start of the text. -/
def gap (cs : List Char) : Gap :=
  match cs with
  | [] => ⟨[], [], none⟩
  | '/' :: '/' :: rest =>
    (gap (rest.dropWhile (· != '\n'))).after ('/' :: '/' :: rest.takeWhile (· != '\n'))
  | '/' :: '*' :: rest =>
    match _h : closeComment? rest with
    | some (inside, after) => (gap after).after ('/' :: '*' :: inside)
    | none => ⟨'/' :: '*' :: rest, [], some ('/' :: '*' :: rest)⟩
  | c :: rest => if isBlank c then (gap rest).after [c] else ⟨[], c :: rest, none⟩
termination_by cs.length
decreasing_by
  · have := length_dropWhile_le_length (· != '\n') rest
    simp
    omega
  · have := length_of_closeComment? _h
    simp
    omega
  · simp

theorem gap_append (cs : List Char) : (gap cs).text ++ (gap cs).rest = cs := by
  fun_induction gap cs with
  | case1 => simp
  | case2 rest ih => simp [Gap.after, ih, List.takeWhile_append_dropWhile]
  | case3 rest inside after h ih => simp [Gap.after, ih, closeComment?_append h]
  | case4 => simp
  | case5 c rest _ _ _ ih => simp [Gap.after, ih]
  | case6 => simp

theorem length_gap_rest (cs : List Char) : (gap cs).rest.length ≤ cs.length := by
  have := congrArg List.length (gap_append cs)
  simp at this
  omega

/-! ## Lexemes -/

/-- The text of a token, its class and what follows it. -/
structure Lexeme where
  kind : TokenKind
  text : List Char
  rest : List Char
  /-- A numeral that runs into a word, or whose value does not fit, is malformed. -/
  malformed : Bool := false

/-- Digits of hexadecimal numerals, in either case. -/
def isHexDigit (c : Char) : Bool :=
  c.isDigit || ('a' ≤ c && c ≤ 'f') || ('A' ≤ c && c ≤ 'F')

/-- The exponent at the start of the text: empty unless a digit follows the letter and sign. -/
def exponent (cs : List Char) : List Char :=
  match cs with
  | e :: rest =>
    if e == 'e' || e == 'E' then
      let sign := (rest.take 1).filter fun c => c == '+' || c == '-'
      let digits := (rest.drop sign.length).takeWhile Char.isDigit
      if digits.isEmpty then [] else e :: (sign ++ digits)
    else []
  | [] => []

/-- The decimal point at the start of the text with the digits after it. -/
def fraction : List Char → List Char
  | '.' :: rest => '.' :: rest.takeWhile Char.isDigit
  | _ => []

/-- The numeral at the start of the text, without the word characters that may follow. -/
def numeral (cs : List Char) : TokenKind × List Char :=
  match cs with
  | '0' :: 'x' :: rest => (.intConstant, '0' :: 'x' :: rest.takeWhile isHexDigit)
  | '0' :: 'X' :: rest => (.intConstant, '0' :: 'X' :: rest.takeWhile isHexDigit)
  | _ =>
    let whole := cs.takeWhile Char.isDigit
    let fraction := fraction (cs.drop whole.length)
    let exponent := exponent (cs.drop (whole.length + fraction.length))
    let kind := if fraction.isEmpty && exponent.isEmpty then .intConstant else .floatConstant
    (kind, whole ++ fraction ++ exponent)

/-- The numeral at the start of the text, with the word characters it runs into. -/
def number (cs : List Char) : Lexeme :=
  let (kind, digits) := numeral cs
  let suffix := (cs.drop digits.length).takeWhile isWordPart
  let text := digits ++ suffix
  { kind, text, rest := cs.drop text.length,
    malformed := !suffix.isEmpty ||
      (kind == .intConstant && (Numeral.intValue? text).isNone) }

def wordKind (word : String) : TokenKind :=
  match Keyword.ofText? word with
  | some keyword => .keyword keyword
  | none => if word = "true" ∨ word = "false" then .boolConstant else .identifier

/-- The word at the start of the text. -/
def word (cs : List Char) : Lexeme :=
  let text := cs.takeWhile isWordPart
  { kind := wordKind (String.ofList text), text, rest := cs.dropWhile isWordPart }

/-- A numeral starts with a digit, or with a point before a digit. -/
def startsNumber : List Char → Bool
  | '.' :: c :: _ => c.isDigit
  | c :: _ => c.isDigit
  | [] => false

/-- Whether the text starts like a word. -/
def startsWord : List Char → Bool
  | c :: _ => isWordStart c
  | [] => false

/-- The lexeme at the start of the text, if its first character can start one. -/
def lexeme? (cs : List Char) : Option Lexeme :=
  if startsNumber cs then some (number cs)
  else if startsWord cs then some (word cs)
  else (Operator.longestAt cs).map fun op =>
    { kind := .operator op, text := op.spelling, rest := cs.drop op.spelling.length }

theorem length_numeral_pos {cs : List Char} (h : startsNumber cs = true) :
    0 < (numeral cs).2.length := by
  unfold startsNumber at h
  unfold numeral
  split
  · simp
  · simp
  · split at h
    · simp [fraction]
    · rename_i c rest _
      simp [h]
    · simp at h

theorem isWordPart_of_isWordStart {c : Char} (h : isWordStart c = true) :
    isWordPart c = true := by
  simp only [isWordStart, isWordPart, Bool.or_eq_true] at h ⊢
  rcases h with h | h <;> simp [h]

theorem length_lexeme?_rest {cs : List Char} {lexeme : Lexeme} (h : lexeme? cs = some lexeme) :
    lexeme.rest.length < cs.length := by
  have hne : cs ≠ [] := by
    rintro rfl
    simp [lexeme?, startsNumber, startsWord, Operator.longestAt, List.find?_eq_some_iff_append,
      Operator.spelling_ne_nil] at h
  have hpos := List.length_pos_iff.2 hne
  unfold lexeme? at h
  split at h
  · rename_i hnum
    have := length_numeral_pos hnum
    simp only [Option.some.injEq] at h
    subst h
    simp [number]
    omega
  · split at h
    · rename_i hword
      simp only [Option.some.injEq] at h
      subst h
      cases cs with
      | nil => simp at hne
      | cons c rest =>
          have hc : isWordPart c = true :=
            isWordPart_of_isWordStart (by simpa [startsWord] using hword)
          have := length_dropWhile_le_length isWordPart rest
          simp [word, hc]
          omega
    · obtain ⟨op, -, rfl⟩ := Option.map_eq_some_iff.1 h
      have := List.length_pos_iff.2 (Operator.spelling_ne_nil op)
      simp
      omega

/-! ## The scan -/

/-- Where a scan stands: the byte offset of the text to come, whether a line has begun and no
token was seen on it, whether a gap came directly before, and the errors not yet delivered. -/
structure State where
  offset : Nat
  firstInLine : Bool
  afterSpace : Bool
  errors : List FrontError

/-- The state before the first character. -/
def State.start : State := ⟨0, true, false, []⟩

private def report (code : Code) (cause : LexicalCause) (start size : Nat) : FrontError :=
  ⟨.lexical cause, code, start, start + size⟩

/-- Moves over a gap. -/
def State.skip (state : State) (code : Code) (gap : Gap) : State where
  offset := state.offset + byteLength gap.text
  firstInLine := state.firstInLine || gap.text.contains '\n'
  afterSpace := state.afterSpace || !gap.text.isEmpty
  errors := state.errors ++ (gap.unclosed.map fun comment =>
    report code .unclosedComment (state.offset + byteLength gap.text - byteLength comment)
      (byteLength comment)).toList

/-- Moves over a character that starts no token. -/
def State.reject (state : State) (code : Code) (c : Char) : State :=
  { state with
    offset := state.offset + c.utf8Size
    errors := state.errors ++ [report code (.invalidCharacter c) state.offset c.utf8Size] }

/-- The token that a lexeme makes at this place, with the errors that come before it. -/
def State.deliver (state : State) (code : Code) (lexeme : Lexeme) : Delivery :=
  let text := String.ofList lexeme.text
  let size := byteLength lexeme.text
  { errors := state.errors ++
      if lexeme.malformed then [report code (.invalidNumber text) state.offset size] else []
    token := { kind := lexeme.kind, text, location := ⟨code, state.offset, state.offset + size⟩,
               firstInLine := state.firstInLine, afterSpace := state.afterSpace } }

/-- Moves over a lexeme. -/
def State.advance (state : State) (lexeme : Lexeme) : State :=
  ⟨state.offset + byteLength lexeme.text, false, false, []⟩

/-- Everything that the rest of the text delivers. -/
def feedFrom (code : Code) (state : State) (cs : List Char) : Feed :=
  let gap := gap cs
  let state := state.skip code gap
  match _hrest : gap.rest with
  | [] => ⟨[], state.errors⟩
  | c :: rest =>
    match _hlex : lexeme? (c :: rest) with
    | some lexeme =>
      let later := feedFrom code (state.advance lexeme) lexeme.rest
      ⟨state.deliver code lexeme :: later.deliveries, later.trailing⟩
    | none => feedFrom code (state.reject code c) rest
termination_by cs.length
decreasing_by
  · have hgap := length_gap_rest cs
    have hlt := length_lexeme?_rest _hlex
    simp only [gap] at _hrest
    rw [_hrest] at hgap
    omega
  · have hgap := length_gap_rest cs
    simp only [gap] at _hrest
    rw [_hrest] at hgap
    simp at hgap
    omega

end Scan

/-- The tokens of a piece of shader text. -/
def Code.scan (code : Code) : Feed := Scan.feedFrom code .start code.chars

end Essl
