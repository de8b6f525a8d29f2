import Essl.Token.Scan
import Mathlib.Data.List.DropRight

/-!
# How a text is cut into tokens

A text is laid out in tiles: tokens, white space, comments and characters that start no token.
Every character is in one tile, each token is where its tile is and knows what lies between it and
the token before it, and the errors are those of the tiles, in order.
-/

namespace Essl

open Text

namespace Scan

/-! ## Comments -/

/-- What ends a comment is somewhere in the text. -/
def Closes (cs : List Char) : Prop := ['*', '/'] <:+: cs

theorem closes_cons {c : Char} {cs : List Char} (h : Closes (c :: cs)) :
    (c = '*' ∧ cs.head? = some '/') ∨ Closes cs := by
  rcases List.infix_cons_iff.1 h with hprefix | hinfix
  · left
    obtain ⟨rest, hrest⟩ := hprefix
    simp only [List.cons_append, List.nil_append, List.cons.injEq] at hrest
    obtain ⟨rfl, rfl⟩ := hrest
    exact ⟨rfl, rfl⟩
  · exact .inr hinfix

/-- A comment ends at the first place where it can. -/
theorem closeComment?_some {cs inside after : List Char}
    (h : closeComment? cs = some (inside, after)) :
    ∃ body, inside = body ++ ['*', '/'] ∧ ¬ Closes (body ++ ['*']) := by
  fun_induction closeComment? cs generalizing inside after with
  | case1 => simp at h
  | case2 rest =>
      simp only [Option.some.injEq, Prod.mk.injEq] at h
      exact ⟨[], h.1.symm, by simp [Closes, List.infix_cons_iff]⟩
  | case3 c rest hrest ih =>
      obtain ⟨⟨a, b⟩, hab, heq⟩ := Option.map_eq_some_iff.1 h
      simp only [Prod.mk.injEq] at heq
      obtain ⟨rfl, rfl⟩ := heq
      obtain ⟨body, rfl, hbody⟩ := ih hab
      refine ⟨c :: body, rfl, fun hclose => ?_⟩
      rcases closes_cons hclose with ⟨rfl, hhead⟩ | hclose
      · -- The star would close the comment together with what comes next.
        have hsplit := closeComment?_append hab
        cases body with
        | nil => simp at hhead
        | cons d body =>
            obtain rfl : d = '/' := by simpa using hhead
            exact hrest _ rfl hsplit.symm
      · exact hbody hclose

theorem closeComment?_none {cs : List Char} (h : closeComment? cs = none) : ¬ Closes cs := by
  fun_induction closeComment? cs with
  | case1 => simp [Closes]
  | case2 => simp at h
  | case3 c rest hrest ih =>
      intro hclose
      rcases closes_cons hclose with ⟨rfl, hhead⟩ | hclose
      · obtain ⟨d, hd⟩ := List.head?_eq_some_iff.1 hhead
        exact hrest _ rfl hd
      · exact ih (Option.map_eq_none_iff.1 h) hclose

/-! ## Lexemes -/

theorem prefix_append_of_drop {α : Type} {a b l : List α} (ha : a <+: l)
    (hb : b <+: l.drop a.length) : a ++ b <+: l := by
  rw [← List.prefix_iff_eq_append.1 ha]
  exact (List.prefix_append_right_inj a).2 hb

theorem fraction_isPrefix (cs : List Char) : fraction cs <+: cs := by
  unfold fraction
  split
  · exact List.cons_prefix_cons.2 ⟨rfl, List.takeWhile_prefix _⟩
  · exact List.nil_prefix

theorem exponent_isPrefix (cs : List Char) : exponent cs <+: cs := by
  unfold exponent
  split
  · rename_i e rest
    split
    · have hsign : (rest.take 1).filter (fun c => c == '+' || c == '-') <+: rest := by
        cases rest with
        | nil => simp
        | cons c rest =>
            rw [List.take_succ_cons, List.take_zero, List.filter_singleton]
            cases c == '+' || c == '-' <;> simp
      dsimp only
      split
      · exact List.nil_prefix
      · refine List.cons_prefix_cons.2 ⟨rfl, ?_⟩
        exact prefix_append_of_drop hsign (List.takeWhile_prefix _)
    · exact List.nil_prefix
  · exact List.nil_prefix

theorem numeral_isPrefix (cs : List Char) : (numeral cs).2 <+: cs := by
  unfold numeral
  split
  · exact (List.prefix_append_right_inj ['0', 'x']).2 (List.takeWhile_prefix _)
  · exact (List.prefix_append_right_inj ['0', 'X']).2 (List.takeWhile_prefix _)
  · dsimp only
    apply prefix_append_of_drop
    · exact prefix_append_of_drop (List.takeWhile_prefix _) (fraction_isPrefix _)
    · rw [List.length_append]
      exact exponent_isPrefix _

theorem number_append (cs : List Char) : (number cs).text ++ (number cs).rest = cs := by
  apply List.prefix_iff_eq_append.1
  exact prefix_append_of_drop (numeral_isPrefix cs) (List.takeWhile_prefix _)

theorem lexeme?_append {cs : List Char} {lexeme : Lexeme} (h : lexeme? cs = some lexeme) :
    lexeme.text ++ lexeme.rest = cs := by
  unfold lexeme? at h
  split at h
  · obtain rfl := Option.some.inj h
    exact number_append cs
  · split at h
    · obtain rfl := Option.some.inj h
      exact List.takeWhile_append_dropWhile
    · obtain ⟨op, hop, rfl⟩ := Option.map_eq_some_iff.1 h
      have hprefix : op.spelling <+: cs := by
        simpa using List.find?_some hop
      exact List.prefix_iff_eq_append.1 hprefix

theorem lexeme?_text_ne_nil {cs : List Char} {lexeme : Lexeme} (h : lexeme? cs = some lexeme) :
    lexeme.text ≠ [] := by
  intro hnil
  have happend := lexeme?_append h
  have hlength := length_lexeme?_rest h
  rw [hnil, List.nil_append] at happend
  rw [happend] at hlength
  omega

end Scan

/-! ## Tiles -/

/-- A piece of a text. The text inside of a comment goes without what opens and closes it. -/
inductive Tile where
  | blank (c : Char)
  | lineComment (inside : List Char)
  | blockComment (inside : List Char)
  /-- A comment that runs up to the end of the text. -/
  | unclosedComment (inside : List Char)
  /-- A character that starts no token. -/
  | invalid (c : Char)
  | token (token : Token) (malformed : Bool)

namespace Tile

def text : Tile → List Char
  | blank c => [c]
  | lineComment inside => '/' :: '/' :: inside
  | blockComment inside => '/' :: '*' :: (inside ++ ['*', '/'])
  | unclosedComment inside => '/' :: '*' :: inside
  | invalid c => [c]
  | token t _ => t.text.toList

def token? : Tile → Option Token
  | token t _ => some t
  | _ => none

@[simp] theorem token?_token (t : Token) (malformed : Bool) :
    (token t malformed).token? = some t := rfl

@[simp] theorem token?_invalid (c : Char) : (invalid c).token? = none := rfl

/-- White space and comments. -/
def IsSpace : Tile → Prop
  | blank _ | lineComment _ | blockComment _ | unclosedComment _ => True
  | invalid _ | token _ _ => False

/-- The error about a tile that begins at some offset. -/
def complaint? (code : Code) (offset : Nat) : Tile → Option FrontError
  | invalid c => some ⟨.lexical (.invalidCharacter c), code, offset, offset + c.utf8Size⟩
  | unclosedComment inside =>
    some ⟨.lexical .unclosedComment, code, offset,
      offset + byteLength (unclosedComment inside).text⟩
  | token t true =>
    some ⟨.lexical (.invalidNumber t.text), code, offset, offset + byteLength t.text.toList⟩
  | _ => none

/-- What tiles cover together. -/
def texts (tiles : List Tile) : List Char := tiles.flatMap text

/-- The tiles since the last token. -/
def gap (tiles : List Tile) : List Tile := tiles.rtakeWhile (·.token?.isNone)

/-- The errors about tiles of which the first begins at some offset. -/
def complaints (code : Code) : (offset : Nat) → List Tile → List FrontError
  | _, [] => []
  | offset, tile :: tiles =>
    (tile.complaint? code offset).toList ++
      complaints code (offset + byteLength tile.text) tiles

/-- A tile is what it is said to be, between some tiles and the text after it. -/
def Fits (code : Code) (before : List Tile) (after : List Char) : Tile → Prop
  | blank c => isBlank c = true
  | lineComment inside => '\n' ∉ inside ∧ (after = [] ∨ after.head? = some '\n')
  | blockComment inside => ¬ Scan.Closes (inside ++ ['*'])
  | unclosedComment inside => ¬ Scan.Closes inside ∧ after = []
  | invalid c => isBlank c = false ∧ Scan.lexeme? (c :: after) = none
  | token t malformed =>
    Scan.lexeme? (t.text.toList ++ after) = some ⟨t.kind, t.text.toList, after, malformed⟩ ∧
    t.location = ⟨code, byteLength (texts before),
      byteLength (texts before) + byteLength t.text.toList⟩ ∧
    (t.firstInLine = true ↔ (∀ tile ∈ before, tile.token? = none) ∨ '\n' ∈ texts (gap before)) ∧
    (t.afterSpace = true ↔ ∃ tile ∈ gap before, tile.IsSpace)

/-- All tiles are what they are said to be, between some tiles and the text after them. -/
def AllFit (code : Code) (after : List Char) : (before tiles : List Tile) → Prop
  | _, [] => True
  | before, tile :: tiles =>
    tile.Fits code before (texts tiles ++ after) ∧ AllFit code after (before ++ [tile]) tiles

variable {code : Code}

@[simp] theorem texts_nil : texts [] = [] := rfl

@[simp] theorem texts_cons (tile : Tile) (tiles : List Tile) :
    texts (tile :: tiles) = tile.text ++ texts tiles := rfl

@[simp] theorem texts_append (a b : List Tile) : texts (a ++ b) = texts a ++ texts b :=
  List.flatMap_append

theorem text_ne_nil_of_isSpace {tile : Tile} (h : tile.IsSpace) : tile.text ≠ [] := by
  cases tile <;> first | exact List.cons_ne_nil _ _ | exact h.elim

theorem token?_of_isSpace {tile : Tile} (h : tile.IsSpace) : tile.token? = none := by
  cases tile <;> first | rfl | exact h.elim

theorem filterMap_token?_of_isSpace {spaces : List Tile} (h : ∀ tile ∈ spaces, tile.IsSpace) :
    spaces.filterMap token? = [] :=
  List.filterMap_eq_nil_iff.2 fun tile htile => token?_of_isSpace (h tile htile)

@[simp] theorem gap_nil : gap [] = [] := rfl

theorem gap_concat (tiles : List Tile) (tile : Tile) :
    gap (tiles ++ [tile]) = if tile.token?.isNone then gap tiles ++ [tile] else [] :=
  List.rtakeWhile_concat ..

theorem gap_append {spaces : List Tile} (h : ∀ tile ∈ spaces, tile.IsSpace) (tiles : List Tile) :
    gap (tiles ++ spaces) = gap tiles ++ spaces := by
  induction spaces using List.reverseRecOn with
  | nil => simp
  | append_singleton spaces tile ih =>
      have htile : tile.token? = none := token?_of_isSpace (h tile (by simp))
      rw [← List.append_assoc, gap_concat, htile, ih fun u hu => h u (by simp [hu])]
      simp

theorem complaints_append (offset : Nat) (a b : List Tile) :
    complaints code offset (a ++ b) =
      complaints code offset a ++ complaints code (offset + byteLength (texts a)) b := by
  induction a generalizing offset with
  | nil => simp [complaints]
  | cons tile a ih => simp [complaints, ih, Nat.add_assoc]

theorem allFit_append {after : List Char} {before a b : List Tile} :
    AllFit code after before (a ++ b) ↔
      AllFit code (texts b ++ after) before a ∧ AllFit code after (before ++ a) b := by
  induction a generalizing before with
  | nil => simp [AllFit]
  | cons tile a ih => simp [AllFit, ih, and_assoc]

end Tile

/-! ## The scan -/

namespace Scan

open Tile

variable {code : Code}

/-- A gap is made of tiles of white space and comments. -/
structure Gap.Tiled (code : Code) (gap : Gap) (spaces : List Tile) : Prop where
  isSpace : ∀ tile ∈ spaces, tile.IsSpace
  texts : texts spaces = gap.text
  fits : ∀ before, AllFit code gap.rest before spaces
  errors : ∀ state : State, (state.skip code gap).errors =
    state.errors ++ complaints code state.offset spaces

theorem Gap.Tiled.after {gap : Gap} {spaces : List Tile} {tile : Tile} (h : gap.Tiled code spaces)
    (hspace : tile.IsSpace) (hcomplaint : ∀ offset, tile.complaint? code offset = none)
    (hfits : ∀ before, tile.Fits code before (gap.text ++ gap.rest)) :
    (gap.after tile.text).Tiled code (tile :: spaces) where
  isSpace := List.forall_mem_cons.2 ⟨hspace, h.isSpace⟩
  texts := by rw [texts_cons, h.texts]; rfl
  fits before := by
    refine ⟨?_, h.fits _⟩
    rw [h.texts]
    exact hfits before
  errors state := by
    have hlater := h.errors { state with offset := state.offset + byteLength tile.text }
    simpa [State.skip, Gap.after, complaints, hcomplaint, Nat.add_assoc] using hlater

theorem gap_tiled (code : Code) (cs : List Char) : ∃ spaces, (gap cs).Tiled code spaces := by
  fun_induction gap cs with
  | case1 => exact ⟨[], by simp, rfl, fun _ => trivial, by simp [State.skip, complaints]⟩
  | case2 rest ih =>
      obtain ⟨spaces, hspaces⟩ := ih
      refine ⟨_, @hspaces.after _ _ _ (lineComment (rest.takeWhile (· != '\n'))) trivial
        (fun _ => rfl) fun before => ⟨?_, ?_⟩⟩
      · intro hmem
        simpa using List.mem_takeWhile_imp hmem
      · rw [gap_append]
        have hhead := List.head?_dropWhile_not (· != '\n') rest
        cases hdrop : rest.dropWhile (· != '\n') with
        | nil => exact .inl rfl
        | cons c after =>
            rw [hdrop] at hhead
            simpa using hhead
  | case3 rest inside after hclose ih =>
      obtain ⟨spaces, hspaces⟩ := ih
      obtain ⟨body, rfl, hbody⟩ := closeComment?_some hclose
      exact ⟨_, @hspaces.after _ _ _ (blockComment body) trivial (fun _ => rfl) fun _ => hbody⟩
  | case4 rest hclose =>
      refine ⟨[unclosedComment rest], ?_, ?_, ?_, ?_⟩
      · simp [IsSpace]
      · simp [Tile.text]
      · intro before
        exact ⟨⟨closeComment?_none hclose, rfl⟩, trivial⟩
      · intro state
        simp only [State.skip, complaints, Option.map_some, Nat.add_sub_cancel, List.append_nil]
        rfl
  | case5 c rest _ _ hblank ih =>
      obtain ⟨spaces, hspaces⟩ := ih
      exact ⟨_, @hspaces.after _ _ _ (blank c) trivial (fun _ => rfl) fun _ => hblank⟩
  | case6 => exact ⟨[], by simp, rfl, fun _ => trivial, by simp [State.skip, complaints]⟩

theorem isBlank_of_gap_rest {cs rest : List Char} {c : Char} (h : (gap cs).rest = c :: rest) :
    isBlank c = false := by
  fun_induction gap cs with
  | case1 => simp at h
  | case2 _ ih => exact ih h
  | case3 _ _ _ _ ih => exact ih h
  | case4 => simp at h
  | case5 _ _ _ _ _ ih => exact ih h
  | case6 d _ _ _ hblank =>
      simp only [List.cons.injEq] at h
      rw [← h.1]
      simpa using hblank

/-- Where a scan stands is what the tiles before say. -/
structure Reached (before : List Tile) (state : State) : Prop where
  offset : state.offset = byteLength (texts before)
  firstInLine : state.firstInLine = true ↔
    (∀ tile ∈ before, tile.token? = none) ∨ '\n' ∈ texts (Tile.gap before)
  afterSpace : state.afterSpace = true ↔ ∃ tile ∈ Tile.gap before, tile.IsSpace

namespace Reached

variable {before : List Tile} {state : State}

theorem start : Reached [] .start := ⟨rfl, by simp [State.start], by simp [State.start]⟩

theorem skip {gap : Gap} {spaces : List Tile} (h : Reached before state)
    (hspaces : gap.Tiled code spaces) : Reached (before ++ spaces) (state.skip code gap) where
  offset := by
    rw [texts_append, byteLength_append, hspaces.texts, ← h.offset]
    rfl
  firstInLine := by
    have htokens : (∀ tile ∈ before ++ spaces, tile.token? = none) ↔
        ∀ tile ∈ before, tile.token? = none := by
      rw [List.forall_mem_append]
      exact and_iff_left fun tile htile => token?_of_isSpace (hspaces.isSpace tile htile)
    rw [htokens, Tile.gap_append hspaces.isSpace, texts_append, hspaces.texts, List.mem_append,
      ← or_assoc, ← h.firstInLine]
    simp [State.skip]
  afterSpace := by
    have hempty : (∃ tile ∈ spaces, tile.IsSpace) ↔ gap.text ≠ [] := by
      rw [← hspaces.texts]
      constructor
      · rintro ⟨tile, htile, hspace⟩ hnil
        exact text_ne_nil_of_isSpace hspace (List.flatMap_eq_nil_iff.1 hnil tile htile)
      · intro hne
        cases spaces with
        | nil => exact absurd rfl hne
        | cons tile spaces =>
            exact ⟨tile, List.mem_cons_self, hspaces.isSpace tile List.mem_cons_self⟩
    rw [Tile.gap_append hspaces.isSpace]
    simp only [List.mem_append, or_and_right, exists_or, hempty, ← h.afterSpace]
    simp [State.skip]

theorem reject {c : Char} (h : Reached before state) (hc : isBlank c = false) :
    Reached (before ++ [invalid c]) (state.reject code c) where
  offset := by simp [State.reject, h.offset, Tile.text]
  firstInLine := by
    -- A line break is white space, so the character does not begin a line.
    have hline : '\n' ≠ c := by
      rintro rfl
      exact absurd isBlank_newline (by simp [hc])
    have htokens : (∀ tile ∈ before ++ [invalid c], tile.token? = none) ↔
        ∀ tile ∈ before, tile.token? = none := by simp [or_imp, forall_and]
    rw [htokens, gap_concat]
    simpa [State.reject, Tile.text, hline] using h.firstInLine
  afterSpace := by
    rw [gap_concat]
    simpa [State.reject, IsSpace, or_and_right, exists_or] using h.afterSpace

theorem advance (h : Reached before state) (lexeme : Lexeme) (t : Token)
    (htext : t.text = String.ofList lexeme.text) :
    Reached (before ++ [token t lexeme.malformed]) (state.advance lexeme) where
  offset := by simp [State.advance, h.offset, Tile.text, htext]
  firstInLine := by
    rw [gap_concat]
    simp [State.advance]
  afterSpace := by
    rw [gap_concat]
    simp [State.advance]

end Reached

/-- The token that is delivered fits in where the scan stands. -/
theorem deliver_fits {before : List Tile} {state : State} {cs : List Char} {lexeme : Lexeme}
    (h : Reached before state) (hlexeme : lexeme? cs = some lexeme) :
    (token (state.deliver code lexeme).token lexeme.malformed).Fits code before lexeme.rest := by
  have htext : (state.deliver code lexeme).token.text.toList = lexeme.text :=
    String.toList_ofList
  refine ⟨?_, ?_, h.firstInLine, h.afterSpace⟩
  · rw [htext, lexeme?_append hlexeme, hlexeme]
    rfl
  · rw [htext, ← h.offset]
    rfl

/-- Tiles lay out a text that a scan has reached, and the feed is what they say. -/
structure Laid (code : Code) (before : List Tile) (state : State) (cs : List Char) (feed : Feed)
    (tiles : List Tile) : Prop where
  texts : texts tiles = cs
  fits : AllFit code [] before tiles
  tokens : feed.tokens = tiles.filterMap token?
  errors : feed.errors = state.errors ++ complaints code state.offset tiles

namespace Laid

variable {before tiles : List Tile} {state : State} {feed : Feed}

theorem skip {cs : List Char} {spaces : List Tile}
    (h : Laid code (before ++ spaces) (state.skip code (gap cs)) (gap cs).rest feed tiles)
    (hspaces : (gap cs).Tiled code spaces) :
    Laid code before state cs feed (spaces ++ tiles) where
  texts := by rw [texts_append, hspaces.texts, h.texts, gap_append]
  fits := by
    rw [allFit_append, List.append_nil, h.texts]
    exact ⟨hspaces.fits before, h.fits⟩
  tokens := by
    rw [List.filterMap_append, filterMap_token?_of_isSpace hspaces.isSpace, h.tokens]
    rfl
  errors := by
    rw [h.errors, hspaces.errors, complaints_append, hspaces.texts, List.append_assoc]
    rfl

theorem nil : Laid code before state [] ⟨[], state.errors⟩ [] :=
  ⟨rfl, trivial, rfl, by simp [Feed.errors, complaints]⟩

theorem deliver {cs : List Char} {lexeme : Lexeme} (hreached : Reached before state)
    (hlexeme : lexeme? cs = some lexeme)
    (h : Laid code (before ++ [token (state.deliver code lexeme).token lexeme.malformed])
      (state.advance lexeme) lexeme.rest feed tiles) :
    Laid code before state cs ⟨state.deliver code lexeme :: feed.deliveries, feed.trailing⟩
      (token (state.deliver code lexeme).token lexeme.malformed :: tiles) where
  texts := by
    rw [texts_cons, h.texts, ← lexeme?_append hlexeme]
    simp [Tile.text, State.deliver]
  fits := by
    refine ⟨?_, h.fits⟩
    rw [h.texts, List.append_nil]
    exact deliver_fits hreached hlexeme
  tokens := by
    rw [List.filterMap_cons_some (token?_token _ _), ← h.tokens]
    rfl
  errors := by
    have hlater : feed.errors = complaints code (state.offset + byteLength lexeme.text) tiles :=
      h.errors
    have htext : (state.deliver code lexeme).token.text.toList = lexeme.text :=
      String.toList_ofList
    have hcomplaint : (state.deliver code lexeme).errors = state.errors ++
        ((token (state.deliver code lexeme).token lexeme.malformed).complaint? code
          state.offset).toList := by
      cases hmalformed : lexeme.malformed <;> simp [State.deliver, complaint?, hmalformed]
      rfl
    rw [complaints, Tile.text, htext, ← hlater, ← List.append_assoc, ← hcomplaint]
    simp [Feed.errors]

theorem reject {c : Char} {rest : List Char} (hblank : isBlank c = false)
    (hlexeme : lexeme? (c :: rest) = none)
    (h : Laid code (before ++ [invalid c]) (state.reject code c) rest feed tiles) :
    Laid code before state (c :: rest) feed (invalid c :: tiles) where
  texts := by rw [texts_cons, h.texts]; rfl
  fits := by
    refine ⟨⟨hblank, ?_⟩, h.fits⟩
    rwa [h.texts, List.append_nil]
  tokens := by rw [h.tokens, List.filterMap_cons_none (token?_invalid c)]
  errors := by
    rw [h.errors]
    simp only [complaints, State.reject, Tile.text, byteLength_cons, byteLength_nil,
      List.append_assoc, Nat.add_zero]
    rfl

end Laid

theorem feedFrom_laid (state : State) (cs : List Char) :
    ∀ before, Reached before state →
      ∃ tiles, Laid code before state cs (feedFrom code state cs) tiles := by
  fun_induction feedFrom code state cs with
  | case1 state cs gap state' hrest =>
      intro before h
      obtain ⟨spaces, hspaces⟩ := gap_tiled code cs
      have hlaid : Laid code (before ++ spaces) state' gap.rest ⟨[], state'.errors⟩ [] := by
        rw [hrest]
        exact .nil
      exact ⟨_, hlaid.skip hspaces⟩
  | case2 state cs gap state' c rest hrest lexeme hlexeme later ih =>
      intro before h
      obtain ⟨spaces, hspaces⟩ := gap_tiled code cs
      have hreached := h.skip hspaces
      have hadvanced := hreached.advance lexeme (state'.deliver code lexeme).token rfl
      obtain ⟨tiles, htiles⟩ := ih _ hadvanced
      have hlaid := Laid.deliver hreached hlexeme htiles
      rw [← hrest] at hlaid
      exact ⟨_, hlaid.skip hspaces⟩
  | case3 state cs gap state' c rest hrest hlexeme ih =>
      intro before h
      obtain ⟨spaces, hspaces⟩ := gap_tiled code cs
      have hblank := isBlank_of_gap_rest hrest
      have hreached := h.skip hspaces
      obtain ⟨tiles, htiles⟩ := ih _ (hreached.reject hblank)
      have hlaid := Laid.reject hblank hlexeme htiles
      rw [← hrest] at hlaid
      exact ⟨_, hlaid.skip hspaces⟩

end Scan

/-! ## Places of tokens -/

theorem Text.sliceBytes_middle (a b c : List Char) :
    sliceBytes (byteLength a) (byteLength a + byteLength b) (a ++ (b ++ c)) = some b := by
  simp [sliceBytes, splitBytes_byteLength]

theorem Text.byteLength_pos {cs : List Char} (h : cs ≠ []) : 0 < byteLength cs := by
  obtain ⟨c, rest, rfl⟩ := List.exists_cons_of_ne_nil h
  have := c.utf8Size_pos
  rw [byteLength_cons]
  omega

namespace Tile

variable {code : Code}

theorem AllFit.tile_fits {before tiles after : List Tile} {tile : Tile}
    (h : AllFit code [] before (tiles ++ tile :: after)) :
    tile.Fits code (before ++ tiles) (texts after) := by
  have hfits := (allFit_append.1 h).2.1
  rwa [List.append_nil] at hfits

theorem exists_of_mem_tokens {tiles : List Tile} {t : Token}
    (ht : t ∈ tiles.filterMap token?) :
    ∃ before malformed after, tiles = before ++ token t malformed :: after := by
  obtain ⟨tile, htile, heq⟩ := List.mem_filterMap.1 ht
  obtain ⟨before, after, rfl⟩ := List.append_of_mem htile
  cases tile with
  | token u malformed =>
      obtain rfl := Option.some.inj heq
      exact ⟨before, malformed, after, rfl⟩
  | blank | lineComment | blockComment | unclosedComment | invalid => cases heq

/-- A token is where its tile is. -/
theorem Fits.location {before : List Tile} {t : Token} {malformed : Bool} {after : List Char}
    (h : (token t malformed).Fits code before after) :
    t.location = ⟨code, byteLength (texts before),
      byteLength (texts before) + byteLength t.text.toList⟩ := h.2.1

theorem Fits.text_ne_nil {tile : Tile} {before : List Tile} {after : List Char}
    (h : tile.Fits code before after) : tile.text ≠ [] := by
  cases tile with
  | token t malformed => exact Scan.lexeme?_text_ne_nil h.1
  | blank | lineComment | blockComment | unclosedComment | invalid => exact List.cons_ne_nil _ _

/-- Tokens follow one another, after all that comes before them. -/
theorem AllFit.tokens_ordered {after : List Char} {before tiles : List Tile}
    (h : AllFit code after before tiles) :
    (∀ t ∈ tiles.filterMap token?, byteLength (texts before) ≤ t.location.start) ∧
      (tiles.filterMap token?).Pairwise (·.location.stop ≤ ·.location.start) := by
  induction tiles generalizing before with
  | nil => simp
  | cons tile tiles ih =>
      obtain ⟨hstart, hordered⟩ := ih h.2
      rw [texts_append, byteLength_append] at hstart
      have hlater : ∀ t ∈ tiles.filterMap token?, byteLength (texts before) ≤ t.location.start :=
        fun t ht => Nat.le_trans (Nat.le_add_right _ _) (hstart t ht)
      cases htoken : tile.token? with
      | none =>
          rw [List.filterMap_cons_none htoken]
          exact ⟨hlater, hordered⟩
      | some t =>
          rw [List.filterMap_cons_some htoken, List.forall_mem_cons, List.pairwise_cons]
          cases tile with
          | token u malformed =>
              obtain rfl := Option.some.inj htoken
              rw [h.1.location]
              refine ⟨⟨Nat.le_refl _, hlater⟩, fun t ht => ?_, hordered⟩
              simpa [text] using hstart t ht
          | blank | lineComment | blockComment | unclosedComment | invalid => cases htoken

end Tile

/-- A text is laid out in tiles, which have the tokens and the errors of the scan. -/
theorem Code.exists_tiles (code : Code) :
    ∃ tiles : List Tile,
      Tile.texts tiles = code.chars ∧
      (∀ before tile after, tiles = before ++ tile :: after →
        tile.Fits code before (Tile.texts after)) ∧
      code.scan.tokens = tiles.filterMap Tile.token? ∧
      code.scan.errors = Tile.complaints code 0 tiles := by
  obtain ⟨tiles, hlaid⟩ := Scan.feedFrom_laid .start code.chars [] .start
  refine ⟨tiles, hlaid.texts, ?_, hlaid.tokens, hlaid.errors⟩
  rintro before tile after rfl
  exact hlaid.fits.tile_fits

/-- Every token is some text of its own. -/
theorem Code.scan_tokens_cover (code : Code) : ∀ t ∈ code.scan.tokens,
    t.location.code = code ∧ t.location.start < t.location.stop ∧
      sliceBytes t.location.start t.location.stop code.chars = some t.text.toList := by
  intro t ht
  obtain ⟨tiles, htexts, hfits, htokens, -⟩ := code.exists_tiles
  rw [htokens] at ht
  obtain ⟨before, malformed, after, hsplit⟩ := Tile.exists_of_mem_tokens ht
  have hfit := hfits _ _ _ hsplit
  have hpos : 0 < byteLength t.text.toList := Text.byteLength_pos hfit.text_ne_nil
  have hchars : code.chars =
      Tile.texts before ++ (t.text.toList ++ Tile.texts after) := by
    rw [← htexts, hsplit, Tile.texts_append, Tile.texts_cons, Tile.text]
  rw [hfit.location, hchars]
  exact ⟨rfl, Nat.lt_add_of_pos_right hpos, Text.sliceBytes_middle _ _ _⟩

theorem Code.scan_tokens_ordered (code : Code) :
    code.scan.tokens.Pairwise (·.location.stop ≤ ·.location.start) := by
  obtain ⟨tiles, hlaid⟩ := Scan.feedFrom_laid .start code.chars [] .start
  rw [show code.scan.tokens = tiles.filterMap Tile.token? from hlaid.tokens]
  exact hlaid.fits.tokens_ordered.2

/-- A text is laid out in tiles, of which the tokens are those of the scan and which have between
them all of its errors. Tokens cover some text each, and no character is in two of them. -/
theorem Code.scan_partition (code : Code) :
    ∃ tiles : List Tile,
      Tile.texts tiles = code.chars ∧
      (∀ before tile after, tiles = before ++ tile :: after →
        tile.Fits code before (Tile.texts after)) ∧
      code.scan.tokens = tiles.filterMap Tile.token? ∧
      code.scan.errors = Tile.complaints code 0 tiles ∧
      (∀ t ∈ code.scan.tokens, t.location.code = code ∧ t.location.start < t.location.stop ∧
        sliceBytes t.location.start t.location.stop code.chars = some t.text.toList) ∧
      code.scan.tokens.Pairwise (·.location.stop ≤ ·.location.start) := by
  obtain ⟨tiles, htexts, hfits, htokens, herrors⟩ := code.exists_tiles
  exact ⟨tiles, htexts, hfits, htokens, herrors, code.scan_tokens_cover, code.scan_tokens_ordered⟩

end Essl
