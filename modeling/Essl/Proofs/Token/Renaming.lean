import Essl.Proofs.Token.Lines
import Mathlib.Logic.Equiv.Basic

/-!
# Locations in other texts

A location carries the text that it lies in, of which only the numbers of the lines are ever looked
at. So each text can be replaced by another one in all locations, if texts that differ go on to
differ and the lines stay where they are: what is scanned at the same offsets is the same but for
the texts behind the locations.
-/

namespace Essl

open Text

/-! ## Without the text -/

/-- What is known of a text besides its characters. -/
def Code.bare (code : Code) : Code := { code with chars := [] }

/-- The bytes that a location covers, without the text that they are taken from. -/
def Location.bare (l : Location) : Location := { l with code := l.code.bare }

def Token.bare (t : Token) : Token := { t with location := t.location.bare }

def Located.bare {α : Type} (e : Located α) : Located α := { e with location := e.location.bare }

/-! ## In another text -/

/-- Another text for each text. -/
structure Code.Renaming where
  map : Code → Code
  injective : Function.Injective map
  line : ∀ code index, ((map code).lineColumn index).1 = (code.lineColumn index).1
  bare : ∀ code, (map code).bare = code.bare

/-- Two texts that have the same lines take each other's place. -/
def Code.Renaming.swap (a b : Code)
    (line : ∀ index, (a.lineColumn index).1 = (b.lineColumn index).1) (bare : a.bare = b.bare) :
    Code.Renaming where
  map := Equiv.swap a b
  injective := (Equiv.swap a b).injective
  line code index := by
    rw [Equiv.swap_apply_def]
    split
    · rename_i h
      rw [h, line]
    · split
      · rename_i h
        rw [h, line]
      · rfl
  bare code := by
    rw [Equiv.swap_apply_def]
    split
    · rename_i h
      rw [h, bare]
    · split
      · rename_i h
        rw [h, bare]
      · rfl

variable (ρ : Code.Renaming)

namespace Location

def rename (l : Location) : Location := { l with code := ρ.map l.code }

@[simp] theorem bare_rename (l : Location) : (l.rename ρ).bare = l.bare := by
  simp [rename, bare, ρ.bare]

@[simp] theorem join_rename (l m : Location) :
    (l.rename ρ).join (m.rename ρ) = (l.join m).rename ρ := by
  simp only [join, rename, ρ.injective.eq_iff]
  split <;> rfl

@[simp] theorem endpoint_rename (l : Location) :
    (l.rename ρ).endpoint = l.endpoint.rename ρ := rfl

theorem line_rename (l : Location) : (l.rename ρ).lineColumn.1 = l.lineColumn.1 := ρ.line _ _

end Location

namespace Token

def rename (t : Token) : Token := { t with location := t.location.rename ρ }

@[simp] theorem kind_rename (t : Token) : (t.rename ρ).kind = t.kind := rfl

@[simp] theorem text_rename (t : Token) : (t.rename ρ).text = t.text := rfl

@[simp] theorem location_rename (t : Token) : (t.rename ρ).location = t.location.rename ρ := rfl

@[simp] theorem isOperator_rename (t : Token) : (t.rename ρ).isOperator = t.isOperator := rfl

@[simp] theorem intValue?_rename (t : Token) : (t.rename ρ).intValue? = t.intValue? := rfl

@[simp] theorem bare_rename (t : Token) : (t.rename ρ).bare = t.bare := by simp [rename, bare]

end Token

namespace Located

variable {α : Type}

def rename (e : Located α) : Located α := { e with location := e.location.rename ρ }

@[simp] theorem bare_rename (e : Located α) : (e.rename ρ).bare = e.bare := by simp [rename, bare]

end Located

/-- The feed with its tokens and errors in the other texts. -/
def Feed.rename (feed : Feed) : Feed where
  deliveries := feed.deliveries.map fun d => ⟨d.errors.map (·.rename ρ), d.token.rename ρ⟩
  trailing := feed.trailing.map (·.rename ρ)

theorem Feed.tokens_rename (feed : Feed) :
    (feed.rename ρ).tokens = feed.tokens.map (·.rename ρ) := by
  simp [tokens, rename]

theorem Feed.errors_rename (feed : Feed) :
    (feed.rename ρ).errors = feed.errors.map (·.rename ρ) := by
  simp [errors, rename, List.flatMap_map, List.map_flatMap]

/-! ## The scan -/

namespace Scan

def State.rename (state : State) : State := { state with errors := state.errors.map (·.rename ρ) }

@[simp] theorem State.skip_rename (code : Code) (state : State) (gap : Gap) :
    (state.rename ρ).skip (ρ.map code) gap = (state.skip code gap).rename ρ := by
  obtain ⟨text, rest, _ | comment⟩ := gap
  · simp [State.skip, State.rename]
  · simp [State.skip, State.rename]
    rfl

@[simp] theorem State.reject_rename (code : Code) (state : State) (c : Char) :
    (state.rename ρ).reject (ρ.map code) c = (state.reject code c).rename ρ := by
  simp [State.reject, State.rename]
  rfl

@[simp] theorem State.advance_rename (state : State) (lexeme : Lexeme) :
    (state.rename ρ).advance lexeme = (state.advance lexeme).rename ρ := rfl

@[simp] theorem State.deliver_rename (code : Code) (state : State) (lexeme : Lexeme) :
    (state.rename ρ).deliver (ρ.map code) lexeme =
      ⟨(state.deliver code lexeme).errors.map (·.rename ρ),
        (state.deliver code lexeme).token.rename ρ⟩ := by
  obtain ⟨kind, text, rest, _ | _⟩ := lexeme
  · simp [State.deliver, State.rename]
    rfl
  · simp [State.deliver, State.rename]
    exact ⟨rfl, rfl⟩

/-- What a scan delivers depends on the offset, not on the text that it says it scans. -/
theorem feedFrom_rename (code : Code) (state : State) (cs : List Char) :
    feedFrom (ρ.map code) (state.rename ρ) cs = (feedFrom code state cs).rename ρ := by
  fun_induction feedFrom code state cs with
  | case1 state cs gap state' hrest =>
      rw [feedFrom_eq, State.skip_rename]
      simp [gap, hrest, Feed.rename, State.rename, state']
  | case2 state cs gap state' c tail hrest lexeme hlexeme later ih =>
      rw [feedFrom_eq, State.skip_rename]
      simp only [gap] at hrest
      simp [gap, hrest, hlexeme, ih, Feed.rename, state', later]
  | case3 state cs gap state' c tail hrest hnone ih =>
      rw [feedFrom_eq, State.skip_rename]
      simp only [gap] at hrest
      simp [gap, hrest, hnone, ih, state']

end Scan

end Essl
