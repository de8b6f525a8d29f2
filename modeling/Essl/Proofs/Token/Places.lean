import Essl.Proofs.Text.Boundary

/-!
# Places of tokens and errors

What a scan delivers lies in its text, covers whole characters and comes in the order of the text:
an error never starts behind the token that it is delivered with, and everything that is delivered
later starts where that token ends or behind it.
-/

namespace Essl

open Text

/-! ## Joined locations -/

/-- The location covers whole characters of a certain text. -/
structure Location.ExactIn (code : Code) (l : Location) : Prop where
  code : l.code = code
  exact : l.Exact

/-- The location is that of a token, or joined from such locations. -/
inductive Location.JoinedFrom (ts : List Token) : Location → Prop
  | token {t : Token} (ht : t ∈ ts) : JoinedFrom ts t.location
  | join {l m : Location} (hl : JoinedFrom ts l) (hm : JoinedFrom ts m) : JoinedFrom ts (l.join m)

/-- The location is joined from those of tokens, or the end of such a location. -/
def Location.MadeFrom (ts : List Token) (l : Location) : Prop :=
  l.JoinedFrom ts ∨ ∃ m : Location, m.JoinedFrom ts ∧ l = m.endpoint

namespace Location

variable {code : Code} {l m : Location} {ts : List Token}

theorem ExactIn.join (hl : l.ExactIn code) (hm : m.ExactIn code) : (l.join m).ExactIn code where
  code := by
    unfold Location.join
    split
    · exact hl.code
    · exact hl.code
  exact := hl.exact.join hm.exact

theorem ExactIn.endpoint (h : l.ExactIn code) : l.endpoint.ExactIn code :=
  ⟨h.code, h.exact.endpoint⟩

theorem start_join (hl : l.code = code) (hm : m.code = code) :
    (l.join m).start = min l.start m.start := by
  rw [Location.join, if_pos (hl.trans hm.symm)]

theorem stop_join (hl : l.code = code) (hm : m.code = code) :
    (l.join m).stop = max l.stop m.stop := by
  rw [Location.join, if_pos (hl.trans hm.symm)]

namespace JoinedFrom

theorem exactIn (h : l.JoinedFrom ts) (hts : ∀ t ∈ ts, t.location.ExactIn code) :
    l.ExactIn code := by
  induction h with
  | token ht => exact hts _ ht
  | join _ _ ihl ihm => exact ihl.join ihm

/-- A location that is joined from those of tokens starts where one of them does. -/
theorem exists_start (h : l.JoinedFrom ts) (hts : ∀ t ∈ ts, t.location.ExactIn code) :
    ∃ t ∈ ts, t.location.start = l.start := by
  induction h with
  | token ht => exact ⟨_, ht, rfl⟩
  | @join l m hl hm ihl ihm =>
      rw [start_join (hl.exactIn hts).code (hm.exactIn hts).code]
      rcases min_choice l.start m.start with heq | heq <;> rw [heq]
      · exact ihl
      · exact ihm

theorem exists_stop (h : l.JoinedFrom ts) (hts : ∀ t ∈ ts, t.location.ExactIn code) :
    ∃ t ∈ ts, t.location.stop = l.stop := by
  induction h with
  | token ht => exact ⟨_, ht, rfl⟩
  | @join l m hl hm ihl ihm =>
      rw [stop_join (hl.exactIn hts).code (hm.exactIn hts).code]
      rcases max_choice l.stop m.stop with heq | heq <;> rw [heq]
      · exact ihl
      · exact ihm

end JoinedFrom

theorem MadeFrom.exactIn (h : l.MadeFrom ts) (hts : ∀ t ∈ ts, t.location.ExactIn code) :
    l.ExactIn code := by
  rcases h with h | ⟨m, h, rfl⟩
  · exact h.exactIn hts
  · exact (h.exactIn hts).endpoint

end Location

/-! ## Feeds in order -/

/-- Characters that make no token, and the like. -/
def FrontCause.IsLexical (cause : FrontCause) : Prop := ∃ c, cause = .lexical c

/-- The errors start one after the other. -/
def Ordered (errors : List FrontError) : Prop :=
  errors.Pairwise (·.location.start ≤ ·.location.start)

namespace Feed

/-- All that is delivered lies in the text, and the errors are those of scanning it. -/
structure LocatedIn (code : Code) (feed : Feed) : Prop where
  tokens : ∀ t ∈ feed.tokens, t.location.ExactIn code
  errors : ∀ e ∈ feed.errors, e.location.ExactIn code ∧ e.cause.IsLexical

/-- All that is delivered starts at the offset or behind it. -/
structure After (offset : Nat) (feed : Feed) : Prop where
  tokens : ∀ t ∈ feed.tokens, offset ≤ t.location.start
  errors : ∀ e ∈ feed.errors, offset ≤ e.location.start

/-- What is delivered comes in the order of the text. -/
def InOrder (trailing : List FrontError) : List Delivery → Prop
  | [] => Ordered trailing
  | d :: rest =>
    Ordered d.errors ∧ (∀ e ∈ d.errors, e.location.start ≤ d.token.location.start) ∧
      After d.token.location.stop ⟨rest, trailing⟩ ∧ InOrder trailing rest

variable {offset : Nat} {d : Delivery} {rest : List Delivery} {trailing : List FrontError}

theorem forall_mem_tokens_cons {P : Token → Prop} :
    (∀ t ∈ tokens ⟨d :: rest, trailing⟩, P t) ↔
      P d.token ∧ ∀ t ∈ tokens ⟨rest, trailing⟩, P t := List.forall_mem_cons

theorem errors_cons :
    errors ⟨d :: rest, trailing⟩ = d.errors ++ errors ⟨rest, trailing⟩ := by
  simp only [errors, List.flatMap_cons, List.append_assoc]

theorem forall_mem_errors_cons {P : FrontError → Prop} :
    (∀ e ∈ errors ⟨d :: rest, trailing⟩, P e) ↔
      (∀ e ∈ d.errors, P e) ∧ ∀ e ∈ errors ⟨rest, trailing⟩, P e := by
  rw [errors_cons]
  exact List.forall_mem_append

theorem after_cons : After offset ⟨d :: rest, trailing⟩ ↔
    (∀ e ∈ d.errors, offset ≤ e.location.start) ∧ offset ≤ d.token.location.start ∧
      After offset ⟨rest, trailing⟩ := by
  constructor
  · rintro ⟨htokens, herrors⟩
    obtain ⟨htoken, htokens⟩ := forall_mem_tokens_cons.1 htokens
    obtain ⟨hfirst, herrors⟩ := forall_mem_errors_cons.1 herrors
    exact ⟨hfirst, htoken, htokens, herrors⟩
  · rintro ⟨hfirst, htoken, hrest⟩
    exact ⟨forall_mem_tokens_cons.2 ⟨htoken, hrest.tokens⟩,
      forall_mem_errors_cons.2 ⟨hfirst, hrest.errors⟩⟩

theorem locatedIn_cons {code : Code} : LocatedIn code ⟨d :: rest, trailing⟩ ↔
    (∀ e ∈ d.errors, e.location.ExactIn code ∧ e.cause.IsLexical) ∧
      d.token.location.ExactIn code ∧ LocatedIn code ⟨rest, trailing⟩ := by
  constructor
  · rintro ⟨htokens, herrors⟩
    obtain ⟨htoken, htokens⟩ := forall_mem_tokens_cons.1 htokens
    obtain ⟨hfirst, herrors⟩ := forall_mem_errors_cons.1 herrors
    exact ⟨hfirst, htoken, htokens, herrors⟩
  · rintro ⟨hfirst, htoken, hrest⟩
    exact ⟨forall_mem_tokens_cons.2 ⟨htoken, hrest.tokens⟩,
      forall_mem_errors_cons.2 ⟨hfirst, hrest.errors⟩⟩

theorem After.mono {earlier : Nat} {feed : Feed} (h : feed.After offset) (hle : earlier ≤ offset) :
    feed.After earlier :=
  ⟨fun t ht => hle.trans (h.tokens t ht), fun e he => hle.trans (h.errors e he)⟩

theorem after_empty : After offset .empty := ⟨by simp [tokens, empty], by simp [errors, empty]⟩

end Feed

/-! ## Scans -/

namespace Tile

variable {code : Code}

/-- An error about a tile is located there. -/
theorem complaint?_located {tile : Tile} {offset : Nat} {e : FrontError}
    (h : tile.complaint? code offset = some e) :
    e.cause.IsLexical ∧ e.location = ⟨code, offset, offset + byteLength tile.text⟩ := by
  unfold complaint? at h
  split at h
  all_goals simp only [Option.some.injEq, reduceCtorEq] at h
  all_goals subst h; exact ⟨⟨_, rfl⟩, rfl⟩

/-- Errors about tiles are those about each of them, at its place. -/
theorem mem_complaints {e : FrontError} {offset : Nat} {tiles : List Tile} :
    e ∈ complaints code offset tiles ↔ ∃ before tile after, tiles = before ++ tile :: after ∧
      tile.complaint? code (offset + byteLength (texts before)) = some e := by
  constructor
  · intro he
    induction tiles generalizing offset with
    | nil => simp [complaints] at he
    | cons tile tiles ih =>
        rw [complaints, List.mem_append, Option.mem_toList] at he
        rcases he with he | he
        · exact ⟨[], tile, tiles, rfl, he⟩
        · obtain ⟨before, found, after, rfl, hfound⟩ := ih he
          refine ⟨tile :: before, found, after, rfl, ?_⟩
          rwa [texts_cons, byteLength_append, ← Nat.add_assoc]
  · rintro ⟨before, tile, after, rfl, he⟩
    rw [complaints_append, complaints, he]
    simp

theorem complaints_ordered (offset : Nat) (tiles : List Tile) :
    Ordered (complaints code offset tiles) ∧ ∀ e ∈ complaints code offset tiles,
      offset ≤ e.location.start ∧ e.location.start ≤ offset + byteLength (texts tiles) := by
  induction tiles generalizing offset with
  | nil => simp [complaints, Ordered]
  | cons tile tiles ih =>
      obtain ⟨hordered, hbounds⟩ := ih (offset + byteLength tile.text)
      have hfirst : ∀ e ∈ (tile.complaint? code offset).toList, e.location.start = offset := by
        intro e he
        rw [(complaint?_located (Option.mem_toList.1 he)).2]
      have hone : Ordered (tile.complaint? code offset).toList := by
        cases tile.complaint? code offset <;> simp [Ordered]
      simp only [complaints, texts_cons, byteLength_append]
      refine ⟨List.pairwise_append.2 ⟨hone, hordered, fun e he f hf => ?_⟩, fun e he => ?_⟩
      · have hf := (hbounds f hf).1
        rw [hfirst e he]
        omega
      · rcases List.mem_append.1 he with he | he
        · rw [hfirst e he]
          omega
        · have he := hbounds e he
          omega

end Tile

namespace Scan

variable {code : Code}

/-- The errors that wait for the next token come one after the other before the offset. -/
structure State.InOrder (state : State) : Prop where
  errors : Ordered state.errors
  le : ∀ e ∈ state.errors, e.location.start ≤ state.offset

namespace State.InOrder

variable {state : State}

theorem add (h : state.InOrder) {later : State} {errors : List FrontError}
    (herrors : later.errors = state.errors ++ errors) (hordered : Ordered errors)
    (hbounds : ∀ e ∈ errors, state.offset ≤ e.location.start ∧ e.location.start ≤ later.offset)
    (hoffset : state.offset ≤ later.offset) : later.InOrder where
  errors := by
    rw [herrors]
    exact List.pairwise_append.2 ⟨h.errors, hordered,
      fun e he f hf => (h.le e he).trans (hbounds f hf).1⟩
  le e he := by
    rw [herrors] at he
    rcases List.mem_append.1 he with he | he
    · exact (h.le e he).trans hoffset
    · exact (hbounds e he).2

theorem skip (h : state.InOrder) {cs : List Char} {spaces : List Tile}
    (hspaces : (gap cs).Tiled code spaces) : (state.skip code (gap cs)).InOrder := by
  obtain ⟨hordered, hbounds⟩ := Tile.complaints_ordered state.offset spaces
  rw [hspaces.texts] at hbounds
  exact h.add (hspaces.errors state) hordered hbounds (Nat.le_add_right _ _)

theorem reject (h : state.InOrder) (c : Char) : (state.reject code c).InOrder := by
  have herrors : (state.reject code c).errors =
      state.errors ++ Tile.complaints code state.offset [.invalid c] := rfl
  obtain ⟨hordered, hbounds⟩ := Tile.complaints_ordered state.offset [.invalid c]
  exact h.add herrors hordered hbounds (Nat.le_add_right _ _)

/-- An error about the token itself starts where the token does. -/
theorem deliver (h : state.InOrder) (lexeme : Lexeme) :
    Ordered (state.deliver code lexeme).errors ∧
      ∀ e ∈ (state.deliver code lexeme).errors,
        e.location.start ≤ (state.deliver code lexeme).token.location.start := by
  have hadded : State.InOrder { state with errors := (state.deliver code lexeme).errors } := by
    refine h.add rfl ?_ ?_ (Nat.le_refl _)
    · split <;> simp [Ordered]
    · intro e he
      split at he
      · obtain rfl := List.mem_singleton.1 he
        exact ⟨Nat.le_refl _, Nat.le_refl _⟩
      · cases he
  exact ⟨hadded.errors, hadded.le⟩

end State.InOrder

/-- From where no error waits, all that a scan delivers is ahead. -/
theorem Laid.after {before tiles : List Tile} {state : State} {cs : List Char} {feed : Feed}
    (h : Laid code before state cs feed tiles) (hreached : Reached before state)
    (hstate : state.errors = []) : feed.After state.offset where
  tokens := by
    rw [h.tokens, hreached.offset]
    exact h.fits.tokens_ordered.1
  errors e he := by
    rw [h.errors, hstate, List.nil_append] at he
    exact ((Tile.complaints_ordered state.offset tiles).2 e he).1

theorem feedFrom_inOrder (state : State) (cs : List Char) :
    ∀ before, Reached before state → state.InOrder →
      Feed.InOrder (feedFrom code state cs).trailing (feedFrom code state cs).deliveries := by
  fun_induction feedFrom code state cs with
  | case1 state cs gap state' hrest =>
      intro before _ h
      obtain ⟨spaces, hspaces⟩ := gap_tiled code cs
      exact (h.skip hspaces).errors
  | case2 state cs gap state' c rest hrest lexeme hlexeme later ih =>
      intro before hreached h
      obtain ⟨spaces, hspaces⟩ := gap_tiled code cs
      have hadvanced := (hreached.skip hspaces).advance lexeme
        (state'.deliver code lexeme).token rfl
      obtain ⟨tiles, htiles⟩ := feedFrom_laid _ lexeme.rest _ hadvanced
      obtain ⟨hordered, hle⟩ := (h.skip hspaces).deliver lexeme
      exact ⟨hordered, hle, htiles.after hadvanced rfl,
        ih _ hadvanced ⟨List.Pairwise.nil, fun _ he => absurd he List.not_mem_nil⟩⟩
  | case3 state cs gap state' c rest hrest hlexeme ih =>
      intro before hreached h
      obtain ⟨spaces, hspaces⟩ := gap_tiled code cs
      exact ih _ ((hreached.skip hspaces).reject (isBlank_of_gap_rest hrest))
        ((h.skip hspaces).reject c)

end Scan

/-- What is scanned lies in the text. -/
theorem Code.scan_located (code : Code) : code.scan.LocatedIn code := by
  obtain ⟨tiles, htexts, hfits, htokens, herrors⟩ := code.exists_tiles
  have hexact : ∀ before tile after, tiles = before ++ tile :: after → Location.ExactIn code
      ⟨code, byteLength (Tile.texts before),
        byteLength (Tile.texts before) + byteLength tile.text⟩ := by
    rintro before tile after rfl
    exact ⟨rfl, Location.exact_of_append (by rw [← htexts, Tile.texts_append, Tile.texts_cons])⟩
  refine ⟨fun t ht => ?_, fun e he => ?_⟩
  · rw [htokens] at ht
    obtain ⟨before, malformed, after, hsplit⟩ := Tile.exists_of_mem_tokens ht
    rw [(hfits _ _ _ hsplit).location]
    exact hexact before _ after hsplit
  · rw [herrors] at he
    obtain ⟨before, tile, after, hsplit, he⟩ := Tile.mem_complaints.1 he
    obtain ⟨hlexical, hlocation⟩ := Tile.complaint?_located he
    rw [hlocation, Nat.zero_add]
    exact ⟨hexact before tile after hsplit, hlexical⟩

/-- What is scanned comes in the order of the text. -/
theorem Code.scan_inOrder (code : Code) : Feed.InOrder code.scan.trailing code.scan.deliveries :=
  Scan.feedFrom_inOrder .start code.chars [] .start
    ⟨List.Pairwise.nil, fun _ he => absurd he List.not_mem_nil⟩

end Essl
