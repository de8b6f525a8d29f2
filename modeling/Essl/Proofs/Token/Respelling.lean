import Essl.Proofs.Token.Partition

/-!
# Tokens that are spelled out again

How far a token goes depends on what follows it. But its own text, with white space or nothing
after it, is read as the same token again. So the tokens of a text, spelled with a space between
each two, scan to themselves.
-/

namespace Essl

open Text

namespace Scan

/-! ## Texts that are set apart -/

/-- What follows a text is nothing, or a space. -/
def SetsApart (rest : List Char) : Prop := ∀ c ∈ rest.head?, c = ' '

/-- How much is read of a text does not depend on what follows it, as long as that is not read. -/
def Local (read : List Char → List Char) : Prop :=
  ∀ text rest space, SetsApart space → (read (text ++ rest)).length ≤ text.length →
    read (text ++ space) = read (text ++ rest)

theorem SetsApart.eq_nil_or {rest : List Char} (h : SetsApart rest) :
    rest = [] ∨ ∃ after, rest = ' ' :: after := by
  cases rest with
  | nil => exact .inl rfl
  | cons c after => exact .inr ⟨after, by rw [h c rfl]⟩

theorem takeWhile_append_of_length_le {p : Char → Bool} {text rest : List Char}
    (h : ((text ++ rest).takeWhile p).length ≤ text.length) :
    (text ++ rest).takeWhile p = text.takeWhile p := by
  rw [List.takeWhile_append] at h ⊢
  split at h
  · rename_i hall
    have hrest : rest.takeWhile p = [] := by
      rw [List.length_append] at h
      exact List.length_eq_zero_iff.1 (by omega)
    have htext : text.takeWhile p = text := (List.takeWhile_prefix p).eq_of_length hall
    rw [if_pos hall, hrest, List.append_nil, htext]
  · rename_i hsome
    rw [if_neg hsome]

theorem local_takeWhile {p : Char → Bool} (hp : p ' ' = false) : Local (List.takeWhile p) := by
  intro text rest space hspace h
  have hstop : space.takeWhile p = [] := by
    rcases hspace.eq_nil_or with rfl | ⟨after, rfl⟩
    · rfl
    · simp [hp]
  have hlength : ((text ++ space).takeWhile p).length ≤ text.length := by
    rw [List.takeWhile_append]
    split
    · simp [hstop]
    · exact (List.takeWhile_prefix p).length_le
  rw [takeWhile_append_of_length_le h, takeWhile_append_of_length_le hlength]

/-! ## Numerals -/

theorem local_fraction : Local fraction := by
  intro text rest space hspace h
  cases text with
  | nil =>
      have hnil : fraction rest = [] := List.length_eq_zero_iff.1 (Nat.le_zero.1 h)
      rcases hspace.eq_nil_or with rfl | ⟨after, rfl⟩ <;> exact hnil.symm
  | cons c text =>
      simp only [List.cons_append] at h ⊢
      by_cases hc : c = '.'
      · subst hc
        simp only [fraction, List.length_cons, Nat.add_le_add_iff_right] at h ⊢
        rw [local_takeWhile (by decide) text rest space hspace h]
      · simp [fraction, hc]

/-- An exponent has a letter and a digit at least. -/
theorem exponent_eq_nil {cs : List Char} (h : (exponent cs).length ≤ 1) : exponent cs = [] := by
  cases cs with
  | nil => rfl
  | cons e rest =>
      simp only [exponent] at h ⊢
      split
      · rename_i he
        rw [if_pos he] at h
        split
        · rfl
        · rename_i hdigits
          rw [if_neg hdigits] at h
          simp only [List.length_cons, List.length_append] at h
          exact absurd (List.isEmpty_iff_length_eq_zero.2 (by omega)) hdigits
      · rfl

theorem local_exponent : Local exponent := by
  intro text rest space hspace h
  match text with
  | [] =>
      rw [exponent_eq_nil (Nat.le_succ_of_le h)]
      rcases hspace.eq_nil_or with rfl | ⟨after, rfl⟩ <;> rfl
  | [e] =>
      rw [exponent_eq_nil h]
      rcases hspace.eq_nil_or with rfl | ⟨after, rfl⟩ <;> simp [exponent]
  | e :: c :: text =>
      -- The sign is in the text, and so are the digits.
      have hsign : ([c].filter fun c => c == '+' || c == '-').length ≤ (c :: text).length :=
        Nat.le_trans (List.length_filter_le _ _) (by simp)
      simp only [List.cons_append, exponent, List.take_succ_cons, List.take_zero] at h ⊢
      split
      · rename_i he
        rw [if_pos he] at h
        simp only [← List.cons_append, List.drop_append_of_le_length hsign] at h ⊢
        rw [local_takeWhile (by decide) _ rest space hspace]
        split at h
        · rename_i hempty
          rw [List.isEmpty_iff.1 hempty]
          exact Nat.zero_le _
        · simp only [List.length_cons, List.length_append, List.length_drop] at h ⊢
          omega
      · rfl

/-- The letter after the zero that a hexadecimal numeral begins with. -/
def IsHexMark (c : Char) : Prop := c = 'x' ∨ c = 'X'

theorem numeral_hex {x : Char} (hx : IsHexMark x) (cs : List Char) :
    numeral ('0' :: x :: cs) = (.intConstant, '0' :: x :: cs.takeWhile isHexDigit) := by
  obtain rfl | rfl := hx <;> rfl

theorem numeral_decimal {cs : List Char} (h : ∀ x rest, IsHexMark x → cs ≠ '0' :: x :: rest) :
    numeral cs =
      (let whole := cs.takeWhile Char.isDigit
       let fraction := fraction (cs.drop whole.length)
       let exponent := exponent (cs.drop (whole.length + fraction.length))
       (if fraction.isEmpty && exponent.isEmpty then .intConstant else .floatConstant,
        whole ++ fraction ++ exponent)) :=
  numeral.eq_3 cs (fun rest => h 'x' rest (.inl rfl)) (fun rest => h 'X' rest (.inr rfl))

theorem SetsApart.append_ne_hex {text space : List Char} (hspace : SetsApart space)
    (h : ∀ x rest, IsHexMark x → text ≠ '0' :: x :: rest) :
    ∀ x rest, IsHexMark x → text ++ space ≠ '0' :: x :: rest := by
  intro x rest hx heq
  have hne : ' ' ≠ x := by rintro rfl; obtain hx | hx := hx <;> cases hx
  match text with
  | [] =>
      rw [List.nil_append] at heq
      subst heq
      exact absurd (hspace '0' rfl) (by decide)
  | [c] =>
      obtain ⟨-, rfl⟩ := List.cons.inj heq
      exact hne (hspace x rfl).symm
  | c :: d :: text =>
      simp only [List.cons_append, List.cons.injEq] at heq
      exact h x text hx (by rw [heq.1, heq.2.1])

theorem numeral_append {text rest space : List Char} (hspace : SetsApart space)
    (h : (numeral (text ++ rest)).2.length ≤ text.length) :
    numeral (text ++ space) = numeral (text ++ rest) := by
  by_cases hhex : ∃ x tail, IsHexMark x ∧ text = '0' :: x :: tail
  · obtain ⟨x, tail, hx, rfl⟩ := hhex
    simp only [List.cons_append, numeral_hex hx, List.length_cons, Nat.add_le_add_iff_right] at h ⊢
    rw [local_takeWhile (by decide) tail rest space hspace h]
  · have htext : ∀ x tail, IsHexMark x → text ≠ '0' :: x :: tail :=
      fun x tail hx heq => hhex ⟨x, tail, hx, heq⟩
    have hrest : ∀ x tail, IsHexMark x → text ++ rest ≠ '0' :: x :: tail := by
      intro x tail hx heq
      rw [heq, numeral_hex hx] at h
      match text with
      | [] | [_] => simp at h
      | c :: d :: text =>
          simp only [List.cons_append, List.cons.injEq] at heq
          exact htext x text hx (by rw [heq.1, heq.2.1])
    rw [numeral_decimal hrest] at h ⊢
    rw [numeral_decimal (hspace.append_ne_hex htext)]
    dsimp only at h ⊢
    simp only [List.length_append] at h
    -- Each part lies in the text, and the next one starts where it ends.
    have hwhole := local_takeWhile (p := Char.isDigit) (by decide) text rest space hspace (by omega)
    simp only [hwhole]
    generalize (text ++ rest).takeWhile Char.isDigit = whole at h ⊢
    have hdrop (tail : List Char) :
        (text ++ tail).drop whole.length = text.drop whole.length ++ tail :=
      List.drop_append_of_le_length (by omega)
    simp only [hdrop] at h ⊢
    have hfraction := local_fraction (text.drop whole.length) rest space hspace
      (by rw [List.length_drop]; omega)
    simp only [hfraction]
    generalize fraction (text.drop whole.length ++ rest) = fraction at h ⊢
    have hdrop' (tail : List Char) : (text ++ tail).drop (whole.length + fraction.length) =
        text.drop (whole.length + fraction.length) ++ tail :=
      List.drop_append_of_le_length (by omega)
    simp only [hdrop'] at h ⊢
    rw [local_exponent _ rest space hspace (by rw [List.length_drop]; omega)]

/-! ## Lexemes -/

theorem startsNumber_cons {c : Char} (hc : c ≠ '.') (cs : List Char) :
    startsNumber (c :: cs) = c.isDigit := by
  simp [startsNumber, hc]

theorem startsNumber_append {text rest space : List Char} (h : startsNumber (text ++ rest) = true)
    (hlength : (numeral (text ++ rest)).2.length ≤ text.length) :
    startsNumber (text ++ space) = true := by
  match text with
  | [] => exact absurd (length_numeral_pos h) (Nat.not_lt.2 hlength)
  | [c] =>
      by_cases hc : c = '.'
      · subst hc
        -- The digit that has to follow belongs to the numeral.
        match rest with
        | [] => cases h
        | d :: rest =>
            have hd : d.isDigit = true := h
            rw [numeral_decimal (fun x tail _ heq => by cases heq)] at hlength
            simp [fraction, hd] at hlength
      · rw [List.singleton_append, startsNumber_cons hc] at h ⊢
        exact h
  | c :: d :: text =>
      by_cases hc : c = '.'
      · subst hc
        exact h
      · rw [List.cons_append, startsNumber_cons hc] at h ⊢
        exact h

theorem number_append_space {text rest space : List Char} (hspace : SetsApart space)
    (h : (number (text ++ rest)).text = text) :
    number (text ++ space) = { number (text ++ rest) with text, rest := space } := by
  have hdigits : (numeral (text ++ rest)).2.length ≤ text.length := by
    have hlength := congrArg List.length h
    simp only [number, List.length_append] at hlength
    omega
  have hnumeral := numeral_append hspace hdigits
  have hdrop (tail : List Char) : (text ++ tail).drop (numeral (text ++ rest)).2.length =
      text.drop (numeral (text ++ rest)).2.length ++ tail := List.drop_append_of_le_length hdigits
  simp only [number, hnumeral, hdrop] at h ⊢
  have hsuffix := local_takeWhile (p := isWordPart) (by decide)
    (text.drop (numeral (text ++ rest)).2.length) rest space hspace
  rw [hsuffix]
  · rw [h]
    simp
  · have hlength := congrArg List.length h
    rw [List.length_append] at hlength
    rw [List.length_drop]
    omega

theorem lexeme?_spelling (op : Operator) {space : List Char} (hspace : SetsApart space) :
    lexeme? (op.spelling ++ space) =
      some { kind := .operator op, text := op.spelling, rest := space } := by
  obtain rfl | ⟨after, rfl⟩ := hspace.eq_nil_or <;> cases op <;> rfl

theorem word_append_space {text rest space : List Char} (hspace : SetsApart space)
    (h : (word (text ++ rest)).text = text) :
    word (text ++ space) = { word (text ++ rest) with text, rest := space } := by
  have htake : (text ++ rest).takeWhile isWordPart = text := h
  have hagain : (text ++ space).takeWhile isWordPart = text := by
    rw [local_takeWhile (by decide) text rest space hspace (by rw [htake]), htake]
  have hrest : (text ++ space).dropWhile isWordPart = space := by
    have hsplit := List.takeWhile_append_dropWhile (p := isWordPart) (l := text ++ space)
    rw [hagain] at hsplit
    exact List.append_cancel_left hsplit
  simp only [word, hagain, hrest, htake]

/-- A lexeme is read again if its text is set apart. -/
theorem lexeme?_append_space {text rest space : List Char} {kind : TokenKind} {malformed : Bool}
    (hspace : SetsApart space)
    (h : lexeme? (text ++ rest) = some ⟨kind, text, rest, malformed⟩) :
    lexeme? (text ++ space) = some ⟨kind, text, space, malformed⟩ := by
  have hne : text ≠ [] := lexeme?_text_ne_nil h
  unfold lexeme? at h
  split at h
  · rename_i hstart
    have hnumber := Option.some.inj h
    have htext : (number (text ++ rest)).text = text := congrArg Lexeme.text hnumber
    have hlength : (numeral (text ++ rest)).2.length ≤ text.length := by
      have := congrArg List.length htext
      simp only [number, List.length_append] at this
      omega
    rw [lexeme?, if_pos (startsNumber_append hstart hlength), number_append_space hspace htext,
      hnumber]
  · rename_i hnumber
    split at h
    · rename_i hstart
      have hword := Option.some.inj h
      have htext : (word (text ++ rest)).text = text := congrArg Lexeme.text hword
      obtain ⟨c, tail, rfl⟩ := List.exists_cons_of_ne_nil hne
      have hc : c ≠ '.' := by
        rintro rfl
        have hdot : isWordStart '.' = false := by decide
        exact absurd hstart (by simp [startsWord, hdot])
      rw [List.cons_append, startsNumber_cons hc] at hnumber
      have hstart' : startsWord (c :: tail ++ space) = true := hstart
      have hnumber' : ¬ startsNumber (c :: tail ++ space) = true := by
        rwa [List.cons_append, startsNumber_cons hc]
      rw [lexeme?, if_neg hnumber', if_pos hstart', word_append_space hspace htext, hword]
    · obtain ⟨op, -, hop⟩ := Option.map_eq_some_iff.1 h
      obtain ⟨rfl, rfl, -, rfl⟩ := Lexeme.mk.inj hop
      exact lexeme?_spelling op hspace

/-! ## Gaps -/

/-- Neither white space nor a comment begins the text. -/
structure Bare (cs : List Char) : Prop where
  blank : ∀ c ∈ cs.head?, isBlank c = false
  lineComment : ¬ ['/', '/'] <+: cs
  blockComment : ¬ ['/', '*'] <+: cs

theorem gap_rest_bare (cs : List Char) : Bare (gap cs).rest := by
  fun_induction gap cs with
  | case1 => exact ⟨by simp, by simp, by simp⟩
  | case2 _ ih => exact ih
  | case3 _ _ _ _ ih => exact ih
  | case4 => exact ⟨by simp, by simp, by simp⟩
  | case5 _ _ _ _ _ ih => exact ih
  | case6 c rest hline hblock hblank =>
      refine ⟨by simpa using hblank, ?_, ?_⟩
      · rintro ⟨tail, htail⟩
        obtain ⟨hc, hrest⟩ := List.cons.inj htail
        exact hline tail hc.symm hrest.symm
      · rintro ⟨tail, htail⟩
        obtain ⟨hc, hrest⟩ := List.cons.inj htail
        exact hblock tail hc.symm hrest.symm

theorem Bare.gap_eq {cs : List Char} (h : Bare cs) : gap cs = ⟨[], cs, none⟩ := by
  fun_cases gap cs with
  | case1 => rfl
  | case2 rest => exact absurd ⟨rest, rfl⟩ h.lineComment
  | case3 rest => exact absurd ⟨rest, rfl⟩ h.blockComment
  | case4 rest => exact absurd ⟨rest, rfl⟩ h.blockComment
  | case5 c rest _ _ hblank => exact absurd hblank (by simp [h.blank c rfl])
  | case6 => rfl

theorem Bare.append_space {text rest space : List Char} (h : Bare (text ++ rest))
    (hne : text ≠ []) (hspace : SetsApart space) : Bare (text ++ space) := by
  have hpair {d : Char} (hd : d ≠ ' ') (hrest : ¬ ['/', d] <+: text ++ rest) :
      ¬ ['/', d] <+: text ++ space := by
    rintro ⟨tail, htail⟩
    match text with
    | [] => exact hne rfl
    | [c] =>
        simp only [List.cons_append, List.nil_append, List.cons.injEq] at htail
        obtain ⟨-, rfl⟩ := htail
        exact hd (hspace d rfl)
    | c :: e :: text =>
        simp only [List.cons_append, List.nil_append, List.cons.injEq] at htail
        obtain ⟨rfl, rfl, -⟩ := htail
        exact hrest ⟨text ++ rest, rfl⟩
  refine ⟨?_, hpair (by decide) h.lineComment, hpair (by decide) h.blockComment⟩
  obtain ⟨c, tail, rfl⟩ := List.exists_cons_of_ne_nil hne
  exact h.blank

theorem gap_space {text cs : List Char} (h : Bare cs) (htext : text = ' ' :: cs) :
    gap text = ⟨[' '], cs, none⟩ := by
  fun_cases gap text with
  | case1 => cases htext
  | case2 => simp at htext
  | case3 => simp at htext
  | case4 => simp at htext
  | case5 c rest =>
      obtain ⟨rfl, rfl⟩ := List.cons.inj htext
      rw [h.gap_eq]
      rfl
  | case6 c rest _ _ hblank =>
      obtain ⟨rfl, rfl⟩ := List.cons.inj htext
      exact absurd isBlank_space hblank

/-! ## The scan -/

theorem feedFrom_nil (code : Code) (state : State) :
    feedFrom code state [] = ⟨[], state.errors⟩ := by
  have hgap : gap [] = ⟨[], [], none⟩ := Bare.gap_eq ⟨by simp, by simp, by simp⟩
  fun_cases feedFrom code state [] with
  | case1 gap' state' => simp [state', gap', State.skip, hgap]
  | case2 gap' _ _ _ hrest => simp [gap', hgap] at hrest
  | case3 gap' _ _ _ hrest => simp [gap', hgap] at hrest

theorem feedFrom_lexeme {code : Code} {cs lead : List Char} {lexeme : Lexeme} (state : State)
    (hgap : gap cs = ⟨lead, lexeme.text ++ lexeme.rest, none⟩)
    (hlexeme : lexeme? (lexeme.text ++ lexeme.rest) = some lexeme) :
    feedFrom code state cs =
      ⟨(state.skip code (gap cs)).deliver code lexeme ::
          (feedFrom code ((state.skip code (gap cs)).advance lexeme) lexeme.rest).deliveries,
        (feedFrom code ((state.skip code (gap cs)).advance lexeme) lexeme.rest).trailing⟩ := by
  have hrest : (gap cs).rest = lexeme.text ++ lexeme.rest := by rw [hgap]
  fun_cases feedFrom code state cs with
  | case1 gap state' hnil =>
      have hnone := hlexeme
      rw [← hrest, hnil] at hnone
      cases hnone
  | case2 gap state' c rest hcons found hfound later =>
      rw [← hrest, hcons, hfound] at hlexeme
      obtain rfl := Option.some.inj hlexeme
      rfl
  | case3 gap state' c rest hcons hnone =>
      rw [← hrest, hcons, hnone] at hlexeme
      cases hlexeme

end Scan

/-! ## Spelling out tokens -/

/-- How a token reads, wherever it stands. -/
def Token.reading (t : Token) : TokenKind × String := (t.kind, t.text)

/-- The texts of tokens with a space between each two. -/
def respelling (tokens : List Token) : String := " ".intercalate (tokens.map Token.text)

/-- Whether a cause is about a malformed numeral. -/
def FrontCause.isInvalidNumber : FrontCause → Bool
  | .lexical (.invalidNumber _) => true
  | _ => false

/-- The causes of those errors that are about malformed numerals. -/
def numeralFaults (errors : List FrontError) : List FrontCause :=
  (errors.map (·.cause)).filter FrontCause.isInvalidNumber

@[simp] theorem numeralFaults_nil : numeralFaults [] = [] := rfl

@[simp] theorem numeralFaults_append (a b : List FrontError) :
    numeralFaults (a ++ b) = numeralFaults a ++ numeralFaults b := by
  simp [numeralFaults]

namespace Scan

/-- What is said of a token, if it is malformed. -/
def faults (malformed : Bool) (text : String) : List FrontCause :=
  if malformed then [.lexical (.invalidNumber text)] else []

/-- A delivered token is read again wherever its text is set apart, with the same fault. -/
def Respells (d : Delivery) : Prop :=
  ∃ malformed, numeralFaults d.errors = faults malformed d.token.text ∧
    ∀ space, SetsApart space → Bare (d.token.text.toList ++ space) ∧
      lexeme? (d.token.text.toList ++ space) =
        some ⟨d.token.kind, d.token.text.toList, space, malformed⟩

theorem numeralFaults_skip (code : Code) (state : State) (gap : Gap) :
    numeralFaults (state.skip code gap).errors = numeralFaults state.errors := by
  cases hunclosed : gap.unclosed with
  | none => simp [State.skip, hunclosed]
  | some comment =>
      simp only [State.skip, hunclosed, Option.map_some, Option.toList_some, numeralFaults_append]
      exact List.append_nil _

theorem numeralFaults_reject (code : Code) (state : State) (c : Char) :
    numeralFaults (state.reject code c).errors = numeralFaults state.errors := by
  simp only [State.reject, numeralFaults_append]
  exact List.append_nil _

theorem numeralFaults_deliver (code : Code) (state : State) (lexeme : Lexeme) :
    numeralFaults (state.deliver code lexeme).errors =
      numeralFaults state.errors ++ faults lexeme.malformed (String.ofList lexeme.text) := by
  cases hmalformed : lexeme.malformed <;>
    simp only [State.deliver, hmalformed, numeralFaults_append] <;> rfl

/-- What a scan delivers can be spelled out again. -/
theorem feedFrom_respells (code : Code) (state : State) (cs : List Char) :
    numeralFaults state.errors = [] →
      (∀ d ∈ (feedFrom code state cs).deliveries, Respells d) ∧
        numeralFaults (feedFrom code state cs).trailing = [] := by
  fun_induction feedFrom code state cs with
  | case1 state cs gap state' hrest =>
      intro h
      refine ⟨by simp, ?_⟩
      rw [← h]
      exact numeralFaults_skip code state gap
  | case2 state cs gap state' c rest hrest lexeme hlexeme later ih =>
      intro h
      obtain ⟨hlater, htrailing⟩ := ih rfl
      refine ⟨List.forall_mem_cons.2 ⟨?_, hlater⟩, htrailing⟩
      have htext : (state'.deliver code lexeme).token.text.toList = lexeme.text :=
        String.toList_ofList
      have happend := lexeme?_append hlexeme
      have hbare : Bare (lexeme.text ++ lexeme.rest) := by
        rw [happend, ← hrest]
        exact gap_rest_bare cs
      refine ⟨lexeme.malformed, ?_, fun space hspace => ?_⟩
      · rw [numeralFaults_deliver, numeralFaults_skip, h]
        rfl
      · rw [htext]
        refine ⟨hbare.append_space (lexeme?_text_ne_nil hlexeme) hspace, ?_⟩
        rw [← happend] at hlexeme
        exact lexeme?_append_space hspace hlexeme
  | case3 state cs gap state' c rest hrest hlexeme ih =>
      intro h
      apply ih
      rw [numeralFaults_reject, numeralFaults_skip, h]

/-- The texts of tokens, each with a space before it. -/
def spaced (ds : List Delivery) : List Char := ds.flatMap fun d => ' ' :: d.token.text.toList

theorem setsApart_spaced (ds : List Delivery) : SetsApart (spaced ds) := by
  cases ds with
  | nil => rintro c ⟨⟩
  | cons d ds => rintro c ⟨⟩; rfl

/-- A feed reads as some deliveries do, and has their faults only. -/
structure ReadsAs (feed : Feed) (ds : List Delivery) : Prop where
  tokens : feed.tokens.map Token.reading = ds.map (·.token.reading)
  causes : feed.errors.map (·.cause) = ds.flatMap (numeralFaults ·.errors)

theorem ReadsAs.cons {code : Code} {state : State} {cs lead : List Char} {d : Delivery}
    {ds : List Delivery} (hd : Respells d) (herrors : state.errors = [])
    (hgap : Bare (d.token.text.toList ++ spaced ds) →
      gap cs = ⟨lead, d.token.text.toList ++ spaced ds, none⟩)
    (hds : ∀ state : State, state.errors = [] → ReadsAs (feedFrom code state (spaced ds)) ds) :
    ReadsAs (feedFrom code state cs) (d :: ds) := by
  obtain ⟨malformed, hfaults, hagain⟩ := hd
  obtain ⟨hbare, hlexeme⟩ := hagain _ (setsApart_spaced ds)
  obtain ⟨lexeme, hfound⟩ : ∃ lexeme : Lexeme,
      lexeme = ⟨d.token.kind, d.token.text.toList, spaced ds, malformed⟩ := ⟨_, rfl⟩
  have hkind : lexeme.kind = d.token.kind := by rw [hfound]
  have htext : lexeme.text = d.token.text.toList := by rw [hfound]
  have hrest : lexeme.rest = spaced ds := by rw [hfound]
  have hmalformed : lexeme.malformed = malformed := by rw [hfound]
  have hgap := hgap hbare
  rw [← hfound] at hlexeme
  rw [← htext, ← hrest] at hlexeme hgap
  rw [feedFrom_lexeme state hgap hlexeme, hrest]
  have hlater := hds ((state.skip code (gap cs)).advance lexeme) rfl
  generalize feedFrom code _ (spaced ds) = later at hlater ⊢
  refine ⟨?_, ?_⟩
  · rw [List.map_cons, ← hlater.tokens]
    simp [Feed.tokens, State.deliver, Token.reading, hkind, htext]
  · rw [List.flatMap_cons, ← hlater.causes, hfaults]
    cases malformed
    · simp [Feed.errors, State.deliver, State.skip, hgap, herrors, faults, hmalformed]
    · simp [Feed.errors, State.deliver, State.skip, hgap, herrors, faults, hmalformed, htext]
      rfl

theorem feedFrom_spaced {code : Code} {ds : List Delivery} (h : ∀ d ∈ ds, Respells d) :
    ∀ state : State, state.errors = [] → ReadsAs (feedFrom code state (spaced ds)) ds := by
  induction ds with
  | nil =>
      intro state herrors
      rw [spaced, List.flatMap_nil, feedFrom_nil, herrors]
      exact ⟨rfl, rfl⟩
  | cons d ds ih =>
      intro state herrors
      obtain ⟨hd, hds⟩ := List.forall_mem_cons.1 h
      exact ReadsAs.cons hd herrors (fun hbare => gap_space hbare rfl) (ih hds)

/-- The same without a space before the first token. -/
theorem feedFrom_spaced_tail {code : Code} {ds : List Delivery} (h : ∀ d ∈ ds, Respells d) :
    ReadsAs (feedFrom code .start (spaced ds).tail) ds := by
  cases ds with
  | nil => exact feedFrom_spaced h .start rfl
  | cons d ds =>
      obtain ⟨hd, hds⟩ := List.forall_mem_cons.1 h
      exact ReadsAs.cons hd rfl Bare.gap_eq (feedFrom_spaced hds)

theorem intercalate_space (text : List Char) (texts : List (List Char)) :
    [' '].intercalate (text :: texts) = text ++ texts.flatMap (' ' :: ·) := by
  induction texts generalizing text with
  | nil => simp
  | cons next texts ih => rw [List.intercalate_cons_cons, ih]; simp

theorem respelling_toList (ds : List Delivery) :
    (respelling (ds.map (·.token))).toList = (spaced ds).tail := by
  rw [respelling, String.toList_intercalate]
  cases ds with
  | nil => rfl
  | cons d ds =>
      simp only [List.map_cons]
      exact (intercalate_space _ _).trans (by simp [spaced, List.flatMap_map])

end Scan

/-- The tokens of a text, spelled out with a space between each two, scan to the same tokens. Of the
errors only those about malformed numerals come back, and no other error does. -/
theorem Code.scan_respelled (code : Code) (firstLine : Nat) (origin : Origin) :
    let again : Code := ⟨(respelling code.scan.tokens).toList, firstLine, origin⟩
    again.scan.tokens.map Token.reading = code.scan.tokens.map Token.reading ∧
      again.scan.errors.map (·.cause) =
        (code.scan.errors.map (·.cause)).filter FrontCause.isInvalidNumber := by
  intro again
  obtain ⟨hrespells, htrailing⟩ := Scan.feedFrom_respells code .start code.chars rfl
  have hagain : Scan.ReadsAs again.scan code.scan.deliveries := by
    have hchars : again.chars = (Scan.spaced code.scan.deliveries).tail :=
      Scan.respelling_toList code.scan.deliveries
    rw [Code.scan, hchars]
    exact Scan.feedFrom_spaced_tail hrespells
  refine ⟨?_, ?_⟩
  · rw [hagain.tokens, Feed.tokens, List.map_map]
    rfl
  · have hfaults : numeralFaults code.scan.errors =
        code.scan.deliveries.flatMap (numeralFaults ·.errors) := by
      have hall (ds : List Delivery) : numeralFaults (ds.flatMap Delivery.errors) =
          ds.flatMap (numeralFaults ·.errors) := by
        induction ds with
        | nil => rfl
        | cons d ds ih => simp [ih]
      rw [Feed.errors, numeralFaults_append, hall]
      exact (congrArg _ htrailing).trans (List.append_nil _)
    rw [hagain.causes]
    exact hfaults.symm

end Essl
