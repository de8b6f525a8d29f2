import Essl.Proofs.Token.Lexical
import Essl.Number.Decimal

/-!
# Values of literals

A text that scans without errors has no numeral that runs into a word or does not fit. So every
number in it has a value.
-/

namespace Essl

open Text

/-! ## Reading -/

namespace Number

theorem splitSign_of_ne {c : Char} (cs : List Char) (hminus : c ≠ '-') (hplus : c ≠ '+') :
    splitSign (c :: cs) = (false, c :: cs) := by
  unfold splitSign
  split
  · rename_i heq
    exact absurd (List.cons.inj heq).1 hminus
  · rename_i heq
    exact absurd (List.cons.inj heq).1 hplus
  · rfl

theorem splitSign_digits {digits : List Char} (h : digits.all Char.isDigit = true) :
    splitSign digits = (false, digits) := by
  cases digits with
  | nil => rfl
  | cons c cs =>
      have hc : c.isDigit = true := List.all_eq_true.1 h c List.mem_cons_self
      refine splitSign_of_ne cs ?_ ?_
      · rintro rfl
        exact absurd hc (by decide)
      · rintro rfl
        exact absurd hc (by decide)

theorem readExponent?_ne_none {e : Char} {sign digits : List Char} (he : e = 'e' ∨ e = 'E')
    (hsign : sign = [] ∨ sign = ['+'] ∨ sign = ['-']) (hne : digits ≠ [])
    (hdigits : digits.all Char.isDigit = true) : readExponent? (e :: (sign ++ digits)) ≠ none := by
  have hsplit : (splitSign (sign ++ digits)).2 = digits := by
    rcases hsign with rfl | rfl | rfl
    · rw [List.nil_append, splitSign_digits hdigits]
    · rfl
    · rfl
  simp only [readExponent?, hsplit]
  rw [if_pos ⟨he, hne, hdigits⟩]
  exact Option.some_ne_none _

/-- What follows some digits does not start with another one. -/
theorem span_digits {digits rest : List Char} (hdigits : digits.all Char.isDigit = true)
    (hrest : ∀ c ∈ rest.head?, c.isDigit = false) :
    (digits ++ rest).takeWhile Char.isDigit = digits ∧
      (digits ++ rest).dropWhile Char.isDigit = rest := by
  have hall := List.all_eq_true.1 hdigits
  rw [List.takeWhile_append_of_pos hall, List.dropWhile_append_of_pos hall]
  cases rest with
  | nil => simp
  | cons c cs => simp [hrest c rfl]

/-- An exponent starts with its letter. -/
theorem head_of_readExponent? {text : List Char} (h : readExponent? text ≠ none) :
    ∀ c ∈ text.head?, c = 'e' ∨ c = 'E' := by
  cases text with
  | nil => simp
  | cons e rest =>
      rintro _ ⟨⟩
      by_cases he : e = 'e' ∨ e = 'E'
      · exact he
      · exact absurd (by simp [readExponent?, he]) h

/-- The fraction and the exponent behind the digits in front. -/
def splitFraction : List Char → List Char × List Char
  | '.' :: rest => (rest.takeWhile Char.isDigit, rest.dropWhile Char.isDigit)
  | rest => ([], rest)

theorem readUnsigned?_ne_none {whole rest fraction exponent : List Char} (negative : Bool)
    (hwhole : whole.all Char.isDigit = true) (hrest : ∀ c ∈ rest.head?, c.isDigit = false)
    (hsplit : splitFraction rest = (fraction, exponent)) (hne : whole ≠ [] ∨ fraction ≠ [])
    (hexponent : readExponent? exponent ≠ none) :
    readUnsigned? negative (whole ++ rest) ≠ none := by
  obtain ⟨htake, hdrop⟩ := span_digits hwhole hrest
  have hdefinition : readUnsigned? negative (whole ++ rest) =
      (let digits := (whole ++ rest).takeWhile Char.isDigit
      let split := splitFraction ((whole ++ rest).dropWhile Char.isDigit)
      if digits.isEmpty && split.1.isEmpty then none
      else
        (readExponent? split.2).map fun exponent =>
          ofScientific negative (digitsValue (digits ++ split.1)) (exponent - split.1.length)) := rfl
  rw [hdefinition, htake, hdrop, hsplit]
  dsimp only
  rw [if_neg (by rcases hne with h | h <;> simp [h])]
  simpa using hexponent

theorem toLower_digit {c : Char} (h : c.isDigit = true) : c.toLower = c := by
  simp only [Char.isDigit, Bool.and_eq_true, decide_eq_true_eq] at h
  unfold Char.toLower
  rw [dif_neg]
  intro hupper
  exact absurd (UInt32.le_trans hupper.1 h.2) (by decide)

/-- What starts with a digit or a point is read as a numeral without a sign. -/
theorem read?_eq_readUnsigned? {c : Char} (cs : List Char) (h : c.isDigit = true ∨ c = '.') :
    read? (c :: cs) = readUnsigned? false (c :: cs) := by
  have hne {letter : Char} (hletter : letter.isDigit = false ∧ letter ≠ '.') : c ≠ letter := by
    rintro rfl
    rcases h with h | h
    · exact absurd (h.symm.trans hletter.1) (by decide)
    · exact hletter.2 h
  have hlower : c.toLower = c := by
    rcases h with h | rfl
    · exact toLower_digit h
    · rfl
  have hi : c ≠ 'i' := hne (by decide)
  have hn : c ≠ 'n' := hne (by decide)
  unfold read?
  rw [splitSign_of_ne cs (hne (by decide)) (hne (by decide))]
  simp [hlower, hi, hn]

theorem splitFraction_point {digits exponent : List Char} (hdigits : digits.all Char.isDigit = true)
    (hexponent : readExponent? exponent ≠ none) :
    splitFraction ('.' :: (digits ++ exponent)) = (digits, exponent) := by
  obtain ⟨htake, hdrop⟩ := span_digits hdigits fun c hc => by
    rcases head_of_readExponent? hexponent c hc with rfl | rfl <;> decide
  have hdefinition : splitFraction ('.' :: (digits ++ exponent)) =
      ((digits ++ exponent).takeWhile Char.isDigit, (digits ++ exponent).dropWhile Char.isDigit) :=
    rfl
  rw [hdefinition, htake, hdrop]

theorem splitFraction_exponent {exponent : List Char} (h : readExponent? exponent ≠ none) :
    splitFraction exponent = ([], exponent) := by
  unfold splitFraction
  split
  · have := head_of_readExponent? h '.' rfl
    simp at this
  · rfl

end Number

/-! ## Numerals -/

namespace Scan

theorem readExponent?_exponent (cs : List Char) :
    Number.readExponent? (exponent cs) ≠ none := by
  unfold exponent
  split
  · rename_i e rest
    split
    · rename_i hletter
      extract_lets sign digits
      split
      · simp [Number.readExponent?]
      · rename_i hdigits
        refine Number.readExponent?_ne_none (by simpa using hletter) ?_ (by simpa using hdigits)
          List.all_takeWhile
        cases rest with
        | nil => exact .inl rfl
        | cons c cs =>
            by_cases hplus : c = '+'
            · exact .inr (.inl (by simp [sign, hplus]))
            · by_cases hminus : c = '-'
              · exact .inr (.inr (by simp [sign, hminus]))
              · exact .inl (by simp [sign, hplus, hminus])
    · simp [Number.readExponent?]
  · simp [Number.readExponent?]

theorem fraction_cases (cs : List Char) : fraction cs = [] ∨
    ∃ digits, fraction cs = '.' :: digits ∧ digits.all Char.isDigit = true := by
  unfold fraction
  split
  · exact .inr ⟨_, rfl, List.all_takeWhile⟩
  · exact .inl rfl

/-- A numeral has a digit in front of the point or behind it. -/
theorem digits_of_startsNumber {cs : List Char} (h : startsNumber cs = true) :
    cs.takeWhile Char.isDigit ≠ [] ∨
      ∃ digits, fraction (cs.drop (cs.takeWhile Char.isDigit).length) = '.' :: digits ∧
        digits ≠ [] := by
  unfold startsNumber at h
  split at h
  · rename_i c rest
    exact .inr ⟨(c :: rest).takeWhile Char.isDigit, by simp [fraction], by simp [h]⟩
  · rename_i c rest _
    exact .inl (by simp [h])
  · cases h

/-- Digits, perhaps a fraction and perhaps an exponent are the numeral of a float. -/
theorem read?_parts {whole fraction exponent : List Char} (hwhole : whole.all Char.isDigit = true)
    (hfraction : fraction = [] ∨
      ∃ digits, fraction = '.' :: digits ∧ digits.all Char.isDigit = true)
    (hne : whole ≠ [] ∨ ∃ digits, fraction = '.' :: digits ∧ digits ≠ [])
    (hexponent : Number.readExponent? exponent ≠ none) :
    Number.read? (whole ++ (fraction ++ exponent)) ≠ none := by
  have hunsigned : Number.readUnsigned? false (whole ++ (fraction ++ exponent)) ≠ none := by
    rcases hfraction with rfl | ⟨digits, rfl, hdigits⟩
    · refine Number.readUnsigned?_ne_none false hwhole ?_
        (Number.splitFraction_exponent hexponent) (.inl (by simpa using hne)) hexponent
      intro c hc
      rcases Number.head_of_readExponent? hexponent c hc with rfl | rfl <;> decide
    · refine Number.readUnsigned?_ne_none false hwhole (by simp)
        (Number.splitFraction_point hdigits hexponent) (hne.imp_right ?_) hexponent
      rintro ⟨others, heq, hothers⟩
      rwa [(List.cons.inj heq).2]
  cases whole with
  | cons c rest =>
      have hc : c.isDigit = true := List.all_eq_true.1 hwhole c List.mem_cons_self
      rwa [List.cons_append, Number.read?_eq_readUnsigned? _ (.inl hc)]
  | nil =>
      obtain ⟨digits, rfl, -⟩ := hne.resolve_left (by simp)
      rwa [List.nil_append, List.cons_append, Number.read?_eq_readUnsigned? _ (.inr rfl)]

theorem read?_numeral {cs : List Char} (hstart : startsNumber cs = true)
    (hkind : (numeral cs).1 = .floatConstant) : Number.read? (numeral cs).2 ≠ none := by
  unfold numeral at hkind ⊢
  split
  · cases hkind
  · cases hkind
  · dsimp only
    rw [List.append_assoc]
    exact read?_parts List.all_takeWhile (fraction_cases _) (digits_of_startsNumber hstart)
      (readExponent?_exponent _)

/-! ## Texts without errors -/

end Scan

/-- If the token is a number, it has a value. -/
def Token.HasValue (t : Token) : Prop :=
  match t.kind with
  | .intConstant => t.intValue? ≠ none
  | .floatConstant => Number.read? t.text.toList ≠ none
  | _ => True

theorem Token.HasValue.congr {t u : Token} (h : t.HasValue) (hkind : u.kind = t.kind)
    (htext : u.text = t.text) : u.HasValue := by
  unfold HasValue Token.intValue?
  rw [hkind, htext]
  exact h

namespace Scan

theorem number_hasValue {cs : List Char} (hstart : startsNumber cs = true)
    (h : (number cs).malformed = false) {t : Token} (hkind : t.kind = (number cs).kind)
    (htext : t.text = String.ofList (number cs).text) : t.HasValue := by
  simp only [number, Bool.or_eq_false_iff, Bool.not_eq_false', List.isEmpty_iff] at h hkind htext
  obtain ⟨hsuffix, hvalue⟩ := h
  rw [hsuffix, List.append_nil] at hvalue htext
  unfold Token.HasValue Token.intValue?
  rw [hkind, htext, String.toList_ofList]
  rcases numeral_kind cs with hint | hfloat
  · simpa [hint, Option.isSome_iff_ne_none] using hvalue
  · simpa [hfloat] using read?_numeral hstart hfloat

theorem wordKind_cases (word : String) : (∃ keyword, wordKind word = .keyword keyword) ∨
    wordKind word = .boolConstant ∨ wordKind word = .identifier := by
  unfold wordKind
  split
  · exact .inl ⟨_, rfl⟩
  · split
    · exact .inr (.inl rfl)
    · exact .inr (.inr rfl)

theorem deliver_hasValue {cs : List Char} {lexeme : Lexeme} (h : lexeme? cs = some lexeme)
    {state : State} {code : Code} (herrors : (state.deliver code lexeme).errors = []) :
    (state.deliver code lexeme).token.HasValue := by
  have hmalformed : lexeme.malformed = false := by
    by_cases hm : lexeme.malformed = true
    · simp [State.deliver, hm] at herrors
    · simpa using hm
  unfold lexeme? at h
  split at h
  · rename_i hstart
    obtain rfl := Option.some.inj h
    exact number_hasValue hstart hmalformed rfl rfl
  · split at h
    · obtain rfl := Option.some.inj h
      rcases wordKind_cases (String.ofList (cs.takeWhile isWordPart)) with ⟨k, hk⟩ | hk | hk
      all_goals simp [Token.HasValue, State.deliver, word, hk]
    · obtain ⟨op, -, rfl⟩ := Option.map_eq_some_iff.1 h
      trivial

theorem feedFrom_hasValue (code : Code) (state : State) (cs : List Char) :
    ∀ d ∈ (feedFrom code state cs).deliveries, d.errors = [] → d.token.HasValue := by
  fun_induction feedFrom code state cs with
  | case1 => simp
  | case2 state cs gap state' c rest hrest lexeme hlexeme later ih =>
      intro d hd herrors
      rcases List.mem_cons.1 hd with rfl | hd
      · exact deliver_hasValue hlexeme herrors
      · exact ih d hd herrors
  | case3 state cs gap state' c rest hrest hlexeme ih => exact ih

end Scan

/-- The token is spelled like one of a text that scans without errors. -/
def Token.Flawless (t : Token) : Prop :=
  ∃ code : Code, code.scan.errors = [] ∧ ∃ u ∈ code.scan.tokens, t.kind = u.kind ∧ t.text = u.text

theorem Code.flawless_scan {code : Code} (h : code.scan.errors = []) :
    ∀ t ∈ code.scan.tokens, t.Flawless :=
  fun t ht => ⟨code, h, t, ht, rfl, rfl⟩

namespace Token.Flawless

variable {t : Token}

theorem lexical (h : t.Flawless) : t.Lexical := by
  obtain ⟨code, -, u, hu, hkind, htext⟩ := h
  exact (code.scan_lexical.tokens u hu).congr hkind htext

theorem hasValue (h : t.Flawless) : t.HasValue := by
  obtain ⟨code, herrors, u, hu, hkind, htext⟩ := h
  obtain ⟨d, hd, rfl⟩ := List.mem_map.1 hu
  have hclean : d.errors = [] :=
    List.flatMap_eq_nil_iff.1 (List.append_eq_nil_iff.1 herrors).1 d hd
  exact (Scan.feedFrom_hasValue code .start code.chars d hd hclean).congr hkind htext

end Token.Flawless

end Essl
