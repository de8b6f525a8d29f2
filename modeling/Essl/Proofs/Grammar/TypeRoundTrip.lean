import Essl.Proofs.Grammar.TypeReading
import Essl.Proofs.Grammar.ExprRoundTrip

/-!
# Types are read back

The tokens of a well-formed type are read as that type, whatever follows them.
-/

namespace Essl

open Grammar

/-! ## First tokens and qualifiers -/

theorem mem_precisionTypeStart {kind : TokenKind} :
    kind ∈ precisionTypeStart ↔ kind ∈ precisionStart ∨ kind ∈ bareTypeStart := by
  rw [precisionTypeStart, List.mem_append]

theorem mem_qualifiedTypeStart {kind : TokenKind} :
    kind ∈ qualifiedTypeStart ↔ kind ∈ storageStart ∨ kind ∈ precisionTypeStart := by
  rw [qualifiedTypeStart, List.mem_append]

theorem TypeQualifiers.StorageAllowed.eq_of_cons {word : Token} {words : List Token}
    (h : TypeQualifiers.StorageAllowed (word :: words)) :
    word.kind ∈ storageStart ∧
      (words = [] ∧ word.kind ≠ .keyword (.qualifier .invariant) ∨
        ∃ varying, words = [varying] ∧ word.kind = .keyword (.qualifier .invariant) ∧
          varying.kind = .keyword (.qualifier .varying)) := by
  cases words with
  | nil => exact ⟨h.1, .inl ⟨rfl, h.2⟩⟩
  | cons varying words =>
      cases words with
      | nil => exact ⟨by rw [h.1]; decide, .inr ⟨varying, rfl, h.1, h.2⟩⟩
      | cons => exact h.elim

namespace TypeSpec

variable {s : TypeSpec} {w : List Token}

theorem exists_first_core (h : s.CoreFormed) (hw : Spells s.core w) :
    ∃ t v, w = t :: v ∧ t.kind ∈ bareTypeStart := by
  cases s with
  | named q name type =>
      obtain ⟨v, rfl, -⟩ := Spells.kept_cons_iff.1 hw
      exact ⟨name, v, rfl, h.1⟩
  | struct q keyword name opening fields closing defined type =>
      rw [core] at hw
      obtain ⟨v, rfl, -⟩ := Spells.kept_cons_iff.1 hw
      refine ⟨keyword, v, rfl, ?_⟩
      rw [show keyword.kind = _ from h.1]
      decide

theorem PreciseFormed.exists_first (h : s.PreciseFormed) (hw : Spells s.pieces w) :
    ∃ t v, w = t :: v ∧ t.kind ∈ precisionTypeStart := by
  obtain ⟨⟨hstorage, hprecision⟩, hcore⟩ := h
  rw [pieces, TypeQualifiers.pieces, hstorage] at hw
  cases hq : s.qualifiers.precision with
  | none =>
      rw [hq] at hw
      obtain ⟨t, v, rfl, ht⟩ := exists_first_core hcore hw
      exact ⟨t, v, rfl, mem_precisionTypeStart.2 (.inr ht)⟩
  | some p =>
      rw [hq] at hw
      obtain ⟨v, rfl, -⟩ := Spells.kept_cons_iff.1 hw
      exact ⟨p, v, rfl, mem_precisionTypeStart.2 (.inl (hprecision p hq))⟩

theorem FullFormed.exists_first (h : s.FullFormed) (hw : Spells s.pieces w) :
    ∃ t v, w = t :: v ∧ t.kind ∈ qualifiedTypeStart := by
  obtain ⟨⟨hstorage, hprecision⟩, hcore⟩ := h
  cases hq : s.qualifiers.storage with
  | nil =>
      obtain ⟨t, v, rfl, ht⟩ := PreciseFormed.exists_first ⟨⟨hq, hprecision⟩, hcore⟩ hw
      exact ⟨t, v, rfl, mem_qualifiedTypeStart.2 (.inr ht)⟩
  | cons word words =>
      rw [pieces, TypeQualifiers.pieces, hq] at hw
      obtain ⟨v, rfl, -⟩ := Spells.kept_cons_iff.1 hw
      rw [hq] at hstorage
      exact ⟨word, v, rfl, mem_qualifiedTypeStart.2 (.inl hstorage.eq_of_cons.1)⟩

@[simp] theorem setQualifiers_setQualifiers (q r : TypeQualifiers) (s : TypeSpec) :
    (s.setQualifiers q).setQualifiers r = s.setQualifiers r := by
  cases s <;> rfl

theorem erase_setQualifiers (q : TypeQualifiers) (s : TypeSpec) :
    (s.setQualifiers q).erase = s.erase.setQualifiers q := by
  cases s <;> simp [setQualifiers, erase]

end TypeSpec

section

variable {inner : Token → Parse TypeSpec} {n : Nat} {w rest : List Token}

/-- Field types of at most so many tokens are read back. -/
def ReadsFieldBack (inner : Token → Parse TypeSpec) (n : Nat) : Prop :=
  ∀ (s : TypeSpec) (w rest : List Token), s.PreciseFormed → Spells s.pieces w → w.length ≤ n →
    Parse.next precisionTypeStart inner (w ++ rest) = .ok (s.erase, rest)

/-! ## Structs -/

theorem arraySize_apply {size : Option ArraySize} (h : ∀ s ∈ size, s.WellFormed)
    (hw : Spells (sizePieces size) w)
    (hrest : ∀ t ∈ rest.head?, t.kind ≠ .operator .openBracket) :
    arraySize (w ++ rest) = .ok (size.map ArraySize.erase, rest) := by
  cases size with
  | none =>
      rw [Spells.nil_iff.1 hw]
      exact arraySize_none hrest
  | some size => exact arraySize_some (h size rfl) hw

theorem Declarator.WellFormedField.erase_eq {d : Declarator} (h : d.WellFormedField) :
    d.erase = .ofName d.name (d.size.map ArraySize.erase) none := by
  rw [Declarator.erase, h.2]
  rfl

theorem Declarator.WellFormedField.exists_size {d : Declarator} (h : d.WellFormedField)
    (hw : Spells d.pieces w) : ∃ v, w = d.name :: v ∧ Spells (sizePieces d.size) v := by
  obtain ⟨v, rfl, hv⟩ := Spells.kept_cons_iff.1 hw
  rw [h.2, initializerPieces, List.append_nil] at hv
  exact ⟨v, rfl, hv⟩

theorem fieldNames_apply {semicolon : Token} (hsemicolon : semicolon.kind = .operator .semicolon) :
    ∀ (names : List Declarator) (turns : Nat) (w : List Token), names ≠ [] →
      (∀ d ∈ names, d.WellFormedField) →
      Spells (commaBetween (names.map Declarator.pieces) ++ [.kept semicolon]) w →
      w.length ≤ turns →
      fieldNames turns (w ++ rest) = .ok ((names.map Declarator.erase, semicolon), rest)
  | [], _, _, hne, _, _, _ => absurd rfl hne
  | [d], turns, w, _, hall, hw, hturns => by
      obtain ⟨u, rfl, hu⟩ := Spells.of_commaBetween_single hw
      have hd : d.WellFormedField := hall d (by simp)
      obtain ⟨v, rfl, hv⟩ := hd.exists_size hu
      have hname : d.name.kind ∈ [TokenKind.identifier] := by simp [hd.1.1]
      have hcomma : ¬ semicolon.isOperator .comma := by simp [Token.isOperator, hsemicolon]
      have hsize : arraySize (v ++ semicolon :: rest) = .ok (_, semicolon :: rest) :=
        arraySize_apply hd.1.2.1 hv (by simp [hsemicolon])
      have happend : d.name :: v ++ [semicolon] ++ rest = d.name :: (v ++ semicolon :: rest) := by
        simp
      simp only [List.length_append, List.length_cons] at hturns
      obtain ⟨turns, rfl⟩ : ∃ k, turns = k + 1 := ⟨turns - 1, by omega⟩
      rw [happend, fieldNames, Parse.bind_ok (Parse.require_cons hname _), Parse.bind_ok hsize,
        Parse.bind_ok (Parse.take_cons ..)]
      simp only [if_neg hcomma, if_pos (Token.isOperator_iff.2 hsemicolon)]
      rw [← hd.erase_eq]
      rfl
  | d :: d' :: ds, turns, w, _, hall, hw, hturns => by
      obtain ⟨u, comma, v, rfl, hu, hcomma, hv⟩ := Spells.of_commaBetween_cons hw
      have hd : d.WellFormedField := hall d (by simp)
      obtain ⟨x, rfl, hx⟩ := hd.exists_size hu
      have hname : d.name.kind ∈ [TokenKind.identifier] := by simp [hd.1.1]
      have hsize : arraySize (x ++ comma :: (v ++ rest)) = .ok (_, comma :: (v ++ rest)) :=
        arraySize_apply hd.1.2.1 hx (by simp [hcomma])
      have happend : d.name :: x ++ comma :: v ++ rest = d.name :: (x ++ comma :: (v ++ rest)) := by
        simp
      simp only [List.length_append, List.length_cons] at hturns
      obtain ⟨turns, rfl⟩ : ∃ k, turns = k + 1 := ⟨turns - 1, by omega⟩
      have hmore := fieldNames_apply hsemicolon (d' :: ds) turns v (by simp)
        (fun e he => hall e (List.mem_cons_of_mem d he)) hv (by omega)
      rw [happend, fieldNames, Parse.bind_ok (Parse.require_cons hname _), Parse.bind_ok hsize,
        Parse.bind_ok (Parse.take_cons ..)]
      simp only [if_pos (Token.isOperator_iff.2 hcomma)]
      rw [Parse.bind_ok hmore, ← hd.erase_eq]
      rfl

theorem FieldSpec.pieces_eq (s : TypeSpec) (names : List Declarator) (semicolon : Token) :
    FieldSpec.piecesOfAll [⟨s, names, semicolon⟩] =
      s.pieces ++ (commaBetween (names.map Declarator.pieces) ++ [.kept semicolon]) := by
  simp [FieldSpec.piecesOfAll, TypeSpec.pieces]

theorem FieldSpec.exists_first {s : TypeSpec} {names : List Declarator} {semicolon : Token}
    (h : FieldSpec.AllFormed [⟨s, names, semicolon⟩])
    (hw : Spells (FieldSpec.piecesOfAll [⟨s, names, semicolon⟩]) w) :
    ∃ t v, w = t :: v ∧ t.kind ∈ precisionTypeStart := by
  rw [FieldSpec.pieces_eq] at hw
  exact hw.first_append (TypeSpec.PreciseFormed.exists_first ⟨h.1, h.2.1⟩)

theorem fieldSpec_apply (hinner : ReadsFieldBack inner n) {s : TypeSpec} {names : List Declarator}
    {semicolon : Token} (h : FieldSpec.AllFormed [⟨s, names, semicolon⟩])
    (hw : Spells (FieldSpec.piecesOfAll [⟨s, names, semicolon⟩]) w) (hlen : w.length ≤ n) :
    fieldSpec inner (w ++ rest) =
      .ok (⟨s.erase, names.map Declarator.erase, semicolon⟩, rest) := by
  obtain ⟨hprecise, hcore, hne, hall, hsemicolon, -⟩ := h
  rw [FieldSpec.pieces_eq] at hw
  obtain ⟨u, v, rfl, hu, hv⟩ := Spells.append_iff.1 hw
  rw [List.length_append] at hlen
  have hread := hinner s u (v ++ rest) ⟨hprecise, hcore⟩ hu (by omega)
  have hnames : fieldNames _ (v ++ rest) = .ok (_, rest) :=
    fieldNames_apply hsemicolon names ((v ++ rest).length + 1) v hne hall hv
      (Nat.le_of_lt (Parse.length_lt_turns v rest))
  rw [List.append_assoc, fieldSpec, Parse.bind_ok hread, Parse.bind_ok (Parse.remaining_apply _),
    Parse.bind_ok hnames]
  rfl

theorem moreFields_apply (hinner : ReadsFieldBack inner n) {closing : Token}
    (hclosing : closing.kind = .operator .closeBrace) :
    ∀ (fields : List FieldSpec) (turns : Nat) (w : List Token), FieldSpec.AllFormed fields →
      Spells (FieldSpec.piecesOfAll fields) w → w.length ≤ n → w.length < turns →
      moreFields inner turns (w ++ closing :: rest) =
        .ok ((FieldSpec.eraseAll fields, closing), rest)
  | _, 0, w, _, _, _, hturns => absurd hturns (Nat.not_lt_zero _)
  | [], turns + 1, w, _, hw, _, _ => by
      rw [Spells.nil_iff.1 hw, List.nil_append, moreFields,
        Parse.bind_ok (Parse.accept_cons hclosing _)]
      rfl
  | ⟨s, names, semicolon⟩ :: fields, turns + 1, w, h, hw, hlen, hturns => by
      rw [FieldSpec.allFormed_cons] at h
      rw [FieldSpec.piecesOfAll_cons] at hw
      obtain ⟨u, v, rfl, hu, hv⟩ := Spells.append_iff.1 hw
      have hpos := hu.length_eq ▸ FieldSpec.length_pieces_pos ⟨s, names, semicolon⟩
      rw [List.length_append] at hlen hturns
      have hread : fieldSpec inner (u ++ (v ++ closing :: rest)) = .ok (_, v ++ closing :: rest) :=
        fieldSpec_apply hinner h.1 hu (by omega)
      have hmore := moreFields_apply hinner hclosing fields turns v h.2 hv (by omega) (by omega)
      have hhead : ∀ t ∈ (u ++ (v ++ closing :: rest)).head?, t.kind ≠ .operator .closeBrace :=
        head_ne_of_first (FieldSpec.exists_first h.1 hu) (by decide) _
      rw [List.append_assoc, moreFields, Parse.bind_ok (Parse.accept_of_head hhead)]
      simp only []
      rw [Parse.bind_ok hread, Parse.bind_ok hmore]
      rfl

theorem TypeQualifiers.Bare.eq_none {q : TypeQualifiers} (h : q.Bare) : q = .none := by
  obtain ⟨storage, precision⟩ := q
  obtain ⟨rfl, rfl⟩ := h
  rfl

theorem structSpec_apply (hinner : ReadsFieldBack inner n) {q : TypeQualifiers} {keyword : Token}
    {name : Option Token} {opening : Token} {fields : List FieldSpec} {closing : Token}
    {defined : Option StructDef} {type : Option Ty}
    (h : (TypeSpec.struct q keyword name opening fields closing defined type).BareFormed)
    (hw : Spells (TypeSpec.struct q keyword name opening fields closing defined type).core
      (keyword :: w)) (hlen : w.length ≤ n) :
    structSpec inner keyword (w ++ rest) =
      .ok ((TypeSpec.struct q keyword name opening fields closing defined type).erase, rest) := by
  obtain ⟨hbare, -, hname, hopening, hne, hfields, hclosing⟩ := h
  obtain rfl : q = .none := hbare.eq_none
  obtain ⟨⟨s, names, semicolon⟩, fields, rfl⟩ := List.exists_cons_of_ne_nil hne
  rw [FieldSpec.allFormed_cons] at hfields
  rw [TypeSpec.core, FieldSpec.piecesOfAll_cons] at hw
  obtain ⟨-, hparts⟩ := Spells.of_kept_cons hw
  obtain ⟨_, _, rfl, hword, hbody⟩ := Spells.append_iff.1 hparts
  obtain rfl := Spells.map_kept_iff.1 hword
  obtain ⟨_, rfl, hinside⟩ := Spells.kept_cons_iff.1 hbody
  obtain ⟨_, rfl, hall⟩ := Spells.append_kept_iff.1 hinside
  obtain ⟨u, v, rfl, hu, hv⟩ := Spells.append_iff.1 hall
  simp only [List.length_append, List.length_cons] at hlen
  have hread : fieldSpec inner (u ++ (v ++ closing :: rest)) = .ok (_, v ++ closing :: rest) :=
    fieldSpec_apply hinner hfields.1 hu (by omega)
  have hmore : moreFields inner _ (v ++ closing :: rest) = .ok (_, rest) :=
    moreFields_apply hinner hclosing fields ((v ++ closing :: rest).length + 1) v hfields.2 hv
      (by omega) (Parse.length_lt_turns v _)
  have hopen : Parse.require (if name.isSome then [.operator .openBrace]
      else [.identifier, .operator .openBrace]) (opening :: (u ++ (v ++ closing :: rest))) =
        .ok (opening, u ++ (v ++ closing :: rest)) :=
    Parse.require_cons (by cases name <;> simp [hopening]) _
  have happend : name.toList ++ opening :: (u ++ v ++ [closing]) ++ rest =
      name.toList ++ opening :: (u ++ (v ++ closing :: rest)) := by simp
  have haccept : Parse.accept .identifier
      (name.toList ++ opening :: (u ++ (v ++ closing :: rest))) =
        .ok (name, opening :: (u ++ (v ++ closing :: rest))) := by
    cases name with
    | none => exact Parse.accept_of_head (by simp [hopening])
    | some name => exact Parse.accept_cons (hname name rfl) _
  rw [happend, structSpec, Parse.bind_ok haccept, Parse.bind_ok hopen, Parse.bind_ok hread,
    Parse.bind_ok (Parse.remaining_apply _), Parse.bind_ok hmore]
  rfl

/-! ## Qualifiers -/

theorem bareType_apply (hinner : ReadsFieldBack inner n) {s : TypeSpec} {t : Token}
    (h : s.BareFormed) (hw : Spells s.core (t :: w)) (hlen : w.length ≤ n) :
    bareType inner t (w ++ rest) = .ok (s.erase, rest) := by
  cases s with
  | named q name type =>
      obtain ⟨hbare, hname, hstruct⟩ := h
      obtain rfl : q = .none := hbare.eq_none
      obtain ⟨rfl, hnil⟩ := Spells.of_kept_cons hw
      obtain rfl := Spells.nil_iff.1 hnil
      rw [bareType, if_neg (mt Token.isKeyword_iff.1 hstruct), if_pos (by simpa using hname)]
      rfl
  | struct q keyword name opening fields closing defined type =>
      have hkeyword : keyword.kind = .keyword .struct := h.2.1
      have hw' := hw
      rw [TypeSpec.core] at hw'
      obtain ⟨rfl, -⟩ := Spells.of_kept_cons hw'
      rw [bareType, if_pos (Token.isKeyword_iff.2 hkeyword)]
      exact structSpec_apply hinner h hw hlen

theorem TypeSpec.bareFormed_setQualifiers {s : TypeSpec} (h : s.CoreFormed) :
    (s.setQualifiers .none).BareFormed := by
  refine ⟨?_, by simpa using h⟩
  rw [qualifiers_setQualifiers]
  exact TypeQualifiers.bare_none

/-- The type is read without its qualifiers and then given them. -/
theorem next_bareType (hinner : ReadsFieldBack inner n) {s : TypeSpec} (h : s.CoreFormed)
    (hw : Spells s.core w) (hlen : w.length ≤ n + 1) :
    Parse.next bareTypeStart (bareType inner) (w ++ rest) =
      .ok ((s.setQualifiers .none).erase, rest) := by
  obtain ⟨t, v, rfl, -⟩ := TypeSpec.exists_first_core h hw
  rw [List.cons_append, Parse.next_cons]
  rw [List.length_cons] at hlen
  exact bareType_apply hinner (TypeSpec.bareFormed_setQualifiers h)
    (by rwa [TypeSpec.core_setQualifiers]) (by omega)

theorem TypeSpec.erase_eq_setQualifiers (s : TypeSpec) :
    ((s.setQualifiers .none).erase).setQualifiers s.qualifiers = s.erase := by
  cases s <;> simp [setQualifiers, erase, qualifiers]

theorem precisionType_apply (hinner : ReadsFieldBack inner n) {s : TypeSpec} {t : Token}
    (h : s.PreciseFormed) (hw : Spells s.pieces (t :: w)) (hlen : w.length ≤ n) :
    precisionType inner t (w ++ rest) = .ok (s.erase, rest) := by
  obtain ⟨⟨hstorage, hprecision⟩, hcore⟩ := h
  have hq : s.qualifiers = ⟨[], s.qualifiers.precision⟩ := by rw [← hstorage]
  rw [TypeSpec.pieces, TypeQualifiers.pieces, hstorage] at hw
  rw [← s.erase_eq_setQualifiers, hq]
  cases hp : s.qualifiers.precision with
  | none =>
      rw [hp] at hw
      have hdisjoint : ∀ kind ∈ bareTypeStart, kind ∉ precisionStart := by decide
      have ht := first_of_cons (TypeSpec.exists_first_core hcore hw)
      have hread : bareType inner t (w ++ rest) = .ok (_, rest) :=
        bareType_apply hinner (TypeSpec.bareFormed_setQualifiers hcore)
          (by rwa [TypeSpec.core_setQualifiers]) hlen
      rw [precisionType, if_neg (by simpa using hdisjoint _ ht), if_pos (by simpa using ht), hread,
        TypeSpec.erase_setQualifiers, TypeSpec.setQualifiers_setQualifiers]
      rfl
  | some p =>
      rw [hp] at hw
      obtain ⟨rfl, hbare⟩ := Spells.of_kept_cons hw
      have ht : t.kind ∈ precisionStart := hprecision t hp
      have hread : Parse.next bareTypeStart (bareType inner) (w ++ rest) = .ok (_, rest) :=
        next_bareType hinner hcore hbare (Nat.le_succ_of_le hlen)
      rw [precisionType, if_pos (by simpa using ht), precisionQualified, Parse.bind_ok hread]
      rfl

theorem next_precisionType (hinner : ReadsFieldBack inner n) {s : TypeSpec} (h : s.PreciseFormed)
    (hw : Spells s.pieces w) (hlen : w.length ≤ n + 1) :
    Parse.next precisionTypeStart (precisionType inner) (w ++ rest) = .ok (s.erase, rest) := by
  obtain ⟨t, v, rfl, -⟩ := h.exists_first hw
  rw [List.length_cons] at hlen
  rw [List.cons_append, Parse.next_cons]
  exact precisionType_apply hinner h hw (by omega)

/-- A type without its storage qualifiers. -/
def TypeSpec.withoutStorage (s : TypeSpec) : TypeSpec :=
  s.setQualifiers ⟨[], s.qualifiers.precision⟩

theorem TypeSpec.FullFormed.withoutStorage {s : TypeSpec} (h : s.FullFormed) :
    s.withoutStorage.PreciseFormed := by
  refine ⟨?_, by simpa [TypeSpec.withoutStorage] using h.2⟩
  rw [TypeSpec.withoutStorage, qualifiers_setQualifiers]
  exact ⟨rfl, h.1.2⟩

theorem TypeSpec.pieces_eq_storage (s : TypeSpec) :
    s.pieces = s.qualifiers.storage.map .kept ++ s.withoutStorage.pieces := by
  simp [withoutStorage, pieces, TypeQualifiers.pieces]

theorem TypeSpec.erase_withoutStorage (s : TypeSpec) :
    s.withoutStorage.erase.setQualifiers
      ⟨s.qualifiers.storage, s.withoutStorage.erase.qualifiers.precision⟩ = s.erase := by
  cases s <;> simp [withoutStorage, setQualifiers, erase, qualifiers]

theorem storageQualified_apply (hinner : ReadsFieldBack inner n) {s : TypeSpec} {t : Token}
    {words : List Token} (h : s.FullFormed) (hstorage : s.qualifiers.storage = t :: words)
    (hw : Spells s.withoutStorage.pieces w) (hlen : w.length ≤ n + 1) :
    storageQualified inner t (words ++ (w ++ rest)) = .ok (s.erase, rest) := by
  have hread : Parse.next precisionTypeStart (precisionType inner) (w ++ rest) =
      .ok (s.withoutStorage.erase, rest) := next_precisionType hinner h.withoutStorage hw hlen
  have hallowed := h.1.1
  rw [hstorage] at hallowed
  obtain ⟨-, ⟨rfl, hnot⟩ | ⟨varying, rfl, hinvariant, hvarying⟩⟩ := hallowed.eq_of_cons
  · simp only [storageQualified, pure_bind]
    rw [if_neg (mt Token.isKeyword_iff.1 hnot), List.nil_append, Parse.bind_ok hread,
      ← s.erase_withoutStorage, hstorage]
    rfl
  · simp only [storageQualified, pure_bind]
    rw [if_pos (Token.isKeyword_iff.2 hinvariant), List.cons_append, List.nil_append,
      Parse.bind_ok (Parse.require_cons (by simp [hvarying]) _), Parse.bind_ok hread,
      ← s.erase_withoutStorage, hstorage]
    rfl

theorem qualifiedType_apply (hinner : ReadsFieldBack inner n) {s : TypeSpec} {t : Token}
    (h : s.FullFormed) (hw : Spells s.pieces (t :: w)) (hlen : w.length ≤ n) :
    qualifiedType inner t (w ++ rest) = .ok (s.erase, rest) := by
  cases hstorage : s.qualifiers.storage with
  | nil =>
      have hdisjoint : ∀ kind ∈ precisionTypeStart, kind ∉ storageStart := by decide
      have hs : s.PreciseFormed := ⟨⟨hstorage, h.1.2⟩, h.2⟩
      have ht := first_of_cons (hs.exists_first hw)
      rw [qualifiedType, if_neg (by simpa using hdisjoint _ ht)]
      exact precisionType_apply hinner hs hw hlen
  | cons word words =>
      have hallowed := h.1.1
      rw [hstorage] at hallowed
      rw [TypeSpec.pieces_eq_storage, hstorage] at hw
      obtain ⟨rfl, hrest⟩ := Spells.of_kept_cons hw
      obtain ⟨_, v, rfl, hwords, hv⟩ := Spells.append_iff.1 hrest
      obtain rfl := Spells.map_kept_iff.1 hwords
      rw [List.length_append] at hlen
      rw [qualifiedType, if_pos (by simpa using hallowed.eq_of_cons.1), List.append_assoc]
      exact storageQualified_apply hinner h hstorage hv (by omega)

/-! ## Rules -/

theorem readsFieldBack_typeWithin (n : Nat) : ReadsFieldBack (typeWithin n) n := by
  induction n with
  | zero =>
      intro s w rest h hw hlen
      obtain ⟨t, v, rfl, -⟩ := h.exists_first hw
      exact absurd hlen (Nat.not_succ_le_zero _)
  | succ n ih => exact fun s w rest h hw hlen => next_precisionType ih h hw hlen

theorem bareTypeRule_next {s : TypeSpec} (h : s.BareFormed) (hw : Spells s.pieces w) :
    bareTypeRule.next (w ++ rest) = .ok (s.erase, rest) := by
  rw [h.pieces_eq] at hw
  obtain ⟨t, v, rfl, ht⟩ := TypeSpec.exists_first_core h.2 hw
  rw [List.cons_append, Rule.next, Parse.next_cons, Rule.parse_of_mem ht]
  exact bareType_apply (readsFieldBack_typeWithin (v ++ rest).length) h hw (by simp)

theorem precisionTypeRule_next {s : TypeSpec} (h : s.PreciseFormed) (hw : Spells s.pieces w) :
    precisionTypeRule.next (w ++ rest) = .ok (s.erase, rest) := by
  obtain ⟨t, v, rfl, ht⟩ := h.exists_first hw
  rw [List.cons_append, Rule.next, Parse.next_cons, Rule.parse_of_mem ht]
  exact precisionType_apply (readsFieldBack_typeWithin (v ++ rest).length) h hw (by simp)

theorem qualifiedTypeRule_body {s : TypeSpec} {t : Token} (h : s.FullFormed)
    (hw : Spells s.pieces (t :: w)) :
    qualifiedTypeRule.body t (w ++ rest) = .ok (s.erase, rest) :=
  qualifiedType_apply (readsFieldBack_typeWithin (w ++ rest).length) h hw (by simp)

end

end Essl
