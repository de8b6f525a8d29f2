import Essl.Proofs.Grammar.DeclarationReading
import Essl.Proofs.Grammar.TypeRoundTrip

/-!
# Declarations are read back

The parts of declarations that have no statements in them: declarators, parameters, and lists of
names.
-/

namespace Essl

open Grammar

section

variable {w rest : List Token}

/-! ## Declarators -/

/-- What stands after a declarator. -/
def EndsDeclarator (rest : List Token) : Prop :=
  ∀ t ∈ rest.head?, t.kind = .operator .comma ∨ t.kind = .operator .semicolon

theorem EndsDeclarator.ne (h : EndsDeclarator rest) {op : Operator} (hcomma : op ≠ .comma)
    (hsemicolon : op ≠ .semicolon) : ∀ t ∈ rest.head?, t.kind ≠ .operator op := by
  intro t ht
  rcases h t ht with hkind | hkind
  · simpa [hkind] using hcomma.symm
  · simpa [hkind] using hsemicolon.symm

theorem EndsDeclarator.stops (h : EndsDeclarator rest) : Stops 1 rest := by
  intro t ht hold hhold
  rcases h t ht with hkind | hkind
  · rw [Token.hold?_comma hkind] at hhold
    cases hhold
    decide
  · rw [Token.hold?_closing hkind (by decide)] at hhold
    cases hhold

theorem declarator_apply {d : Declarator} (h : d.WellFormed) (hw : Spells d.pieces (d.name :: w))
    (hrest : EndsDeclarator rest) :
    declarator d.name (w ++ rest) = .ok (d.erase, rest) := by
  obtain ⟨name, size, initializer, type, symbol⟩ := d
  obtain ⟨hname, hsize, hinit⟩ := h
  obtain ⟨-, hparts⟩ := Spells.of_kept_cons hw
  obtain ⟨u, v, rfl, hu, hv⟩ := Spells.append_iff.1 hparts
  rw [List.append_assoc]
  cases initializer with
  | none =>
      have hread := arraySize_apply hsize hu (hrest.ne (by decide) (by decide))
      rw [Spells.nil_iff.1 hv, List.nil_append, declarator, Parse.bind_ok hread,
        Parse.bind_ok (Parse.accept_of_head (hrest.ne (by decide) (by decide)))]
      rfl
  | some e =>
      obtain ⟨assign, v, rfl, hkind, he⟩ := Spells.separator_cons_iff.1 hv
      have hassign : assign.kind = .operator .assign := hkind
      have hlevel := hinit e rfl
      have hread : arraySize (u ++ assign :: (v ++ rest)) = .ok (_, assign :: (v ++ rest)) :=
        arraySize_apply hsize hu (by simp [hassign])
      rw [List.cons_append, declarator, Parse.bind_ok hread,
        Parse.bind_ok (Parse.accept_cons hassign _)]
      simp only []
      rw [Parse.bind_ok (assignmentRule_next ⟨hlevel.1, hlevel.2, he⟩ hrest.stops)]
      rfl

/-- The declarators after one, each after its comma. -/
theorem endsDeclarator_commaBefore {ds : List Declarator} {semicolon : Token}
    (hsemicolon : semicolon.kind = .operator .semicolon)
    (hw : Spells (commaBefore (ds.map Declarator.pieces) ++ [.kept semicolon]) w) :
    EndsDeclarator (w ++ rest) := by
  intro t ht
  cases ds with
  | nil =>
      obtain ⟨v, rfl, -⟩ := Spells.kept_cons_iff.1 hw
      cases ht
      exact .inr hsemicolon
  | cons d ds =>
      obtain ⟨comma, v, rfl, hcomma, -⟩ := Spells.separator_cons_iff.1 hw
      cases ht
      exact .inl hcomma

theorem moreDeclarators_apply {semicolon : Token}
    (hsemicolon : semicolon.kind = .operator .semicolon) :
    ∀ (ds : List Declarator) (turns : Nat) (first : Bool) (last : Declarator) (w : List Token),
      (∀ d ∈ ds, d.WellFormed) →
      Spells (commaBefore (ds.map Declarator.pieces) ++ [.kept semicolon]) w → w.length ≤ turns →
      moreDeclarators turns first last (w ++ rest) =
        .ok ((ds.map Declarator.erase, semicolon), rest)
  | [], turns, first, last, w, _, hw, hturns => by
      obtain ⟨v, rfl, hnil⟩ := Spells.kept_cons_iff.1 hw
      rw [List.length_cons] at hturns
      obtain ⟨turns, rfl⟩ : ∃ k, turns = k + 1 := ⟨turns - 1, by omega⟩
      rw [Spells.nil_iff.1 hnil, List.cons_append, moreDeclarators,
        Parse.bind_ok (Parse.take_cons ..)]
      simp only [if_pos (Token.isOperator_iff.2 hsemicolon)]
      rfl
  | d :: ds, turns, first, last, w, hall, hw, hturns => by
      obtain ⟨comma, v, rfl, hkind, hv⟩ := Spells.separator_cons_iff.1 hw
      have hcomma : comma.isOperator .comma := Token.isOperator_iff.2 hkind
      have hnot : ¬ comma.isOperator .semicolon := by
        rw [Token.isOperator_iff, show comma.kind = .operator .comma from hkind]
        decide
      have hparts : Spells (d.pieces ++ (commaBefore (ds.map Declarator.pieces) ++
          [.kept semicolon])) v := by
        rw [← List.append_assoc]
        exact hv
      obtain ⟨u, v, rfl, hu, hmore⟩ := Spells.append_iff.1 hparts
      have hd := hall d List.mem_cons_self
      obtain ⟨x, rfl, -⟩ := Spells.kept_cons_iff.1 hu
      simp only [List.length_cons, List.length_append] at hturns
      obtain ⟨turns, rfl⟩ : ∃ k, turns = k + 1 := ⟨turns - 1, by omega⟩
      have hread : declarator d.name (x ++ (v ++ rest)) = .ok (d.erase, v ++ rest) :=
        declarator_apply hd hu (endsDeclarator_commaBefore hsemicolon hmore)
      have hrec := moreDeclarators_apply hsemicolon ds turns false d.erase v
        (fun e he => hall e (List.mem_cons_of_mem d he)) hmore (by omega)
      have happend : comma :: (d.name :: x ++ v) ++ rest = comma :: d.name :: (x ++ (v ++ rest)) := by
        simp
      rw [happend, moreDeclarators, Parse.bind_ok (Parse.take_cons ..)]
      simp only [if_neg hnot, if_pos hcomma]
      rw [Parse.bind_ok (Parse.require_cons (by simp [hd.1]) _), Parse.bind_ok hread,
        Parse.bind_ok hrec]
      rfl

/-! ## Precisions and invariants -/

theorem next_identifier {t : Token} (ht : t.kind = .identifier) (expected : List TokenKind) :
    Parse.next expected (fun t => if t.kind = .identifier then pure t else Parse.fail expected t)
      (t :: rest) = .ok (t, rest) := by
  rw [Parse.next_cons, if_pos ht]
  rfl

theorem precisionDeclaration_apply {keyword precision semicolon : Token} {s : TypeSpec}
    (h : (Declaration.precision keyword precision s semicolon).WellFormed)
    (hw : Spells (Declaration.precision keyword precision s semicolon).pieces (keyword :: w)) :
    precisionDeclaration keyword (w ++ rest) =
      .ok ((Declaration.precision keyword precision s semicolon).erase, rest) := by
  obtain ⟨-, hprecision, hs, hsemicolon⟩ := h
  obtain ⟨-, hparts⟩ := Spells.of_kept_cons hw
  obtain ⟨_, rfl, htype⟩ := Spells.kept_cons_iff.1 hparts
  obtain ⟨u, rfl, hu⟩ := Spells.append_kept_iff.1 htype
  rw [List.cons_append, List.append_assoc, precisionDeclaration,
    Parse.bind_ok (Parse.require_cons hprecision _), Parse.bind_ok (bareTypeRule_next hs hu),
    List.cons_append, Parse.bind_ok (Parse.requireOperator_cons hsemicolon _)]
  rfl

theorem invariantNames_apply {semicolon : Token}
    (hsemicolon : semicolon.kind = .operator .semicolon) :
    ∀ (names : List InvariantName) (turns : Nat) (expected : List TokenKind) (w : List Token),
      names ≠ [] → (∀ n ∈ names, n.name.kind = .identifier) →
      Spells (commaBetween (names.map ([.kept ·.name])) ++ [.kept semicolon]) w →
      w.length ≤ turns →
      invariantNames turns expected (w ++ rest) =
        .ok ((names.map InvariantName.erase, semicolon), rest)
  | [], _, _, _, hne, _, _, _ => absurd rfl hne
  | [n], turns, expected, w, _, hall, hw, hturns => by
      obtain ⟨_, rfl, hend⟩ := Spells.kept_cons_iff.1 hw
      obtain ⟨_, rfl, hnil⟩ := Spells.kept_cons_iff.1 hend
      obtain rfl := Spells.nil_iff.1 hnil
      have hcomma : ¬ semicolon.isOperator .comma := by simp [Token.isOperator, hsemicolon]
      simp only [List.length_cons] at hturns
      obtain ⟨turns, rfl⟩ : ∃ k, turns = k + 1 := ⟨turns - 1, by omega⟩
      rw [List.cons_append, invariantNames, Parse.bind_ok (next_identifier (hall n (by simp)) _),
        List.cons_append, Parse.bind_ok (Parse.take_cons ..)]
      simp only [if_neg hcomma, if_pos (Token.isOperator_iff.2 hsemicolon)]
      rfl
  | n :: n' :: ns, turns, expected, w, _, hall, hw, hturns => by
      obtain ⟨_, rfl, hparts⟩ := Spells.kept_cons_iff.1 hw
      obtain ⟨comma, v, rfl, hkind, hv⟩ := Spells.separator_cons_iff.1 hparts
      have hcomma : comma.isOperator .comma := Token.isOperator_iff.2 hkind
      simp only [List.length_cons] at hturns
      obtain ⟨turns, rfl⟩ : ∃ k, turns = k + 1 := ⟨turns - 1, by omega⟩
      have hrec := invariantNames_apply hsemicolon (n' :: ns) turns [.identifier] v (by simp)
        (fun m hm => hall m (List.mem_cons_of_mem n hm)) hv (by omega)
      rw [List.cons_append, invariantNames, Parse.bind_ok (next_identifier (hall n (by simp)) _),
        List.cons_append, Parse.bind_ok (Parse.take_cons ..)]
      simp only [if_pos hcomma]
      rw [Parse.bind_ok hrec]
      rfl

theorem invariantDeclaration_apply {keyword semicolon : Token} {names : List InvariantName}
    (h : (Declaration.invariants keyword names semicolon).WellFormed)
    (hw : Spells (Declaration.invariants keyword names semicolon).pieces (keyword :: w)) :
    invariantDeclaration keyword (w ++ rest) =
      .ok ((Declaration.invariants keyword names semicolon).erase, rest) := by
  obtain ⟨-, hne, hall, hsemicolon⟩ := h
  obtain ⟨-, hparts⟩ := Spells.of_kept_cons hw
  have hread : invariantNames _ _ (w ++ rest) = .ok (_, rest) :=
    invariantNames_apply hsemicolon names ((w ++ rest).length + 1)
      [.keyword (.qualifier .varying), .identifier] w hne hall hparts
      (Nat.le_of_lt (Parse.length_lt_turns w rest))
  rw [invariantDeclaration, Parse.bind_ok (Parse.remaining_apply _), Parse.bind_ok hread]
  rfl

/-! ## Parameters -/

/-- What stands after a parameter. -/
def EndsParameter (rest : List Token) : Prop :=
  ∀ t ∈ rest.head?, t.kind = .operator .comma ∨ t.kind = .operator .closeParen

theorem EndsParameter.ne (h : EndsParameter rest) {kind : TokenKind}
    (hkind : kind ∉ [TokenKind.operator .comma, .operator .closeParen]) :
    ∀ t ∈ rest.head?, t.kind ≠ kind := by
  rintro t ht rfl
  exact hkind (by simpa using h t ht)

theorem accept_toList {o : Option Token} {kind : TokenKind} (ho : ∀ t ∈ o, t.kind = kind)
    (hrest : ∀ t ∈ rest.head?, t.kind ≠ kind) :
    Parse.accept kind (o.toList ++ rest) = .ok (o, rest) := by
  cases o with
  | none => exact Parse.accept_of_head hrest
  | some t => exact Parse.accept_cons (ho t rfl) rest

theorem acceptIf_toList {o : Option Token} {c : Token → Bool} (ho : ∀ t ∈ o, c t)
    (hrest : ∀ t ∈ rest.head?, c t = false) :
    Parse.acceptIf c (o.toList ++ rest) = .ok (o, rest) := by
  cases o with
  | none => exact Parse.acceptIf_of_head hrest
  | some t => exact Parse.acceptIf_cons (ho t rfl) rest

theorem parameter_apply {p : ParameterSpec} (h : p.WellFormed) (hw : Spells p.pieces w)
    (hrest : EndsParameter rest) : parameter (w ++ rest) = .ok (p.erase, rest) := by
  obtain ⟨qualifiers, s, name, size, type, symbol⟩ := p
  obtain ⟨⟨const, direction, hqualifiers, hconst, hdirection⟩, hs, hname, hsize⟩ := h
  obtain rfl : qualifiers = const.toList ++ direction.toList := hqualifiers
  obtain ⟨x, _, rfl, hx, htyped⟩ := Spells.append_iff.1 hw
  obtain rfl := Spells.map_kept_iff.1 hx
  obtain ⟨u, _, rfl, hu, hnamed⟩ := Spells.append_iff.1 htyped
  obtain ⟨y, v, rfl, hy, hv⟩ := Spells.append_iff.1 hnamed
  obtain rfl := Spells.map_kept_iff.1 hy
  have hfirst := hs.exists_first hu
  have hqualifiers : ∀ kind ∈ precisionTypeStart,
      kind ≠ .keyword (.qualifier .const) ∧ kind.keyword?.any Keyword.isDirection = false := by
    decide
  have hafterConst : ∀ t ∈ (direction.toList ++ (u ++ (name.toList ++ (v ++ rest)))).head?,
      t.kind ≠ .keyword (.qualifier .const) := by
    cases direction with
    | none => exact head_of_first hfirst (fun kind hkind => (hqualifiers kind hkind).1) _
    | some t =>
        intro t' ht' hkind
        cases ht'
        have hword := hdirection t rfl
        rw [hkind] at hword
        exact absurd hword (by decide)
  have hafterDirection : ∀ t ∈ (u ++ (name.toList ++ (v ++ rest))).head?,
      t.kind.keyword?.any Keyword.isDirection = false :=
    head_of_first (P := fun kind => kind.keyword?.any Keyword.isDirection = false) hfirst
      (fun kind hkind => (hqualifiers kind hkind).2) _
  have hafterName : ∀ t ∈ (v ++ rest).head?, t.kind ≠ .identifier := by
    cases size with
    | none =>
        rw [Spells.nil_iff.1 hv]
        exact hrest.ne (by decide)
    | some size =>
        obtain ⟨v, rfl, -⟩ := Spells.kept_cons_iff.1 hv
        have hopening : size.opening.kind = .operator .openBracket := (hsize size rfl).1
        simp [hopening]
  have happend : const.toList ++ direction.toList ++ (u ++ (name.toList ++ v)) ++ rest =
      const.toList ++ (direction.toList ++ (u ++ (name.toList ++ (v ++ rest)))) := by simp
  rw [happend, parameter, Parse.bind_ok (accept_toList hconst hafterConst),
    Parse.bind_ok (acceptIf_toList hdirection hafterDirection),
    Parse.bind_ok (precisionTypeRule_next hs hu),
    Parse.bind_ok (accept_toList hname hafterName),
    Parse.bind_ok (arraySize_apply hsize hv (hrest.ne (by decide)))]
  rfl

theorem parametersTail_apply {closing : Token} (hclosing : closing.kind = .operator .closeParen) :
    ∀ (ps : List ParameterSpec) (turns : Nat) (w : List Token), ps ≠ [] →
      (∀ p ∈ ps, p.WellFormed) →
      Spells (commaBetween (ps.map ParameterSpec.pieces) ++ [.kept closing]) w →
      w.length ≤ turns →
      parametersTail turns (w ++ rest) = .ok ((ps.map ParameterSpec.erase, closing), rest)
  | [], _, _, hne, _, _, _ => absurd rfl hne
  | [p], turns, w, _, hall, hw, hturns => by
      obtain ⟨u, rfl, hu⟩ := Spells.of_commaBetween_single hw
      have hcomma : ¬ closing.isOperator .comma := by simp [Token.isOperator, hclosing]
      have hends : EndsParameter (closing :: rest) := by
        intro t ht
        cases ht
        exact .inr hclosing
      have hread := parameter_apply (hall p (by simp)) hu hends
      simp only [List.length_append, List.length_cons] at hturns
      obtain ⟨turns, rfl⟩ : ∃ k, turns = k + 1 := ⟨turns - 1, by omega⟩
      rw [List.append_assoc, parametersTail, List.singleton_append, Parse.bind_ok hread,
        Parse.bind_ok (Parse.take_cons ..)]
      simp only [if_neg hcomma, if_pos (Token.isOperator_iff.2 hclosing)]
      rfl
  | p :: p' :: ps, turns, w, _, hall, hw, hturns => by
      obtain ⟨u, comma, v, rfl, hu, hkind, hv⟩ := Spells.of_commaBetween_cons hw
      have hcomma : comma.isOperator .comma := Token.isOperator_iff.2 hkind
      have hends : EndsParameter (comma :: (v ++ rest)) := by
        intro t ht
        cases ht
        exact .inl hkind
      have hread := parameter_apply (hall p (by simp)) hu hends
      simp only [List.length_append, List.length_cons] at hturns
      obtain ⟨turns, rfl⟩ : ∃ k, turns = k + 1 := ⟨turns - 1, by omega⟩
      have hrec := parametersTail_apply hclosing (p' :: ps) turns v (by simp)
        (fun q hq => hall q (List.mem_cons_of_mem p hq)) hv (by omega)
      rw [List.append_assoc, List.cons_append, parametersTail, Parse.bind_ok hread,
        Parse.bind_ok (Parse.take_cons ..)]
      simp only [if_pos hcomma]
      rw [Parse.bind_ok hrec]
      rfl

/-- A parameter does not start with the parenthesis that ends an empty list of them. -/
theorem ParameterSpec.WellFormed.exists_first {p : ParameterSpec} (h : p.WellFormed)
    (hw : Spells p.pieces w) : ∃ t v, w = t :: v ∧ t.kind ≠ .operator .closeParen := by
  obtain ⟨⟨const, direction, hqualifiers, hconst, hdirection⟩, hs, -⟩ := h
  rw [ParameterSpec.pieces, hqualifiers] at hw
  cases const with
  | some t =>
      obtain ⟨v, rfl, -⟩ := Spells.kept_cons_iff.1 hw
      exact ⟨t, v, rfl, by simp [hconst t rfl]⟩
  | none =>
      cases direction with
      | some t =>
          obtain ⟨v, rfl, -⟩ := Spells.kept_cons_iff.1 hw
          refine ⟨t, v, rfl, fun hkind => ?_⟩
          have hword := hdirection t rfl
          rw [hkind] at hword
          exact absurd hword (by decide)
      | none =>
          have htyped : Spells (p.typeSpec.pieces ++
              (p.name.toList.map Piece.kept ++ sizePieces p.size)) w := hw
          obtain ⟨t, v, rfl, ht⟩ := htyped.first_append fun hu => hs.exists_first hu
          exact ⟨t, v, rfl, fun hkind => absurd (hkind ▸ ht) (by decide)⟩

theorem parameters_apply {ps : List ParameterSpec} {closing : Token}
    (hclosing : closing.kind = .operator .closeParen) (hall : ∀ p ∈ ps, p.WellFormed)
    (hw : Spells (commaBetween (ps.map ParameterSpec.pieces) ++ [.kept closing]) w) :
    parameters (w ++ rest) = .ok ((ps.map ParameterSpec.erase, closing), rest) := by
  cases ps with
  | nil =>
      obtain ⟨_, rfl, hnil⟩ := Spells.kept_cons_iff.1 hw
      rw [Spells.nil_iff.1 hnil, List.cons_append, parameters,
        Parse.bind_ok (Parse.accept_cons hclosing _)]
      rfl
  | cons p ps =>
      have hread : parametersTail _ (w ++ rest) = .ok (_, rest) :=
        parametersTail_apply hclosing (p :: ps) ((w ++ rest).length + 1) w (by simp) hall hw
          (Nat.le_of_lt (Parse.length_lt_turns w rest))
      have hhead : ∀ t ∈ (w ++ rest).head?, t.kind ≠ .operator .closeParen := by
        rw [List.map_cons, commaBetween, List.append_assoc] at hw
        obtain ⟨t, v, rfl, ht⟩ := hw.first_append (hall p (by simp)).exists_first
        simpa using ht
      rw [parameters, Parse.bind_ok (Parse.accept_of_head hhead)]
      simp only []
      rw [Parse.bind_ok (Parse.remaining_apply _), hread]

end

end Essl
