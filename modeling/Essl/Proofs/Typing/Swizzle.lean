import Essl.Proofs.Typing.SelectionSound

/-!
# Which selectors are swizzles

A selector of a vector is a swizzle if it has at most four names, all from one set, each of a
component that is there. Typing accepts these and no others, and of the others it reports the first
name up to which the selector is no swizzle.
-/

namespace Essl

open Text

/-! ## Names of components -/

theorem getElem?_of_idxOf? {set : List Char} {c : Char} {index : Nat}
    (h : set.idxOf? c = some index) : set[index]? = some c := by
  obtain ⟨hlt, heq, -⟩ := List.findIdx?_eq_some_iff_getElem.1 h
  rw [List.getElem?_eq_getElem hlt, eq_of_beq heq]

/-- No name is in two sets, or twice in one. -/
theorem swizzleComponent?_getElem : ∀ own : Fin swizzleSets.length,
    ∀ index : Fin swizzleSets[own].length,
      swizzleComponent? swizzleSets[own][index] = some (own.val, index.val) := by decide

theorem swizzleComponent?_eq_some_iff {c : Char} {own index : Nat} :
    swizzleComponent? c = some (own, index) ↔
      ∃ set, swizzleSets[own]? = some set ∧ set[index]? = some c := by
  constructor
  · intro h
    obtain ⟨found, hfound, hid⟩ := List.exists_of_findSome?_eq_some h
    obtain ⟨i, hi, rfl⟩ := List.mem_mapIdx.1 hfound
    obtain ⟨j, hj, heq⟩ := Option.map_eq_some_iff.1 hid
    cases heq
    exact ⟨swizzleSets[own], List.getElem?_eq_getElem _, getElem?_of_idxOf? hj⟩
  · rintro ⟨set, hset, hc⟩
    obtain ⟨hown, rfl⟩ := List.getElem?_eq_some_iff.1 hset
    obtain ⟨hindex, rfl⟩ := List.getElem?_eq_some_iff.1 hc
    exact swizzleComponent?_getElem ⟨own, hown⟩ ⟨index, hindex⟩

theorem swizzleComponent?_eq_none_iff {c : Char} :
    swizzleComponent? c = none ↔ ∀ set ∈ swizzleSets, c ∉ set := by
  rw [Option.eq_none_iff_forall_ne_some]
  constructor
  · intro h set hset hc
    obtain ⟨own, hown⟩ := List.mem_iff_getElem?.1 hset
    obtain ⟨index, hindex⟩ := List.mem_iff_getElem?.1 hc
    exact h (own, index) (swizzleComponent?_eq_some_iff.2 ⟨set, hown, hindex⟩)
  · rintro h ⟨own, index⟩ hsome
    obtain ⟨set, hset, hc⟩ := swizzleComponent?_eq_some_iff.1 hsome
    exact h set (List.mem_of_getElem? hset) (List.mem_of_getElem? hc)

/-- A name from a set says which set that is. -/
theorem swizzleSet_unique {c : Char} {set other : List Char} (hset : set ∈ swizzleSets)
    (hother : other ∈ swizzleSets) (hc : c ∈ set) (hc' : c ∈ other) : set = other := by
  obtain ⟨own, hown⟩ := List.mem_iff_getElem?.1 hset
  obtain ⟨own', hown'⟩ := List.mem_iff_getElem?.1 hother
  obtain ⟨index, hindex⟩ := List.mem_iff_getElem?.1 hc
  obtain ⟨index', hindex'⟩ := List.mem_iff_getElem?.1 hc'
  have hsome := swizzleComponent?_eq_some_iff.2 ⟨set, hown, hindex⟩
  have hsome' := swizzleComponent?_eq_some_iff.2 ⟨other, hown', hindex'⟩
  cases hsome.symm.trans hsome'
  exact Option.some.inj (hown.symm.trans hown')

/-! ## Selectors -/

/-- The name is that of the component at the index in a set, of which so many are there. -/
def NamesComponent (set : List Char) (count : Nat) (c : Char) (index : Nat) : Prop :=
  index < count ∧ set[index]? = some c

/-- The names select the components at the indices of a vector of so many. -/
structure Swizzles (count : Nat) (names : List Char) (indices : List Nat) : Prop where
  length_le : names.length ≤ 4
  oneSet : ∃ set ∈ swizzleSets, List.Forall₂ (NamesComponent set count) names indices

/-- The names select components of a vector of so many. -/
def IsSwizzle (count : Nat) (names : List Char) : Prop := ∃ indices, Swizzles count names indices

/-- What is wrong with a name in a selector of a vector that begins with another. -/
inductive NameFault (type : Ty) (first c : Char) : SemanticCause → Prop where
  | invalid : (∀ set ∈ swizzleSets, c ∉ set) → NameFault type first c (.invalidSwizzleComponent c)
  | mixed {set : List Char} : set ∈ swizzleSets → c ∈ set → first ∉ set →
      NameFault type first c (.mixedSwizzleSets c)
  | outOfBounds {set : List Char} : set ∈ swizzleSets → c ∈ set → first ∈ set →
      NameFault type first c (.swizzleOutOfBounds c type)

theorem IsSwizzle.of_prefix {count : Nat} {names part : List Char} (h : IsSwizzle count names)
    (hpart : part <+: names) : IsSwizzle count part := by
  obtain ⟨indices, hlength, set, hset, hnames⟩ := h
  obtain ⟨rest, rfl⟩ := hpart
  have hchosen := List.forall₂_take part.length hnames
  rw [List.take_left] at hchosen
  exact ⟨indices.take part.length, by simp at hlength; omega, set, hset, hchosen⟩

/-- A swizzle takes its names from the set that its first name is from. -/
theorem not_isSwizzle_append {set : List Char} {count : Nat} {first c : Char} {before : List Char}
    (hset : set ∈ swizzleSets) (hfirst : first ∈ set)
    (hhead : (before ++ [c]).head? = some first)
    (hnot : ∀ index, ¬ NamesComponent set count c index) : ¬ IsSwizzle count (before ++ [c]) := by
  rintro ⟨indices, -, other, hother, hnames⟩
  have hnamed : ∀ d ∈ before ++ [c], ∃ index, NamesComponent other count d index := by
    intro d hd
    obtain ⟨index, -, hindex⟩ := List.exists_of_forall₂_mem hnames.flip hd
    exact ⟨index, hindex⟩
  obtain ⟨index, -, hindex⟩ := hnamed first (List.mem_of_head? hhead)
  obtain rfl := swizzleSet_unique hset hother hfirst (List.mem_of_getElem? hindex)
  obtain ⟨index, hc⟩ := hnamed c (by simp)
  exact hnot index hc

section

variable {vector : Primitive} {set : List Char} {own offset : Nat} {names : List Char}
  {indices : List Nat} {fault : SwizzleFault}

/-- The first name decides on the set, just as if the set was known before. -/
theorem swizzleIndices_none {c : Char} {index : Nat}
    (hc : swizzleComponent? c = some (own, index)) :
    swizzleIndices vector none offset (c :: names) =
      swizzleIndices vector (some own) offset (c :: names) := by
  simp [swizzleIndices, hc]

/-- Once the set is known, names of its components are accepted. -/
theorem swizzleIndices_eq_ok (hset : swizzleSets[own]? = some set)
    (h : List.Forall₂ (NamesComponent set vector.componentCount) names indices) :
    swizzleIndices vector (some own) offset names = .ok indices := by
  induction h generalizing offset with
  | nil => rfl
  | @cons c index names indices hc hnames ih =>
      obtain ⟨hbound, hc⟩ := hc
      have hcomponent := swizzleComponent?_eq_some_iff.2 ⟨set, hset, hc⟩
      simp [swizzleIndices, hcomponent, Nat.not_le.2 hbound, ih, Except.map]

/-- Names of components of the set are accepted, and otherwise the fault is about the first name
that is none. -/
theorem swizzleIndices_some (hset : swizzleSets[own]? = some set) {first : Char}
    (hfirst : first ∈ set) (vector : Primitive) (offset : Nat) (names : List Char) :
    (∃ indices, swizzleIndices vector (some own) offset names = .ok indices ∧
      List.Forall₂ (NamesComponent set vector.componentCount) names indices) ∨
    ∃ before c after indices cause, names = before ++ c :: after ∧
      swizzleIndices vector (some own) offset names =
        .error ⟨cause, offset + byteLength before, c⟩ ∧
      List.Forall₂ (NamesComponent set vector.componentCount) before indices ∧
      (∀ index, ¬ NamesComponent set vector.componentCount c index) ∧
      NameFault (.primitive vector) first c cause := by
  have hmem := List.mem_of_getElem? hset
  induction names generalizing offset with
  | nil => exact .inl ⟨[], rfl, .nil⟩
  | cons c names ih =>
      cases hc : swizzleComponent? c with
      | none =>
          have hnone := swizzleComponent?_eq_none_iff.1 hc
          refine .inr ⟨[], c, names, [], .invalidSwizzleComponent c, rfl,
            by simp [swizzleIndices, hc], .nil, ?_, .invalid hnone⟩
          rintro index ⟨-, hindex⟩
          exact hnone set hmem (List.mem_of_getElem? hindex)
      | some component =>
          obtain ⟨own', index⟩ := component
          obtain ⟨other, hother, hindex⟩ := swizzleComponent?_eq_some_iff.1 hc
          have hc_other := List.mem_of_getElem? hindex
          have hown : ∀ {i}, set[i]? = some c → own = own' ∧ i = index := by
            intro i hi
            cases (swizzleComponent?_eq_some_iff.2 ⟨set, hset, hi⟩).symm.trans hc
            exact ⟨rfl, rfl⟩
          by_cases heq : own = own'
          · subst heq
            obtain rfl : set = other := Option.some.inj (hset.symm.trans hother)
            by_cases hbound : index < vector.componentCount
            · have hnames : NamesComponent set vector.componentCount c index := ⟨hbound, hindex⟩
              rcases ih (offset + c.utf8Size) with
                ⟨indices, hrest, hindices⟩ | ⟨before, d, after, indices, cause, rfl, hrest, hfault⟩
              · exact .inl ⟨index :: indices,
                  by simp [swizzleIndices, hc, Nat.not_le.2 hbound, hrest, Except.map],
                  .cons hnames hindices⟩
              · refine .inr ⟨c :: before, d, after, index :: indices, cause, rfl, ?_,
                  .cons hnames hfault.1, hfault.2⟩
                simp [swizzleIndices, hc, Nat.not_le.2 hbound, hrest, Except.map, Nat.add_assoc]
            · refine .inr ⟨[], c, names, [], .swizzleOutOfBounds c (.primitive vector), rfl,
                by simp [swizzleIndices, hc, Nat.not_lt.1 hbound], .nil, ?_,
                .outOfBounds hmem hc_other hfirst⟩
              rintro i ⟨hi, hget⟩
              rw [(hown hget).2] at hi
              exact hbound hi
          · refine .inr ⟨[], c, names, [], .mixedSwizzleSets c, rfl,
              by simp [swizzleIndices, hc, heq], .nil, fun i hi => heq (hown hi.2).1,
              .mixed (List.mem_of_getElem? hother) hc_other fun hfirst' => ?_⟩
            obtain rfl := swizzleSet_unique hmem (List.mem_of_getElem? hother) hfirst hfirst'
            exact heq (hown hindex).1

end

/-! ## Constants -/

/-- The value that some components make up: a single one is a scalar. -/
def Value.ofComponents : List Value → Value
  | [v] => v
  | vs => .composite vs

/-- The components at the indices, in order. -/
theorem Value.swizzle_composite {components : List Value} {indices : List Nat}
    (h : ∀ i ∈ indices, i < components.length) :
    ∃ selected, List.Forall₂ (fun i v => components[i]? = some v) indices selected ∧
      (composite components).swizzle indices = some (ofComponents selected) := by
  have hparts : indices.mapM (composite components).component? ≠ none :=
    List.mapM_ne_none fun i hi => by simpa [component?, components?] using h i hi
  obtain ⟨selected, hselected⟩ := Option.ne_none_iff_exists'.1 hparts
  have hparts := List.forall₂_of_mapM hselected
  refine ⟨selected, hparts, ?_⟩
  unfold swizzle
  split
  · rename_i index
    obtain ⟨v, _, hv, hnil, rfl⟩ := List.forall₂_cons_left_iff.1 hparts
    obtain rfl := List.forall₂_nil_left_iff.1 hnil
    exact hv
  · rename_i hindices
    have hlength : selected.length ≠ 1 := by
      rw [← hparts.length_eq]
      intro hone
      obtain ⟨index, rfl⟩ := List.length_eq_one_iff.1 hone
      exact hindices index rfl
    rw [hselected, Option.map_some]
    unfold ofComponents
    split
    · exact absurd rfl hlength
    · rfl

/-! ## Field selection -/

/-- The type of a swizzle with so many names: a scalar for one, a vector for more. -/
inductive SwizzleType (element : Scalar) : Nat → Primitive → Prop where
  | scalar : SwizzleType element 1 (.scalar element)
  | vector (size : Dimension) : SwizzleType element size.toNat (.vector element size)

theorem SwizzleType.of_vectorOf? {element : Scalar} {count : Nat} {type : Primitive}
    (h : (Primitive.scalar element).vectorOf? count = some type) :
    SwizzleType element count type := by
  unfold Primitive.vectorOf? at h
  split at h
  · rename_i heq
    cases heq
    cases h
    exact .scalar
  · rename_i heq _
    cases heq
    obtain ⟨size, hsize, rfl⟩ := Option.map_eq_some_iff.1 h
    rw [← Dimension.ofNat?_eq_some hsize]
    exact .vector size
  · cases h

section

variable {element : Scalar} {size : Dimension} {constant : Option Value} {selector : Token}

theorem typeSwizzle_accepted (element : Scalar) (constant : Option Value)
    (hselector : selector.text.toList ≠ []) {indices : List Nat}
    (h : Swizzles size.toNat selector.text.toList indices) :
    ∃ type, SwizzleType element selector.text.toList.length type ∧
      typeSwizzle (.vector element size) constant selector =
        pure (.ofValue (.primitive type) (constant.bind (·.swizzle indices))) := by
  obtain ⟨hlength, set, hset, hnames⟩ := h
  obtain ⟨own, hown⟩ := List.mem_iff_getElem?.1 hset
  have hindices :
      swizzleIndices (.vector element size) none 0 selector.text.toList = .ok indices := by
    obtain ⟨c, names, hcons⟩ := List.exists_cons_of_ne_nil hselector
    rw [hcons] at hnames ⊢
    obtain ⟨index, rest, hc, -, -⟩ := List.forall₂_cons_left_iff.1 hnames
    rw [swizzleIndices_none (swizzleComponent?_eq_some_iff.2 ⟨set, hown, hc.2⟩)]
    exact swizzleIndices_eq_ok hown hnames
  have hpos := List.length_pos_iff.2 hselector
  have hvector : (Primitive.scalar element).vectorOf? selector.text.toList.length ≠ none :=
    vectorOf?_ne_none hpos hlength
  obtain ⟨type, htype⟩ := Option.ne_none_iff_exists'.1 hvector
  refine ⟨type, .of_vectorOf? htype, ?_⟩
  unfold typeSwizzle
  simp only [Nat.not_lt.2 hlength, if_false, hindices, Primitive.element, htype]

/-- A selector that is too long. -/
theorem typeSwizzle_tooLong (h : 4 < selector.text.toList.length) :
    typeSwizzle (.vector element size) constant selector =
      ⟨.none, [⟨.swizzleTooLong selector.text.toList.length, selector.location⟩]⟩ := by
  unfold typeSwizzle
  simp only [h, if_true]
  rfl

/-- A problem with the first name up to which a selector is no swizzle. -/
structure FirstFault (type : Ty) (count : Nat) (selector : Token) (problem : SemanticError)
    (before : List Char) (c : Char) : Prop where
  split : ∃ after, selector.text.toList = before ++ c :: after
  isSwizzle : ∀ part, part <+: before → IsSwizzle count part
  not_isSwizzle : ¬ IsSwizzle count (before ++ [c])
  cause : ∀ first ∈ selector.text.toList.head?, NameFault type first c problem.cause
  location : problem.location = selector.location.slice (byteLength before) c.utf8Size

theorem typeSwizzle_faulty (element : Scalar) (constant : Option Value)
    (hselector : selector.text.toList ≠ []) (hlength : selector.text.toList.length ≤ 4)
    (h : ¬ IsSwizzle size.toNat selector.text.toList) :
    ∃ problem before c,
      FirstFault (.primitive (.vector element size)) size.toNat selector problem before c ∧
        typeSwizzle (.vector element size) constant selector = ⟨.none, [problem]⟩ := by
  have hreported : ∀ {cause offset c},
      swizzleIndices (.vector element size) none 0 selector.text.toList =
        .error ⟨cause, offset, c⟩ →
      typeSwizzle (.vector element size) constant selector =
        ⟨.none, [⟨cause, selector.location.slice offset c.utf8Size⟩]⟩ := by
    intro cause offset c hfault
    unfold typeSwizzle
    simp only [Nat.not_lt.2 hlength, if_false, hfault]
    rfl
  obtain ⟨first, names, hcons⟩ := List.exists_cons_of_ne_nil hselector
  have hhead : selector.text.toList.head? = some first := by rw [hcons]; rfl
  cases hfirst : swizzleComponent? first with
  | none =>
      have hnone := swizzleComponent?_eq_none_iff.1 hfirst
      have hempty : IsSwizzle size.toNat [] := ⟨[], Nat.zero_le 4, _, List.mem_cons_self, .nil⟩
      have hfault : swizzleIndices (.vector element size) none 0 selector.text.toList =
          .error ⟨.invalidSwizzleComponent first, 0, first⟩ := by
        rw [hcons]
        simp [swizzleIndices, hfirst]
      refine ⟨⟨_, _⟩, [], first, ⟨⟨names, hcons⟩, ?_, ?_, ?_, rfl⟩, hreported hfault⟩
      · intro part hpart
        rwa [List.prefix_nil.1 hpart]
      · rintro ⟨indices, -, set, hset, hnames⟩
        obtain ⟨index, -, hindex, -⟩ := List.forall₂_cons_left_iff.1 hnames
        exact hnone set hset (List.mem_of_getElem? hindex.2)
      · intro first' hfirst'
        cases hhead.symm.trans hfirst'
        exact .invalid hnone
  | some component =>
      obtain ⟨own, index⟩ := component
      obtain ⟨set, hset, hindex⟩ := swizzleComponent?_eq_some_iff.1 hfirst
      have hmem := List.mem_of_getElem? hset
      have hfirst_mem := List.mem_of_getElem? hindex
      rcases swizzleIndices_some hset hfirst_mem (.vector element size) 0 selector.text.toList with
        ⟨indices, -, hindices⟩ |
        ⟨before, c, after, indices, cause, hsplit, hfault, hbefore, hnot, hcause⟩
      · exact absurd ⟨indices, hlength, set, hmem, hindices⟩ h
      · have hbefore_le : before.length ≤ 4 := by
          rw [hsplit] at hlength
          simp at hlength
          omega
        have hsome : swizzleIndices (.vector element size) none 0 selector.text.toList =
            .error ⟨cause, byteLength before, c⟩ := by
          rw [hcons, swizzleIndices_none hfirst, ← hcons, hfault, Nat.zero_add]
        refine ⟨⟨_, _⟩, before, c, ⟨⟨after, hsplit⟩, ?_, ?_, ?_, rfl⟩, hreported hsome⟩
        · exact fun part hpart =>
            IsSwizzle.of_prefix ⟨indices, hbefore_le, set, hmem, hbefore⟩ hpart
        · refine not_isSwizzle_append hmem hfirst_mem ?_ hnot
          rw [← hhead, hsplit]
          cases before <;> rfl
        · intro first' hfirst'
          cases hhead.symm.trans hfirst'
          exact hcause

end

/-- A selector of a vector is accepted if it is a swizzle, and then only. What it makes has as many
components as it has names, and a known value has those of the vector, in order. Any other text
makes nothing and has one problem: it is too long, or else has a first name up to which it is no
swizzle. -/
theorem typeField_swizzle {operand : Expr} {element : Scalar} {size : Dimension}
    (htype : operand.info.type = some (.primitive (.vector element size))) {selector : Token}
    (hselector : selector.text.toList ≠ []) :
    let names := selector.text.toList
    let selected := typeField operand selector
    (∀ indices, Swizzles size.toNat names indices →
      selected.problems = [] ∧
      (∃ type, SwizzleType element names.length type ∧
        selected.value.type = some (.primitive type)) ∧
      (operand.info.constant = none → selected.value.constant = none) ∧
      ∀ components, operand.info.constant = some (.composite components) →
        components.length = size.toNat →
          ∃ parts, List.Forall₂ (fun i v => components[i]? = some v) indices parts ∧
            selected.value.constant = some (.ofComponents parts)) ∧
    (¬ IsSwizzle size.toNat names →
      ∃ problem, selected = ⟨.none, [problem]⟩ ∧
        if 4 < names.length then problem = ⟨.swizzleTooLong names.length, selector.location⟩
        else ∃ before c, FirstFault (.primitive (.vector element size)) size.toNat selector problem
          before c) := by
  intro names selected
  have hselected : selected =
      typeSwizzle (.vector element size) operand.info.constant selector := by
    simp only [selected, typeField, htype]
  constructor
  · intro indices h
    obtain ⟨type, htype, haccepted⟩ :=
      typeSwizzle_accepted element operand.info.constant hselector h
    rw [hselected, haccepted]
    refine ⟨rfl, ⟨type, htype, rfl⟩, fun hnone => ?_, fun components hcomponents hcount => ?_⟩
    · simp [hnone, ExprInfo.ofValue]
    · have hindices : ∀ i ∈ indices, i < components.length := by
        obtain ⟨-, set, -, hnames⟩ := h
        intro i hi
        obtain ⟨c, -, hc⟩ := List.exists_of_forall₂_mem hnames hi
        rw [hcount]
        exact hc.1
      obtain ⟨parts, hparts, hvalue⟩ := Value.swizzle_composite hindices
      exact ⟨parts, hparts, by simpa [hcomponents, ExprInfo.ofValue] using hvalue⟩
  · intro h
    rw [hselected]
    by_cases hlong : 4 < names.length
    · simp only [hlong, if_true]
      exact ⟨_, typeSwizzle_tooLong hlong, rfl⟩
    · simp only [hlong, if_false]
      obtain ⟨problem, before, c, hfault, heq⟩ :=
        typeSwizzle_faulty element operand.info.constant hselector (Nat.not_lt.1 hlong) h
      exact ⟨problem, heq, before, c, hfault⟩

/-- Two components of a known vector in reverse order. -/
theorem typeField_swizzle_reversed :
    let vector : Ty := .primitive (.vector .int .two)
    let operand : Expr := .variable ⟨some vector, none, some (.composite [.int 1, .int 2])⟩
      ⟨.identifier, "v", .whole "v", false, false⟩
    let selector : Token := ⟨.identifier, "yx", .whole "yx", false, false⟩
    let selected := typeField operand selector
    operand.info.type = some vector ∧ selector.text.toList ≠ [] ∧
      Swizzles 2 selector.text.toList [1, 0] ∧ selected.problems = [] ∧
        selected.value.constant = some (.composite [.int 2, .int 1]) := by
  intro vector operand selector selected
  have htype : operand.info.type = some vector := rfl
  have hselector : selector.text.toList ≠ [] := by decide
  have hnames : List.Forall₂ (NamesComponent ['x', 'y', 'z', 'w'] 2) ['y', 'x'] [1, 0] :=
    .cons ⟨by decide, rfl⟩ (.cons ⟨by decide, rfl⟩ .nil)
  have hswizzles : Swizzles 2 selector.text.toList [1, 0] := by
    rw [show selector.text.toList = ['y', 'x'] by decide]
    exact ⟨by decide, _, List.mem_cons_self, hnames⟩
  obtain ⟨hproblems, -, -, hconstant⟩ := (typeField_swizzle htype hselector).1 _ hswizzles
  obtain ⟨parts, hparts, hvalue⟩ := hconstant _ rfl rfl
  obtain ⟨second, _, hsecond, hrest, rfl⟩ := List.forall₂_cons_left_iff.1 hparts
  obtain ⟨first, _, hfirst, hnil, rfl⟩ := List.forall₂_cons_left_iff.1 hrest
  obtain rfl := List.forall₂_nil_left_iff.1 hnil
  cases hsecond
  cases hfirst
  exact ⟨htype, hselector, hswizzles, hproblems, hvalue⟩

end Essl
