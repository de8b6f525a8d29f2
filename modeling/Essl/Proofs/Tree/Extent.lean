import Essl.Proofs.Grammar.Composition
import Essl.Proofs.Grammar.Regular
import Essl.Proofs.Tree.Layout

/-!
# How far parts of a tree reach

A location that is found from the ends of a row reaches from the first word of the row to the last
one, as long as the words come in the order of the text. So every part of a tree lies exactly where
its words do, and within every part around it.
-/

namespace Essl

open Item (ofTokens ofExpr ofExprs ofDeclarators ofSize)

/-! ## Ends of rows -/

theorem Location.join_self (l : Location) : l.join l = l := by simp [Location.join]

/-- Where the first item of a row is. -/
def startOfRow (row : List Item) : Option Location := row.head?.bind Item.location?

/-- Where the last item of a row is. -/
def stopOfRow (row : List Item) : Option Location := row.getLast?.bind Item.location?

/-- The location is that of the last item of a row, or of the token which that one ends with. -/
def StopsAt (row : List Item) (l : Location) : Prop :=
  stopOfRow row = some l ∨
    ∃ p t, row.getLast? = some (.part p) ∧ p.row.getLast? = some (.token t) ∧ l = t.location

/-- The location is the one that the ends of the row have together. -/
def Location.EndsOf (row : List Item) (l : Location) : Prop :=
  ∃ first last, startOfRow row = some first ∧ StopsAt row last ∧ l = first.join last

theorem Location.endsOf_single {item : Item} {l : Location} (h : item.location? = some l) :
    l.EndsOf [item] := ⟨l, l, h, .inl h, l.join_self.symm⟩

theorem Expr.locationOfRest_eq (start : Location) (e : Expr) (es : List Expr) :
    locationOfRest start (e :: es) = start.join ((e :: es).getLast (by simp)).location := by
  induction es generalizing e with
  | nil => rfl
  | cons next es ih => rw [locationOfRest, ih next, List.getLast_cons_cons]

theorem stopOfRow_ofExprs (e : Expr) (es : List Expr) :
    stopOfRow (ofExprs (e :: es)) = some ((e :: es).getLast (by simp)).location := by
  induction es generalizing e with
  | nil => rfl
  | cons next es ih =>
      have hrow : ofExprs (e :: next :: es) =
          [ofExpr e, .separator .comma] ++ ofExprs (next :: es) := rfl
      have hne : ofExprs (next :: es) ≠ [] := by simp [ofExprs, Item.commaBetween]
      rw [hrow, stopOfRow, List.getLast?_append_of_ne_nil _ hne, ← stopOfRow, ih next,
        List.getLast_cons_cons]

theorem Expr.locationOfAll_endsOf {es : List Expr} (h : es ≠ []) :
    (locationOfAll es).EndsOf (ofExprs es) := by
  cases es with
  | nil => exact absurd rfl h
  | cons e es =>
      refine ⟨e.location, _, rfl, .inl (stopOfRow_ofExprs e es), ?_⟩
      cases es with
      | nil => exact e.location.join_self.symm
      | cons next es => exact locationOfRest_eq e.location next es

theorem Expr.location_endsOf (e : Expr) (h : ∀ info, e ≠ .list info []) :
    e.location.EndsOf e.row := by
  cases e with
  | literal info token => exact Location.endsOf_single rfl
  | «variable» info name => exact Location.endsOf_single rfl
  | list info es => exact locationOfAll_endsOf fun hes => h info (by rw [hes])
  | _ =>
      refine ⟨_, _, rfl, .inl ?_, rfl⟩
      simp [stopOfRow, row, List.getLast?_cons, Item.location?, ofExpr, Part.location]

theorem Declarator.location_endsOf (d : Declarator) : d.location.EndsOf d.row := by
  obtain ⟨name, size, initializer, type, symbol⟩ := d
  cases initializer with
  | some e =>
      refine ⟨_, _, rfl, .inl ?_, rfl⟩
      simp [stopOfRow, row, List.getLast?_cons, Item.location?, ofExpr, Part.location]
  | none =>
      cases size with
      | none => exact Location.endsOf_single rfl
      | some size => exact ⟨_, _, rfl, .inr ⟨.arraySize size, size.closing, rfl, rfl, rfl⟩, rfl⟩

theorem TypeQualifiers.head?_row (q : TypeQualifiers) :
    q.row.head? = q.first?.map .token := by
  obtain ⟨storage, precision⟩ := q
  cases storage <;> cases precision <;> rfl

theorem TypeSpec.location_endsOf (s : TypeSpec) : s.location.EndsOf s.row := by
  cases s with
  | named q name type =>
      cases hfirst : q.first? with
      | none =>
          have hrow : q.row = [] := by simpa [hfirst] using q.head?_row
          simp only [location, row, hfirst, hrow]
          exact Location.endsOf_single rfl
      | some first =>
          refine ⟨first.location, name.location, ?_, .inl ?_, ?_⟩
          · simp [startOfRow, row, List.head?_append, q.head?_row, hfirst, Item.location?]
          · simp [stopOfRow, row, Item.location?]
          · simp [location, hfirst]
  | struct q keyword name opening fields closing defined type =>
      refine ⟨(q.first?.getD keyword).location, closing.location, ?_, .inl ?_, rfl⟩
      · cases hfirst : q.first? <;>
          simp [startOfRow, row, List.head?_append, q.head?_row, hfirst, Item.location?]
      · simp [stopOfRow, row, List.getLast?_cons, List.getLast?_append, Item.location?]

theorem Condition.location_endsOf (c : Condition) : c.location.EndsOf c.row := by
  cases c with
  | expression e => exact Location.endsOf_single rfl
  | declaration s d => exact ⟨_, _, rfl, .inl rfl, rfl⟩

theorem Statement.location_endsOf (s : Statement) : s.location.EndsOf s.row := by
  cases s with
  | declaration d => exact Location.endsOf_single rfl
  | block b => exact Location.endsOf_single rfl
  | empty semicolon => exact Location.endsOf_single rfl
  | _ =>
      refine ⟨_, _, rfl, .inl ?_, rfl⟩
      simp [stopOfRow, row, List.getLast?_cons, List.getLast?_append, Item.location?, Part.location]

theorem Declaration.location_endsOf (d : Declaration) : d.location.EndsOf d.row := by
  cases d with
  | function header body =>
      refine ⟨_, _, rfl, .inr ⟨.block body, body.closing, rfl, ?_, rfl⟩, rfl⟩
      simp [Part.row, Block.row, List.getLast?_cons]
  | _ =>
      refine ⟨_, _, rfl, .inl ?_, rfl⟩
      simp [stopOfRow, row, List.getLast?_cons, Item.location?]

/-- Every part is where the ends of its row say. -/
theorem Part.location_endsOf (p : Part) (h : ∀ info, p ≠ .expr (.list info [])) :
    p.location.EndsOf p.row := by
  cases p with
  | expr e => exact e.location_endsOf fun info he => h info (by rw [he])
  | arraySize size => exact ⟨_, _, rfl, .inl rfl, rfl⟩
  | declarator d => exact d.location_endsOf
  | typeSpec s => exact s.location_endsOf
  | header f =>
      refine ⟨_, _, rfl, .inl ?_, rfl⟩
      simp [stopOfRow, row, FunctionHeader.row, List.getLast?_cons, Item.location?]
  | block b =>
      refine ⟨_, _, rfl, .inl ?_, rfl⟩
      simp [stopOfRow, row, Block.row, List.getLast?_cons, Item.location?]
  | condition c => exact c.location_endsOf
  | statement s => exact s.location_endsOf
  | declaration d => exact d.location_endsOf

/-! ## Words in the order of a text -/

section

variable (code : Code) (w : List Token)

/-- The tokens lie in the text, one behind the other. -/
structure InOrderOf : Prop where
  exactIn : ∀ t ∈ w, t.location.ExactIn code
  inOrder : w.Pairwise (·.location.stop ≤ ·.location.start)

/-- The location reaches from the start of the first token to the end of the last one. -/
def Location.Spans (l : Location) : Prop :=
  ∃ first ∈ w.head?, ∃ last ∈ w.getLast?, l = ⟨code, first.location.start, last.location.stop⟩

end

variable {code : Code} {u v w : List Token}

namespace InOrderOf

theorem of_infix (h : InOrderOf code w) (huw : u <:+: w) : InOrderOf code u :=
  ⟨fun t ht => h.exactIn t (huw.subset ht), h.inOrder.sublist huw.sublist⟩

theorem start_le (h : InOrderOf code w) {first t : Token} (hfirst : first ∈ w.head?)
    (ht : t ∈ w) : first.location.start ≤ t.location.start := by
  obtain ⟨rest, rfl⟩ := List.head?_eq_some_iff.1 (Option.mem_def.1 hfirst)
  rcases List.mem_cons.1 ht with rfl | ht
  · exact le_rfl
  · have hle := (List.pairwise_cons.1 h.inOrder).1 t ht
    exact (h.exactIn first List.mem_cons_self).exact.le.trans hle

theorem stop_le (h : InOrderOf code w) {last t : Token} (hlast : last ∈ w.getLast?)
    (ht : t ∈ w) : t.location.stop ≤ last.location.stop := by
  obtain ⟨front, rfl⟩ := List.getLast?_eq_some_iff.1 (Option.mem_def.1 hlast)
  rcases List.mem_append.1 ht with ht | ht
  · have hle := (List.pairwise_append.1 h.inOrder).2.2 t ht last (List.mem_singleton.2 rfl)
    exact hle.trans (h.exactIn last (by simp)).exact.le
  · rw [List.mem_singleton.1 ht]

end InOrderOf

theorem Code.scan_inOrderOf (code : Code) : InOrderOf code code.scan.tokens :=
  ⟨code.scan_located.tokens, code.scan_tokens_ordered⟩

namespace Location

variable {l m : Location}

theorem spans_token {t : Token} (h : t.location.ExactIn code) : t.location.Spans code [t] :=
  ⟨t, rfl, t, rfl, by rw [← h.code]⟩

/-- What is joined from the first words and the last ones reaches over all of them. -/
theorem Spans.join (hw : InOrderOf code w) (hu : u <+: w) (hv : v <:+ w) (hl : l.Spans code u)
    (hm : m.Spans code v) : (l.join m).Spans code w := by
  obtain ⟨first, hfirst, lastOfFirst, hlastOfFirst, rfl⟩ := hl
  obtain ⟨firstOfLast, hfirstOfLast, last, hlast, rfl⟩ := hm
  have hhead : first ∈ w.head? := by
    obtain ⟨rest, rfl⟩ := hu
    exact List.head?_append.trans (by rw [Option.mem_def.1 hfirst]; rfl)
  have hend : last ∈ w.getLast? := by
    obtain ⟨front, rfl⟩ := hv
    exact List.getLast?_append.trans (by rw [Option.mem_def.1 hlast]; rfl)
  have hstart := hw.start_le hhead (hv.subset (List.mem_of_mem_head? hfirstOfLast))
  have hstop := hw.stop_le hend (hu.subset (List.mem_of_mem_getLast? hlastOfFirst))
  refine ⟨first, hhead, last, hend, ?_⟩
  rw [Location.join, if_pos rfl]
  simp [hstart, hstop]

/-- What words reach over contains what some of them do. -/
theorem Spans.contains (hw : InOrderOf code w) (hl : l.Spans code w) (hv : v <:+: w)
    (hm : m.Spans code v) : l.start ≤ m.start ∧ m.stop ≤ l.stop := by
  obtain ⟨first, hfirst, last, hlast, rfl⟩ := hl
  obtain ⟨firstOfPart, hfirstOfPart, lastOfPart, hlastOfPart, rfl⟩ := hm
  exact ⟨hw.start_le hfirst (hv.subset (List.mem_of_mem_head? hfirstOfPart)),
    hw.stop_le hlast (hv.subset (List.mem_of_mem_getLast? hlastOfPart))⟩

end Location

/-! ## Where parts are -/

/-- Words of one of several things are some of their words. -/
theorem Spells.of_flatMap {α : Type} {f : α → List Piece} {as : List α} {a : α}
    (h : Spells (as.flatMap f) w) (ha : a ∈ as) : ∃ v, v <:+: w ∧ Spells (f a) v := by
  obtain ⟨before, after, rfl⟩ := List.append_of_mem ha
  rw [List.flatMap_append, List.flatMap_cons] at h
  obtain ⟨x, _, rfl, -, h⟩ := Spells.append_iff.1 h
  obtain ⟨v, y, rfl, hv, -⟩ := Spells.append_iff.1 h
  exact ⟨v, ⟨x, y, List.append_assoc x v y⟩, hv⟩

namespace Part

variable {p c : Part}

theorem spells_child (h : Spells p.pieces w) (hc : c ∈ p.children) :
    ∃ v, v <:+: w ∧ Spells c.pieces v := by
  rw [← p.pieces_eq_row] at h
  exact h.of_flatMap (mem_children.1 hc)

theorem spells_has (h : Spells p.pieces w) (hc : p.Has c) :
    ∃ v, v <:+: w ∧ Spells c.pieces v := by
  induction hc with
  | self => exact ⟨w, List.infix_rfl, h⟩
  | child _ hc ih =>
      obtain ⟨u, hu, hspells⟩ := ih
      obtain ⟨v, hv, hchild⟩ := spells_child hspells hc
      exact ⟨v, hv.trans hu, hchild⟩

/-- The part lies where its words do. -/
def Exact (code : Code) (p : Part) : Prop :=
  ∀ w, InOrderOf code w → Spells p.pieces w → p.location.Spans code w

theorem spans_item {row : List Item} (hrow : ∀ c ∈ partsOfRow row, c.Exact code) {item : Item}
    {l : Location} (hitem : item ∈ row) (hl : item.location? = some l) (hw : InOrderOf code w)
    (h : Spells item.pieces w) : l.Spans code w := by
  cases item with
  | token t =>
      obtain rfl : t.location = l := Option.some.inj hl
      obtain ⟨_, rfl, hnil⟩ := Spells.kept_cons_iff.1 h
      obtain rfl := Spells.nil_iff.1 hnil
      exact Location.spans_token (hw.exactIn t List.mem_cons_self)
  | separator s => cases hl
  | part c =>
      obtain rfl : c.location = l := Option.some.inj hl
      exact hrow c (List.mem_filterMap.2 ⟨_, hitem, rfl⟩) w hw h

/-- The first item of a row is where the first words are. -/
theorem spans_start {row : List Item} (hrow : ∀ c ∈ partsOfRow row, c.Exact code) {l : Location}
    (hl : startOfRow row = some l) (hw : InOrderOf code w) (h : Spells (piecesOfRow row) w) :
    ∃ u, u <+: w ∧ l.Spans code u := by
  obtain ⟨item, hitem, hlocation⟩ := Option.bind_eq_some_iff.1 hl
  obtain ⟨rest, rfl⟩ := List.head?_eq_some_iff.1 hitem
  obtain ⟨u, v, rfl, hu, -⟩ := Spells.append_iff.1 h
  have hprefix : u <+: u ++ v := List.prefix_append u v
  exact ⟨u, hprefix,
    spans_item hrow List.mem_cons_self hlocation (hw.of_infix hprefix.isInfix) hu⟩

/-- The words of the last item of a row are the last ones. -/
theorem spells_last {row : List Item} {item : Item} (hitem : row.getLast? = some item)
    (h : Spells (piecesOfRow row) w) : ∃ v, v <:+ w ∧ Spells item.pieces v := by
  obtain ⟨front, rfl⟩ := List.getLast?_eq_some_iff.1 hitem
  rw [piecesOfRow_append, piecesOfRow_cons, piecesOfRow_nil, List.append_nil] at h
  obtain ⟨u, v, rfl, -, hv⟩ := Spells.append_iff.1 h
  exact ⟨v, List.suffix_append u v, hv⟩

theorem spans_stop {row : List Item} (hrow : ∀ c ∈ partsOfRow row, c.Exact code) {l : Location}
    (hl : StopsAt row l) (hw : InOrderOf code w) (h : Spells (piecesOfRow row) w) :
    ∃ v, v <:+ w ∧ l.Spans code v := by
  rcases hl with hl | ⟨p, t, hp, ht, rfl⟩
  · obtain ⟨item, hitem, hlocation⟩ := Option.bind_eq_some_iff.1 hl
    obtain ⟨v, hv, hspells⟩ := spells_last hitem h
    exact ⟨v, hv, spans_item hrow (List.mem_of_mem_getLast? hitem) hlocation
      (hw.of_infix hv.isInfix) hspells⟩
  · obtain ⟨v, hv, hspells⟩ := spells_last hp h
    rw [Item.pieces_part, ← p.pieces_eq_row] at hspells
    obtain ⟨x, hx, hspells⟩ := spells_last ht hspells
    have hxw := hx.trans hv
    obtain ⟨_, rfl, hnil⟩ := Spells.kept_cons_iff.1 hspells
    obtain rfl := Spells.nil_iff.1 hnil
    exact ⟨[t], hxw, Location.spans_token (hw.exactIn t (hxw.subset List.mem_cons_self))⟩

/-- A part that can be written lies where its words do. -/
theorem exact (p : Part) : p.All Node.Regular → p.Exact code := by
  induction p using Part.induction with
  | step p ih =>
      intro hregular w hw h
      have hrow : ∀ c ∈ partsOfRow p.row, c.Exact code :=
        fun c hc => ih c hc (hregular.child hc)
      have hlist : ∀ info, p ≠ .expr (.list info []) := by
        rintro info rfl
        exact hregular _ (Expr.expr_mem_nodes _) rfl
      obtain ⟨l, m, hl, hm, hends⟩ := p.location_endsOf hlist
      rw [← p.pieces_eq_row] at h
      obtain ⟨u, hu, hlu⟩ := spans_start hrow hl hw h
      obtain ⟨v, hv, hmv⟩ := spans_stop hrow hm hw h
      rw [hends]
      exact .join hw hu hv hlu hmv

end Part

open Grammar

/-- Every part of a shader reaches from the start of its first word to the end of its last one, and
the parts that it is put together from are some of these words. -/
theorem Shader.parts_exact (code : Code) {d : Declaration} {p : Part}
    (hd : d ∈ (parseShader code.scan.tokens).shader.declarations)
    (hp : (Part.declaration d).Has p) :
    ∃ w, w <:+: code.scan.tokens ∧ Spells p.pieces w ∧ p.location.Spans code w ∧
      ∀ c ∈ p.children, (∃ v, v <:+: w ∧ Spells c.pieces v ∧ c.location.Spans code v) ∧
        p.location.start ≤ c.location.start ∧ c.location.stop ≤ p.location.stop := by
  obtain ⟨kept, remaining, htokens, hkept, hdeclarations, -⟩ :=
    parseShader_exists_kept code.scan.tokens
  have hspells : Spells ((parseShader kept).shader.declarations.flatMap Declaration.pieces) kept :=
    (parseShader_explains_none hkept).2
  have hregular : (Part.declaration d).All Node.Regular := by
    have hwritten : ∀ t ∈ code.scan.tokens, t.Written := fun _ ht => ⟨code, .inl ht⟩
    have hall := parseShader_regular hwritten
    rw [Shader.nodes, allNodes_flatMap] at hall
    exact hall d hd
  have hdkept : d ∈ (parseShader kept).declarations := hdeclarations ▸ hd
  obtain ⟨u, hu, hspells⟩ := hspells.of_flatMap hdkept
  obtain ⟨w, hw, hspells⟩ := Part.spells_has (p := .declaration d) hspells hp
  have hinfix : w <:+: code.scan.tokens := by
    refine (hw.trans hu).trans ?_
    rw [htokens]
    exact (List.prefix_append kept remaining).isInfix
  have hwords := code.scan_inOrderOf.of_infix hinfix
  have hspans := p.exact (hregular.has hp) w hwords hspells
  refine ⟨w, hinfix, hspells, hspans, fun c hc => ?_⟩
  obtain ⟨v, hv, hchild⟩ := Part.spells_child hspells hc
  have hspansChild := c.exact ((hregular.has hp).child hc) v (hwords.of_infix hv) hchild
  exact ⟨⟨v, hv, hchild, hspansChild⟩, hspans.contains hwords hv hspansChild⟩

/-- In `const int x[2];` the declarator is at `x[2]`. -/
theorem Shader.parts_exact_declarator :
    let code := Code.ofString "const int x[2];" .unknown
    ∃ d ∈ (parseShader code.scan.tokens).shader.declarations, ∃ p ∈ (Part.declaration d).children,
      p.location = ⟨code, 10, 14⟩ ∧
        ∃ w, w <:+: code.scan.tokens ∧ Spells p.pieces w ∧ p.location.Spans code w := by
  intro code
  have hplace : ∃ d ∈ (parseShader code.scan.tokens).shader.declarations,
      ∃ p ∈ (Part.declaration d).children, p.location = ⟨code, 10, 14⟩ := by decide +kernel
  obtain ⟨d, hd, p, hp, hlocation⟩ := hplace
  obtain ⟨w, hw, hspells, hspans, -⟩ := parts_exact code hd (.child .self hp)
  exact ⟨d, hd, p, hp, hlocation, w, hw, hspells, hspans⟩

end Essl
