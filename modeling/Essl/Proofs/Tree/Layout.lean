import Essl.Proofs.Tree.Nodes
import Essl.Proofs.Tree.Spelling
import Essl.Tree.Span

/-!
# How parts of a tree are laid out

Each part of a tree that has a location is a row of tokens, separators and smaller such parts. Its
words are those of the row, and its location is the one that the ends of the row have together.
-/

namespace Essl

/-- A part of a tree that has a location. -/
inductive Part where
  | expr (e : Expr)
  | arraySize (size : ArraySize)
  | declarator (d : Declarator)
  | typeSpec (s : TypeSpec)
  | header (h : FunctionHeader)
  | block (b : Block)
  | condition (c : Condition)
  | statement (s : Statement)
  | declaration (d : Declaration)

/-- What stands in one place of a row. -/
inductive Item where
  | token (t : Token)
  | separator (s : Separator)
  | part (p : Part)

namespace Part

def location : Part → Location
  | expr e => e.location
  | arraySize size => size.location
  | declarator d => d.location
  | typeSpec s => s.location
  | header h => h.location
  | block b => b.location
  | condition c => c.location
  | statement s => s.location
  | declaration d => d.location

def pieces : Part → List Piece
  | expr e => e.pieces
  | arraySize size => sizePieces (some size)
  | declarator d => d.pieces
  | typeSpec s => s.pieces
  | header h => h.pieces
  | block b => b.pieces
  | condition c => c.pieces
  | statement s => s.pieces
  | declaration d => d.pieces

end Part

namespace Item

/-- Separators have no location of their own. -/
def location? : Item → Option Location
  | token t => some t.location
  | separator _ => none
  | part p => some p.location

def pieces : Item → List Piece
  | token t => [.kept t]
  | separator s => [.separator s]
  | part p => p.pieces

/-- Rows with a comma before each. -/
def commaBefore : List (List Item) → List Item
  | [] => []
  | row :: rest => .separator .comma :: (row ++ commaBefore rest)

/-- Rows with commas between them. -/
def commaBetween : List (List Item) → List Item
  | [] => []
  | row :: rest => row ++ commaBefore rest

def ofTokens (ts : List Token) : List Item := ts.map token

def ofExpr (e : Expr) : Item := part (.expr e)

/-- Expressions with commas between them. -/
def ofExprs (es : List Expr) : List Item := commaBetween (es.map fun e => [ofExpr e])

/-- Declarators with commas between them. -/
def ofDeclarators (ds : List Declarator) : List Item :=
  commaBetween (ds.map fun d => [part (.declarator d)])

def ofSize (size : Option ArraySize) : List Item := size.toList.map fun s => part (.arraySize s)

end Item

open Item (ofTokens ofExpr ofExprs ofDeclarators ofSize)

def Expr.row : Expr → List Item
  | .assignment _ left op right | .binary _ left op right => [ofExpr left, .token op, ofExpr right]
  | .ternary _ condition question whenTrue colon whenFalse =>
    [ofExpr condition, .token question, ofExpr whenTrue, .token colon, ofExpr whenFalse]
  | .unary _ op operand => [.token op, ofExpr operand]
  | .step _ operand op => [ofExpr operand, .token op]
  | .literal _ token => [.token token]
  | .group _ opening inner closing => [.token opening, ofExpr inner, .token closing]
  | .variable _ name => [.token name]
  | .call _ callee opening void arguments closing =>
    .token callee :: .token opening ::
      (ofTokens void.toList ++ (ofExprs arguments ++ [.token closing]))
  | .arrayCall _ callee bracket size bracketEnd opening void arguments closing =>
    .token callee :: .part (.arraySize ⟨bracket, size, bracketEnd⟩) :: .token opening ::
      (ofTokens void.toList ++ (ofExprs arguments ++ [.token closing]))
  | .field _ operand dot selector => [ofExpr operand, .token dot, .token selector]
  | .index _ operand opening position closing =>
    [ofExpr operand, .token opening, ofExpr position, .token closing]
  | .list _ exprs => ofExprs exprs

def Declarator.row (d : Declarator) : List Item :=
  .token d.name :: (ofSize d.size ++ d.initializer.elim [] fun e => [.separator .assign, ofExpr e])

def TypeQualifiers.row (q : TypeQualifiers) : List Item :=
  ofTokens (q.storage ++ q.precision.toList)

def FieldSpec.row (f : FieldSpec) : List Item :=
  .part (.typeSpec f.type) :: (ofDeclarators f.names ++ [.token f.semicolon])

def TypeSpec.row : TypeSpec → List Item
  | .named q name _ => q.row ++ [.token name]
  | .struct q keyword name opening fields closing _ _ =>
    q.row ++ .token keyword :: (ofTokens name.toList ++
      .token opening :: (fields.flatMap FieldSpec.row ++ [.token closing]))

def ParameterSpec.row (p : ParameterSpec) : List Item :=
  ofTokens p.qualifiers ++ .part (.typeSpec p.typeSpec) :: (ofTokens p.name.toList ++ ofSize p.size)

def FunctionHeader.row (h : FunctionHeader) : List Item :=
  .part (.typeSpec h.returnType) :: .token h.name :: .token h.opening ::
    (Item.commaBetween (h.parameters.map ParameterSpec.row) ++ [.token h.closing])

def Block.row (b : Block) : List Item :=
  .token b.opening :: (b.statements.map (fun s => .part (.statement s)) ++ [.token b.closing])

def Condition.row : Condition → List Item
  | .expression e => [ofExpr e]
  | .declaration s d => [.part (.typeSpec s), .part (.declarator d)]

def Statement.row : Statement → List Item
  | .declaration d => [.part (.declaration d)]
  | .block b => [.part (.block b)]
  | .expression e semicolon => [ofExpr e, .token semicolon]
  | .empty semicolon => [.token semicolon]
  | .ifThen keyword opening condition closing whenTrue =>
    [.token keyword, .token opening, ofExpr condition, .token closing, .part (.statement whenTrue)]
  | .ifElse keyword opening condition closing whenTrue otherwise whenFalse =>
    [.token keyword, .token opening, ofExpr condition, .token closing, .part (.statement whenTrue),
      .token otherwise, .part (.statement whenFalse)]
  | .whileLoop keyword opening condition closing body =>
    [.token keyword, .token opening, .part (.condition condition), .token closing,
      .part (.statement body)]
  | .doLoop keyword body whileWord opening condition closing semicolon =>
    [.token keyword, .part (.statement body), .token whileWord, .token opening, ofExpr condition,
      .token closing, .token semicolon]
  | .forLoop keyword opening init condition semicolon increment closing body =>
    .token keyword :: .token opening :: .part (.statement init) ::
      (condition.toList.map (fun c => .part (.condition c)) ++
        .token semicolon :: (increment.toList.map ofExpr ++
          [.token closing, .part (.statement body)]))
  | .jump keyword semicolon => [.token keyword, .token semicolon]
  | .return keyword value semicolon =>
    .token keyword :: (value.toList.map ofExpr ++ [.token semicolon])

def Declaration.row : Declaration → List Item
  | .declarators s ds semicolon => .part (.typeSpec s) :: (ofDeclarators ds ++ [.token semicolon])
  | .type s semicolon => [.part (.typeSpec s), .token semicolon]
  | .precision keyword word s semicolon =>
    [.token keyword, .token word, .part (.typeSpec s), .token semicolon]
  | .invariants keyword names semicolon =>
    .token keyword :: (Item.commaBetween (names.map fun n => [.token n.name]) ++ [.token semicolon])
  | .prototype header semicolon => [.part (.header header), .token semicolon]
  | .function header body => [.part (.header header), .part (.block body)]

namespace Part

/-- What a part is put together from. -/
def row : Part → List Item
  | expr e => e.row
  | arraySize size => [.token size.opening, ofExpr size.size, .token size.closing]
  | declarator d => d.row
  | typeSpec s => s.row
  | header h => h.row
  | block b => b.row
  | condition c => c.row
  | statement s => s.row
  | declaration d => d.row

end Part

/-! ## Words of rows -/

/-- The pieces of a row. -/
def piecesOfRow (row : List Item) : List Piece := row.flatMap Item.pieces

section

variable {row : List Item}

@[simp] theorem Item.pieces_token (t : Token) : (token t).pieces = [.kept t] := rfl

@[simp] theorem Item.pieces_separator (s : Separator) :
    (separator s).pieces = [.separator s] := rfl

@[simp] theorem Item.pieces_part (p : Part) : (part p).pieces = p.pieces := rfl

@[simp] theorem Item.pieces_ofExpr (e : Expr) : (ofExpr e).pieces = e.pieces := rfl

@[simp] theorem piecesOfRow_nil : piecesOfRow [] = [] := rfl

@[simp] theorem piecesOfRow_cons (item : Item) :
    piecesOfRow (item :: row) = item.pieces ++ piecesOfRow row := rfl

@[simp] theorem piecesOfRow_append (rest : List Item) :
    piecesOfRow (row ++ rest) = piecesOfRow row ++ piecesOfRow rest := List.flatMap_append

@[simp] theorem piecesOfRow_ofTokens (ts : List Token) :
    piecesOfRow (ofTokens ts) = ts.map .kept := by
  induction ts with
  | nil => rfl
  | cons t ts ih => exact congrArg (Piece.kept t :: ·) ih

theorem piecesOfRow_commaBefore (rows : List (List Item)) :
    piecesOfRow (Item.commaBefore rows) = commaBefore (rows.map piecesOfRow) := by
  induction rows with
  | nil => rfl
  | cons row rows ih => simp [Item.commaBefore, commaBefore, ih]

@[simp] theorem piecesOfRow_commaBetween (rows : List (List Item)) :
    piecesOfRow (Item.commaBetween rows) = commaBetween (rows.map piecesOfRow) := by
  cases rows with
  | nil => rfl
  | cons row rows => simp [Item.commaBetween, commaBetween, piecesOfRow_commaBefore]

theorem piecesOfEach_eq (es : List Expr) : Expr.piecesOfEach es = es.map Expr.pieces := by
  induction es with
  | nil => rfl
  | cons e es ih => rw [Expr.piecesOfEach, ih, List.map_cons]

@[simp] theorem piecesOfRow_ofExprs (es : List Expr) :
    piecesOfRow (ofExprs es) = commaBetween (Expr.piecesOfEach es) := by
  simp [ofExprs, piecesOfEach_eq, Function.comp_def]

@[simp] theorem piecesOfRow_ofDeclarators (ds : List Declarator) :
    piecesOfRow (ofDeclarators ds) = commaBetween (ds.map Declarator.pieces) := by
  simp [ofDeclarators, Function.comp_def, Part.pieces]

@[simp] theorem piecesOfRow_ofSize (size : Option ArraySize) :
    piecesOfRow (ofSize size) = sizePieces size := by
  cases size <;> simp [ofSize, sizePieces, Part.pieces]

end

theorem Expr.pieces_eq_row (e : Expr) : piecesOfRow e.row = e.pieces := by
  cases e <;> simp [row, pieces, Part.pieces, sizePieces]

theorem Declarator.pieces_eq_row (d : Declarator) : piecesOfRow d.row = d.pieces := by
  cases h : d.initializer <;> simp [row, pieces, h, initializerPieces]

theorem TypeQualifiers.pieces_eq_row (q : TypeQualifiers) : piecesOfRow q.row = q.pieces := by
  simp [row, pieces]

theorem FieldSpec.pieces_eq_rows (fields : List FieldSpec) :
    piecesOfRow (fields.flatMap FieldSpec.row) = FieldSpec.piecesOfAll fields := by
  induction fields with
  | nil => simp [piecesOfAll]
  | cons f fields ih =>
      obtain ⟨type, names, semicolon⟩ := f
      simp [FieldSpec.row, piecesOfAll, ih, Part.pieces, TypeSpec.pieces]

theorem TypeSpec.pieces_eq_row (s : TypeSpec) : piecesOfRow s.row = s.pieces := by
  cases s <;>
    simp [row, pieces, core, qualifiers, TypeQualifiers.pieces_eq_row, FieldSpec.pieces_eq_rows]

theorem ParameterSpec.pieces_eq_row (p : ParameterSpec) : piecesOfRow p.row = p.pieces := by
  simp [row, pieces, Part.pieces]

theorem FunctionHeader.pieces_eq_row (h : FunctionHeader) : piecesOfRow h.row = h.pieces := by
  simp [row, pieces, Part.pieces, ParameterSpec.pieces_eq_row, Function.comp_def]

theorem Statement.pieces_eq_rows (ss : List Statement) :
    piecesOfRow (ss.map fun s => .part (.statement s)) = Statement.piecesOfAll ss := by
  induction ss with
  | nil => rfl
  | cons s ss ih => simp [Statement.piecesOfAll, ih, Part.pieces]

theorem Statement.pieces_eq_row (s : Statement) : piecesOfRow s.row = s.pieces := by
  cases s with
  | forLoop keyword opening init condition semicolon increment closing body =>
      cases condition <;> cases increment <;> simp [row, pieces, Part.pieces]
  | «return» keyword value semicolon =>
      cases value <;> simp [row, pieces]
  | _ => simp [row, pieces, Part.pieces]

theorem Declaration.pieces_eq_row (d : Declaration) : piecesOfRow d.row = d.pieces := by
  cases d <;> simp [row, pieces, Part.pieces, Function.comp_def]

/-- The words of a part are those of its row. -/
theorem Part.pieces_eq_row (p : Part) : piecesOfRow p.row = p.pieces := by
  cases p with
  | expr e => exact e.pieces_eq_row
  | arraySize size => simp [row, pieces, sizePieces]
  | declarator d => exact d.pieces_eq_row
  | typeSpec s => exact s.pieces_eq_row
  | header h => exact h.pieces_eq_row
  | block b =>
      obtain ⟨opening, statements, closing, newScope⟩ := b
      simp [row, pieces, Block.row, Block.pieces, Statement.pieces_eq_rows]
  | condition c => cases c <;> simp [row, pieces, Condition.row, Condition.pieces]
  | statement s => exact s.pieces_eq_row
  | declaration d => exact d.pieces_eq_row

/-! ## Smaller parts -/

def Item.part? : Item → Option Part
  | part p => some p
  | _ => none

/-- The parts in a row. -/
def partsOfRow (row : List Item) : List Part := row.filterMap Item.part?

namespace Part

/-- The parts that a part is put together from. -/
def children (p : Part) : List Part := partsOfRow p.row

/-- The part itself, and all parts in it. -/
inductive Has (p : Part) : Part → Prop
  | self : Has p p
  | child {q c : Part} (hq : Has p q) (hc : c ∈ q.children) : Has p c

end Part

section

variable {row : List Item}

@[simp] theorem partsOfRow_nil : partsOfRow [] = [] := rfl

@[simp] theorem partsOfRow_token (t : Token) : partsOfRow (.token t :: row) = partsOfRow row := rfl

@[simp] theorem partsOfRow_separator (s : Separator) :
    partsOfRow (.separator s :: row) = partsOfRow row := rfl

@[simp] theorem partsOfRow_part (p : Part) :
    partsOfRow (.part p :: row) = p :: partsOfRow row := rfl

@[simp] theorem partsOfRow_ofExpr (e : Expr) :
    partsOfRow (ofExpr e :: row) = .expr e :: partsOfRow row := rfl

@[simp] theorem partsOfRow_append (rest : List Item) :
    partsOfRow (row ++ rest) = partsOfRow row ++ partsOfRow rest := List.filterMap_append

@[simp] theorem partsOfRow_ofTokens (ts : List Token) : partsOfRow (ofTokens ts) = [] := by
  induction ts with
  | nil => rfl
  | cons t ts ih => exact ih

@[simp] theorem partsOfRow_map_part {α : Type} (f : α → Part) (as : List α) :
    partsOfRow (as.map fun a => .part (f a)) = as.map f := by
  induction as with
  | nil => rfl
  | cons a as ih => simp [ih]

@[simp] theorem partsOfRow_map_ofExpr (es : List Expr) :
    partsOfRow (es.map ofExpr) = es.map .expr := partsOfRow_map_part .expr es

theorem partsOfRow_commaBefore (rows : List (List Item)) :
    partsOfRow (Item.commaBefore rows) = rows.flatMap partsOfRow := by
  induction rows with
  | nil => rfl
  | cons row rows ih => simp [Item.commaBefore, ih]

@[simp] theorem partsOfRow_commaBetween (rows : List (List Item)) :
    partsOfRow (Item.commaBetween rows) = rows.flatMap partsOfRow := by
  cases rows with
  | nil => rfl
  | cons row rows => simp [Item.commaBetween, partsOfRow_commaBefore]

@[simp] theorem partsOfRow_flatMap {α : Type} (f : α → List Item) (as : List α) :
    partsOfRow (as.flatMap f) = as.flatMap fun a => partsOfRow (f a) := by
  induction as with
  | nil => rfl
  | cons a as ih => simp [ih]

@[simp] theorem partsOfRow_ofExprs (es : List Expr) : partsOfRow (ofExprs es) = es.map .expr := by
  induction es with
  | nil => rfl
  | cons e es ih => simpa [ofExprs, List.flatMap_map] using ih

@[simp] theorem partsOfRow_ofDeclarators (ds : List Declarator) :
    partsOfRow (ofDeclarators ds) = ds.map .declarator := by
  induction ds with
  | nil => rfl
  | cons d ds ih => simpa [ofDeclarators, List.flatMap_map] using ih

@[simp] theorem partsOfRow_ofSize (size : Option ArraySize) :
    partsOfRow (ofSize size) = size.toList.map .arraySize := by
  simp [ofSize]

@[simp] theorem TypeQualifiers.partsOfRow_row (q : TypeQualifiers) : partsOfRow q.row = [] := by
  simp [row]

end

namespace Part

theorem mem_children {p c : Part} : c ∈ p.children ↔ .part c ∈ p.row := by
  have hpart : ∀ item : Item, item.part? = some c ↔ item = .part c := by
    intro item
    cases item <;> simp [Item.part?]
  simp [children, partsOfRow, List.mem_filterMap, hpart]

/-- A part is larger than those that it is put together from. -/
theorem sizeOf_lt_of_mem_children {p c : Part} (h : c ∈ p.children) : sizeOf c < sizeOf p := by
  cases p with
  | expr e =>
      -- The brackets of an array size belong to both parts, the callee in front only to the larger.
      have hcallee (callee : Token) : 0 < sizeOf callee := by cases callee; simp
      cases e <;> simp [children, row, Expr.row] at h <;> grind [→ List.sizeOf_lt_of_mem]
  | arraySize size =>
      cases size
      simp [children, row] at h
      grind
  | declarator d =>
      obtain ⟨name, size, initializer, type, symbol⟩ := d
      cases size <;> cases initializer <;> simp [children, row, Declarator.row] at h <;> grind
  | typeSpec s =>
      cases s <;> simp [children, row, TypeSpec.row, FieldSpec.row] at h
      obtain ⟨f, hf, hc⟩ := h
      have hfields := List.sizeOf_lt_of_mem hf
      cases f
      grind [→ List.sizeOf_lt_of_mem]
  | header f =>
      cases f
      simp [children, row, FunctionHeader.row, ParameterSpec.row, List.flatMap_map] at h
      rcases h with h | ⟨p, hp, hc⟩
      · grind
      · have hparameters := List.sizeOf_lt_of_mem hp
        cases p
        grind
  | block b =>
      cases b
      simp [children, row, Block.row] at h
      grind [→ List.sizeOf_lt_of_mem]
  | condition c => cases c <;> simp [children, row, Condition.row] at h <;> grind
  | statement s => cases s <;> simp [children, row, Statement.row] at h <;> grind
  | declaration d =>
      cases d <;> simp [children, row, Declaration.row] at h <;> grind [→ List.sizeOf_lt_of_mem]

end Part

/-! ## Nodes of smaller parts -/

section

variable {P : Node → Prop}

theorem Declarator.allNodes_inside {d : Declarator} :
    AllNodes P d.inside ↔
      (∀ s ∈ d.size, AllNodes P s.size.nodes) ∧ ∀ e ∈ d.initializer, AllNodes P e.nodes := by
  cases h : d.size <;> simp [inside, h, sizeNodes, allNodes_optionalNodes]

theorem FieldSpec.allNodes_nodesOfAll {fields : List FieldSpec} :
    AllNodes P (nodesOfAll fields) ↔
      ∀ f ∈ fields, AllNodes P f.type.nodes ∧ ∀ d ∈ f.names, AllNodes P d.fieldNodes := by
  induction fields with
  | nil => simp [nodesOfAll]
  | cons f fields ih =>
      cases f
      simp [nodesOfAll, ih, and_assoc]

theorem ParameterSpec.allNodes_nodes {p : ParameterSpec} :
    AllNodes P p.nodes ↔
      P (.parameter p) ∧ AllNodes P p.typeSpec.nodes ∧ ∀ s ∈ p.size, AllNodes P s.size.nodes := by
  cases h : p.size <;> simp [nodes, h, sizeNodes]

theorem Statement.allNodes_nodesOfAll {ss : List Statement} {returnType : Option Ty} :
    AllNodes P (nodesOfAll ss returnType) ↔ ∀ s ∈ ss, AllNodes P (s.nodes returnType) := by
  induction ss with
  | nil => simp [nodesOfAll]
  | cons s ss ih => simp [nodesOfAll, ih]

end

namespace Part

/-- Every node of the part has a property. -/
def All (P : Node → Prop) : Part → Prop
  | expr e => AllNodes P e.nodes
  | arraySize size => AllNodes P size.size.nodes
  | declarator d => AllNodes P d.inside
  | typeSpec s => AllNodes P s.nodes
  | header h => AllNodes P h.nodes
  | block b => ∃ returnType, AllNodes P (b.nodes returnType)
  | condition c => AllNodes P c.nodes
  | statement s => ∃ returnType, AllNodes P (s.nodes returnType)
  | declaration d => AllNodes P d.nodes

variable {P : Node → Prop} {p c : Part}

theorem All.child (h : p.All P) (hc : c ∈ p.children) : c.All P := by
  cases p with
  | expr e =>
      cases e <;> simp [All, Expr.nodes, Expr.allNodes_nodesOfEach] at h <;>
        simp [children, row, Expr.row] at hc <;> grind [All]
  | arraySize size =>
      simp [children, row] at hc
      grind [All]
  | declarator d =>
      rw [All, Declarator.allNodes_inside] at h
      cases hi : d.initializer <;> simp [children, row, Declarator.row, hi] at hc <;> grind [All]
  | typeSpec s =>
      cases s <;> simp [children, row, TypeSpec.row, FieldSpec.row] at hc
      simp [All, TypeSpec.nodes, FieldSpec.allNodes_nodesOfAll, Declarator.fieldNodes] at h
      grind [All]
  | header f =>
      simp [All, FunctionHeader.nodes, ParameterSpec.allNodes_nodes] at h
      simp [children, row, FunctionHeader.row, ParameterSpec.row, List.flatMap_map] at hc
      grind [All]
  | block b =>
      obtain ⟨returnType, h⟩ := h
      obtain ⟨opening, statements, closing, newScope⟩ := b
      simp [children, row, Block.row] at hc
      simp [Block.nodes, Statement.allNodes_nodesOfAll] at h
      grind [All]
  | condition c =>
      cases c <;> simp [All, Condition.nodes, Declarator.nodes] at h <;>
        simp [children, row, Condition.row] at hc <;> grind [All]
  | statement s =>
      obtain ⟨returnType, h⟩ := h
      cases s <;>
        simp [Statement.nodes, allNodes_optionalNodes, allNodes_optionalConditionNodes] at h <;>
        simp [children, row, Statement.row] at hc <;> grind [All, Condition.nodes, allNodes_cons]
  | declaration d =>
      cases d <;> simp [All, Declaration.nodes, Declarator.nodes] at h <;>
        simp [children, row, Declaration.row] at hc <;> grind [All]

theorem All.has (h : p.All P) (hc : p.Has c) : c.All P := by
  induction hc with
  | self => exact h
  | child _ hc ih => exact ih.child hc

/-- What holds of a part, if it holds of the parts in it, holds of all parts. -/
theorem induction {Q : Part → Prop} (step : ∀ p : Part, (∀ c ∈ p.children, Q c) → Q p)
    (p : Part) : Q p :=
  step p fun c _ => induction step c
termination_by sizeOf p
decreasing_by exact sizeOf_lt_of_mem_children ‹_›

end Part

end Essl
