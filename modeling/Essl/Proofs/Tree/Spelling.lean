import Essl.Tree.Basic
import Mathlib.Data.List.Forall2

/-!
# The words of a tree

Writing a tree out gives a list of pieces in the order of the grammar: the tokens that the tree
keeps, and the separators that it does not keep. `Spells` says that a list of tokens is such a
list of pieces, token by token.
-/

namespace Essl

/-- The tokens of which a tree keeps nothing: the commas between the parts of a list and the sign
before an initial value. -/
inductive Separator where
  | comma
  | assign

def Separator.op : Separator → Operator
  | comma => .comma
  | assign => .assign

/-- What writing a tree out puts in one place. -/
inductive Piece where
  /-- A token that the tree keeps. -/
  | kept (token : Token)
  | separator (separator : Separator)

namespace Piece

/-- Whether a token can stand in the place: the very token that was kept, or a separator of the
kind. -/
def Accepts : Piece → Token → Prop
  | kept token, t => t = token
  | separator s, t => t.kind = .operator s.op

def lexeme : Piece → TokenKind × String
  | kept token => (token.kind, token.text)
  | separator s => (.operator s.op, s.op.text)

end Piece

/-- The tokens are the pieces, one by one and in order. -/
def Spells (pieces : List Piece) (tokens : List Token) : Prop :=
  List.Forall₂ Piece.Accepts pieces tokens

/-! ## Writing trees out -/

/-- Lists of pieces with a comma before each. -/
def commaBefore : List (List Piece) → List Piece
  | [] => []
  | ps :: rest => .separator .comma :: (ps ++ commaBefore rest)

/-- Lists of pieces with commas between them. -/
def commaBetween : List (List Piece) → List Piece
  | [] => []
  | ps :: rest => ps ++ commaBefore rest

theorem commaBetween_cons_cons (ps qs : List Piece) (rest : List (List Piece)) :
    commaBetween (ps :: qs :: rest) = ps ++ .separator .comma :: commaBetween (qs :: rest) := rfl

theorem commaBetween_singleton (ps : List Piece) : commaBetween [ps] = ps := by
  simp [commaBetween, commaBefore]

mutual

def Expr.pieces : Expr → List Piece
  | .assignment _ left op right => left.pieces ++ .kept op :: right.pieces
  | .ternary _ condition question whenTrue colon whenFalse =>
    condition.pieces ++ .kept question :: (whenTrue.pieces ++ .kept colon :: whenFalse.pieces)
  | .binary _ left op right => left.pieces ++ .kept op :: right.pieces
  | .unary _ op operand => .kept op :: operand.pieces
  | .step _ operand op => operand.pieces ++ [.kept op]
  | .literal _ token => [.kept token]
  | .group _ opening inner closing => .kept opening :: (inner.pieces ++ [.kept closing])
  | .variable _ name => [.kept name]
  | .call _ callee opening void arguments closing =>
    .kept callee :: .kept opening ::
      (void.toList.map .kept ++ (commaBetween (Expr.piecesOfEach arguments) ++ [.kept closing]))
  | .arrayCall _ callee bracket size bracketEnd opening void arguments closing =>
    .kept callee :: .kept bracket :: (size.pieces ++ .kept bracketEnd :: .kept opening ::
      (void.toList.map .kept ++ (commaBetween (Expr.piecesOfEach arguments) ++ [.kept closing])))
  | .field _ operand dot selector => operand.pieces ++ [.kept dot, .kept selector]
  | .index _ operand opening position closing =>
    operand.pieces ++ .kept opening :: (position.pieces ++ [.kept closing])
  | .list _ exprs => commaBetween (Expr.piecesOfEach exprs)

def Expr.piecesOfEach : List Expr → List (List Piece)
  | [] => []
  | e :: es => e.pieces :: Expr.piecesOfEach es

end

/-- The pieces of `[size]`, if it is there. -/
def sizePieces : Option ArraySize → List Piece
  | none => []
  | some size => .kept size.opening :: (size.size.pieces ++ [.kept size.closing])

/-- The pieces of `= initializer`, if it is there. -/
def initializerPieces : Option Expr → List Piece
  | none => []
  | some e => .separator .assign :: e.pieces

def Declarator.pieces (d : Declarator) : List Piece :=
  .kept d.name :: (sizePieces d.size ++ initializerPieces d.initializer)

/-- The pieces of qualifiers: storage first, then precision. -/
def TypeQualifiers.pieces (q : TypeQualifiers) : List Piece :=
  q.storage.map .kept ++ q.precision.toList.map .kept

mutual

/-- The pieces of a type without its qualifiers. -/
def TypeSpec.core : TypeSpec → List Piece
  | .named _ name _ => [.kept name]
  | .struct _ keyword name opening fields closing _ _ =>
    .kept keyword :: (name.toList.map .kept ++
      .kept opening :: (FieldSpec.piecesOfAll fields ++ [.kept closing]))

def FieldSpec.piecesOfAll : List FieldSpec → List Piece
  | [] => []
  | ⟨type, names, semicolon⟩ :: rest =>
    type.qualifiers.pieces ++ (type.core ++
      (commaBetween (names.map Declarator.pieces) ++
        .kept semicolon :: FieldSpec.piecesOfAll rest))

end

def TypeSpec.pieces (s : TypeSpec) : List Piece := s.qualifiers.pieces ++ s.core

def ParameterSpec.pieces (p : ParameterSpec) : List Piece :=
  p.qualifiers.map .kept ++
    (p.typeSpec.pieces ++ (p.name.toList.map .kept ++ sizePieces p.size))

def FunctionHeader.pieces (h : FunctionHeader) : List Piece :=
  h.returnType.pieces ++ .kept h.name :: .kept h.opening ::
    (commaBetween (h.parameters.map ParameterSpec.pieces) ++ [.kept h.closing])

def Condition.pieces : Condition → List Piece
  | .expression e => e.pieces
  | .declaration typeSpec d => typeSpec.pieces ++ d.pieces

mutual

def Declaration.pieces : Declaration → List Piece
  | .declarators typeSpec ds semicolon =>
    typeSpec.pieces ++ (commaBetween (ds.map Declarator.pieces) ++ [.kept semicolon])
  | .type typeSpec semicolon => typeSpec.pieces ++ [.kept semicolon]
  | .precision keyword precision typeSpec semicolon =>
    .kept keyword :: .kept precision :: (typeSpec.pieces ++ [.kept semicolon])
  | .invariants keyword names semicolon =>
    .kept keyword :: (commaBetween (names.map ([.kept ·.name])) ++ [.kept semicolon])
  | .prototype header semicolon => header.pieces ++ [.kept semicolon]
  | .function header body => header.pieces ++ body.pieces

def Block.pieces : Block → List Piece
  | ⟨opening, statements, closing, _⟩ =>
    .kept opening :: (Statement.piecesOfAll statements ++ [.kept closing])

def Statement.pieces : Statement → List Piece
  | .declaration d => d.pieces
  | .block b => b.pieces
  | .expression e semicolon => e.pieces ++ [.kept semicolon]
  | .empty semicolon => [.kept semicolon]
  | .ifThen keyword opening condition closing whenTrue =>
    .kept keyword :: .kept opening :: (condition.pieces ++ .kept closing :: whenTrue.pieces)
  | .ifElse keyword opening condition closing whenTrue otherwise whenFalse =>
    .kept keyword :: .kept opening :: (condition.pieces ++ .kept closing ::
      (whenTrue.pieces ++ .kept otherwise :: whenFalse.pieces))
  | .whileLoop keyword opening condition closing body =>
    .kept keyword :: .kept opening :: (condition.pieces ++ .kept closing :: body.pieces)
  | .doLoop keyword body whileWord opening condition closing semicolon =>
    .kept keyword :: (body.pieces ++ .kept whileWord :: .kept opening ::
      (condition.pieces ++ [.kept closing, .kept semicolon]))
  | .forLoop keyword opening init condition semicolon increment closing body =>
    .kept keyword :: .kept opening :: (init.pieces ++
      (condition.elim [] Condition.pieces ++ .kept semicolon ::
        (increment.elim [] Expr.pieces ++ .kept closing :: body.pieces)))
  | .jump keyword semicolon => [.kept keyword, .kept semicolon]
  | .return keyword value semicolon =>
    .kept keyword :: (value.elim [] Expr.pieces ++ [.kept semicolon])

def Statement.piecesOfAll : List Statement → List Piece
  | [] => []
  | s :: ss => s.pieces ++ Statement.piecesOfAll ss

end

def Shader.pieces (shader : Shader) : List Piece :=
  shader.declarations.flatMap Declaration.pieces

/-- Kinds and texts of a shader that is written out. -/
def Shader.unparse (shader : Shader) : List (TokenKind × String) :=
  shader.pieces.map Piece.lexeme

/-! ## Spelling -/

namespace Spells

variable {p q : List Piece} {u v w : List Token} {t : Token} {s : Separator}

@[simp] theorem nil_iff : Spells [] w ↔ w = [] := List.forall₂_nil_left_iff

@[simp] theorem kept_cons_iff :
    Spells (.kept t :: p) w ↔ ∃ v, w = t :: v ∧ Spells p v := by
  rw [Spells, List.forall₂_cons_left_iff]
  constructor
  · rintro ⟨_, v, rfl, hp, rfl⟩
    exact ⟨v, rfl, hp⟩
  · rintro ⟨v, rfl, hp⟩
    exact ⟨t, v, rfl, hp, rfl⟩

theorem of_kept_cons {first : Token} (h : Spells (.kept t :: p) (first :: w)) :
    first = t ∧ Spells p w := List.forall₂_cons.1 h

@[simp] theorem separator_cons_iff :
    Spells (.separator s :: p) w ↔
      ∃ t v, w = t :: v ∧ t.kind = .operator s.op ∧ Spells p v := by
  rw [Spells, List.forall₂_cons_left_iff]
  constructor
  · rintro ⟨t, v, ht, hp, rfl⟩
    exact ⟨t, v, rfl, ht, hp⟩
  · rintro ⟨t, v, rfl, ht, hp⟩
    exact ⟨t, v, ht, hp, rfl⟩

@[simp] theorem append_iff :
    Spells (p ++ q) w ↔ ∃ u v, w = u ++ v ∧ Spells p u ∧ Spells q v := by
  induction p generalizing w with
  | nil => simp
  | cons piece p ih =>
      cases piece with
      | kept t =>
          simp only [List.cons_append, kept_cons_iff, ih]
          constructor
          · rintro ⟨_, rfl, u, v, rfl, hp, hq⟩
            exact ⟨t :: u, v, rfl, ⟨u, rfl, hp⟩, hq⟩
          · rintro ⟨_, v, rfl, ⟨u, rfl, hp⟩, hq⟩
            exact ⟨u ++ v, rfl, u, v, rfl, hp, hq⟩
      | separator s =>
          simp only [List.cons_append, separator_cons_iff, ih]
          constructor
          · rintro ⟨t, _, rfl, ht, u, v, rfl, hp, hq⟩
            exact ⟨t :: u, v, rfl, ⟨t, u, rfl, ht, hp⟩, hq⟩
          · rintro ⟨_, v, rfl, ⟨t, u, rfl, ht, hp⟩, hq⟩
            exact ⟨t, u ++ v, rfl, ht, u, v, rfl, hp, hq⟩

theorem append_kept_iff : Spells (p ++ [.kept t]) w ↔ ∃ u, w = u ++ [t] ∧ Spells p u := by
  rw [append_iff]
  constructor
  · rintro ⟨u, v, rfl, hp, hv⟩
    obtain ⟨v, rfl, hnil⟩ := kept_cons_iff.1 hv
    obtain rfl := nil_iff.1 hnil
    exact ⟨u, rfl, hp⟩
  · rintro ⟨u, rfl, hp⟩
    exact ⟨u, [t], rfl, hp, List.Forall₂.cons rfl .nil⟩

theorem nil : Spells [] [] := List.Forall₂.nil

theorem kept (h : Spells p w) : Spells (.kept t :: p) (t :: w) := List.Forall₂.cons rfl h

theorem separator (ht : t.kind = .operator s.op) (h : Spells p w) :
    Spells (.separator s :: p) (t :: w) := List.Forall₂.cons ht h

theorem append (hp : Spells p u) (hq : Spells q v) : Spells (p ++ q) (u ++ v) :=
  List.rel_append hp hq

@[simp] theorem map_kept_iff {ts : List Token} : Spells (ts.map .kept) w ↔ w = ts := by
  induction ts generalizing w with
  | nil => simp
  | cons t ts ih => simp [ih]

theorem map_kept (ts : List Token) : Spells (ts.map .kept) ts := map_kept_iff.2 rfl

theorem length_eq (h : Spells p w) : p.length = w.length := List.Forall₂.length_eq h

/-- What is in front of the first part is in front of the whole. -/
theorem first_append {P : Token → Prop} (hw : Spells (p ++ q) w)
    (hp : ∀ {u}, Spells p u → ∃ t v, u = t :: v ∧ P t) : ∃ t v, w = t :: v ∧ P t := by
  obtain ⟨u, v, rfl, hu, -⟩ := append_iff.1 hw
  obtain ⟨t, u, rfl, ht⟩ := hp hu
  exact ⟨t, u ++ v, rfl, ht⟩

/-- The first token is one of the first part, if that has any. -/
theorem append_of_first {P : Token → Prop} (hw : Spells (p ++ q) (t :: w))
    (hp : ∀ {u}, Spells p u → ∃ t v, u = t :: v ∧ P t) :
    ∃ u v, w = u ++ v ∧ Spells p (t :: u) ∧ Spells q v := by
  obtain ⟨u, v, heq, hu, hv⟩ := append_iff.1 hw
  obtain ⟨first, u, rfl, -⟩ := hp hu
  obtain ⟨rfl, rfl⟩ := List.cons.inj heq
  exact ⟨u, v, rfl, hu, hv⟩

/-- Every token is of the kind that its place asks for. -/
theorem map_kind (h : Spells p w) : (p.map Piece.lexeme).map Prod.fst = w.map Token.kind := by
  induction h with
  | nil => rfl
  | @cons piece t p w ht _ ih =>
      rw [List.map_cons, List.map_cons, List.map_cons, ih]
      cases piece with
      | kept token => rw [show t = token from ht]; rfl
      | separator s => rw [show t.kind = .operator s.op from ht]; rfl

/-- If the separators among the tokens are spelled as usual, written-out and read text agree. -/
theorem map_lexeme (h : Spells p w)
    (hw : ∀ t ∈ w, ∀ s : Separator, t.kind = .operator s.op → t.text = s.op.text) :
    p.map Piece.lexeme = w.map fun t => (t.kind, t.text) := by
  induction h with
  | nil => rfl
  | @cons piece t p w ht _ ih =>
      rw [List.map_cons, List.map_cons, ih fun u hu => hw u (List.mem_cons_of_mem t hu)]
      cases piece with
      | kept token => rw [show t = token from ht]; rfl
      | separator s => simp [Piece.lexeme, show t.kind = .operator s.op from ht,
          hw t List.mem_cons_self s ht]

/-- One more item in front of a list that is not empty. -/
theorem commaBetween_cons {α : Type} {pieces : α → List Piece} {a : α} {as : List α}
    {comma : Token} {end_ : List Piece} (has : as ≠ [])
    (ha : Spells (pieces a) v) (hcomma : comma.kind = .operator .comma)
    (hw : Spells (commaBetween (as.map pieces) ++ end_) w) :
    Spells (commaBetween ((a :: as).map pieces) ++ end_) (v ++ comma :: w) := by
  obtain ⟨b, bs, rfl⟩ := List.exists_cons_of_ne_nil has
  rw [List.map_cons, List.map_cons, commaBetween_cons_cons, List.append_assoc]
  exact ha.append (.separator hcomma hw)

theorem of_commaBetween_cons {α : Type} {pieces : α → List Piece} {a b : α} {as : List α}
    {end_ : List Piece}
    (h : Spells (commaBetween ((a :: b :: as).map pieces) ++ end_) w) :
    ∃ u comma v, w = u ++ comma :: v ∧ Spells (pieces a) u ∧ comma.kind = .operator .comma ∧
      Spells (commaBetween ((b :: as).map pieces) ++ end_) v := by
  rw [List.map_cons, List.map_cons, commaBetween_cons_cons, List.append_assoc] at h
  obtain ⟨u, _, rfl, hu, htail⟩ := append_iff.1 h
  obtain ⟨comma, v, rfl, hcomma, hv⟩ := separator_cons_iff.1 htail
  exact ⟨u, comma, v, rfl, hu, hcomma, hv⟩

theorem of_commaBetween_single {α : Type} {pieces : α → List Piece} {a : α} {end_ : Token}
    (h : Spells (commaBetween ([a].map pieces) ++ [.kept end_]) w) :
    ∃ u, w = u ++ [end_] ∧ Spells (pieces a) u := by
  rw [List.map_singleton, commaBetween_singleton] at h
  exact append_kept_iff.1 h

theorem commaBetween_single {α : Type} {pieces : α → List Piece} {a : α}
    {end_ : List Piece} (ha : Spells (pieces a) v) (hw : Spells end_ w) :
    Spells (commaBetween ([a].map pieces) ++ end_) (v ++ w) := by
  rw [List.map_singleton, commaBetween_singleton]
  exact ha.append hw

end Spells

end Essl
