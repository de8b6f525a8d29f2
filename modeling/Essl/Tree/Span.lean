import Essl.Tree.Basic

/-!
# Where nodes are

The location of a node reaches from its first token to its last one.
-/

namespace Essl

mutual

/-- The range of an expression. -/
def Expr.location : Expr → Location
  | .assignment _ left _ right => left.location.join right.location
  | .ternary _ condition _ _ _ whenFalse => condition.location.join whenFalse.location
  | .binary _ left _ right => left.location.join right.location
  | .unary _ op operand => op.location.join operand.location
  | .step _ operand op => operand.location.join op.location
  | .literal _ token => token.location
  | .group _ opening _ closing => opening.location.join closing.location
  | .variable _ name => name.location
  | .call _ callee _ _ _ closing => callee.location.join closing.location
  | .arrayCall _ callee _ _ _ _ _ _ closing => callee.location.join closing.location
  | .field _ operand _ selector => operand.location.join selector.location
  | .index _ operand _ _ closing => operand.location.join closing.location
  | .list _ exprs => Expr.locationOfAll exprs

/-- From the first to the last expression. -/
def Expr.locationOfAll : List Expr → Location
  | [] => .whole ""
  | first :: rest => Expr.locationOfRest first.location rest

/-- From a location to the last expression, if there is any. -/
def Expr.locationOfRest (start : Location) : List Expr → Location
  | [] => start
  | [last] => start.join last.location
  | _ :: next :: rest => Expr.locationOfRest start (next :: rest)

end

/-- The range of an array size with its brackets. -/
def ArraySize.location (size : ArraySize) : Location :=
  size.opening.location.join size.closing.location

/-- The range of a declarator, up to its size or initializer. -/
def Declarator.location (d : Declarator) : Location :=
  match d.initializer, d.size with
  | some initializer, _ => d.name.location.join initializer.location
  | none, some size => d.name.location.join size.closing.location
  | none, none => d.name.location

/-- The first qualifier, if there is any. -/
def TypeQualifiers.first? (q : TypeQualifiers) : Option Token := q.storage.head?.or q.precision

/-- The range of a type with its qualifiers. -/
def TypeSpec.location : TypeSpec → Location
  | .named q name _ => q.first?.elim name.location (·.location.join name.location)
  | .struct q keyword _ _ _ closing _ _ =>
    (q.first?.getD keyword).location.join closing.location

/-- The range of a function header. -/
def FunctionHeader.location (header : FunctionHeader) : Location :=
  header.returnType.location.join header.closing.location

/-- The range of a block with its braces. -/
def Block.location (block : Block) : Location :=
  block.opening.location.join block.closing.location

/-- The range of a declaration. -/
def Declaration.location : Declaration → Location
  | declarators typeSpec _ semicolon => typeSpec.location.join semicolon.location
  | type typeSpec semicolon => typeSpec.location.join semicolon.location
  | precision keyword _ _ semicolon => keyword.location.join semicolon.location
  | invariants keyword _ semicolon => keyword.location.join semicolon.location
  | prototype header semicolon => header.location.join semicolon.location
  | function header body => header.location.join body.closing.location

/-- The range of a condition. -/
def Condition.location : Condition → Location
  | expression expr => expr.location
  | declaration typeSpec declarator => typeSpec.location.join declarator.location

/-- The range of a statement. -/
def Statement.location : Statement → Location
  | declaration d => d.location
  | block b => b.location
  | expression expr semicolon => expr.location.join semicolon.location
  | empty semicolon => semicolon.location
  | ifThen keyword _ _ _ whenTrue => keyword.location.join whenTrue.location
  | ifElse keyword _ _ _ _ _ whenFalse => keyword.location.join whenFalse.location
  | whileLoop keyword _ _ _ body => keyword.location.join body.location
  | doLoop keyword _ _ _ _ _ semicolon => keyword.location.join semicolon.location
  | forLoop keyword _ _ _ _ _ _ body => keyword.location.join body.location
  | jump keyword semicolon => keyword.location.join semicolon.location
  | .return keyword _ semicolon => keyword.location.join semicolon.location

end Essl
