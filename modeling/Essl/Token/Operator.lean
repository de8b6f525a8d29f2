/-!
# Operators and punctuation
-/

namespace Essl

/-- The operators and marks of punctuation. -/
inductive Operator where
  | question
  | colon
  | bitOr
  | logicalOr
  | bitOrAssign
  | bitXor
  | logicalXor
  | bitXorAssign
  | bitAnd
  | logicalAnd
  | bitAndAssign
  | assign
  | equal
  | logicalNot
  | notEqual
  | less
  | lessEqual
  | shiftLeft
  | shiftLeftAssign
  | greater
  | greaterEqual
  | shiftRight
  | shiftRightAssign
  | plus
  | increment
  | plusAssign
  | minus
  | decrement
  | minusAssign
  | times
  | timesAssign
  | divide
  | divideAssign
  | remainder
  | remainderAssign
  | complement
  | openParen
  | closeParen
  | openBracket
  | closeBracket
  | openBrace
  | closeBrace
  | dot
  | comma
  | semicolon
  | hash
  deriving DecidableEq

namespace Operator

/-- The characters of an operator. -/
def spelling : Operator → List Char
  | question => ['?']
  | colon => [':']
  | bitOr => ['|']
  | logicalOr => ['|', '|']
  | bitOrAssign => ['|', '=']
  | bitXor => ['^']
  | logicalXor => ['^', '^']
  | bitXorAssign => ['^', '=']
  | bitAnd => ['&']
  | logicalAnd => ['&', '&']
  | bitAndAssign => ['&', '=']
  | assign => ['=']
  | equal => ['=', '=']
  | logicalNot => ['!']
  | notEqual => ['!', '=']
  | less => ['<']
  | lessEqual => ['<', '=']
  | shiftLeft => ['<', '<']
  | shiftLeftAssign => ['<', '<', '=']
  | greater => ['>']
  | greaterEqual => ['>', '=']
  | shiftRight => ['>', '>']
  | shiftRightAssign => ['>', '>', '=']
  | plus => ['+']
  | increment => ['+', '+']
  | plusAssign => ['+', '=']
  | minus => ['-']
  | decrement => ['-', '-']
  | minusAssign => ['-', '=']
  | times => ['*']
  | timesAssign => ['*', '=']
  | divide => ['/']
  | divideAssign => ['/', '=']
  | remainder => ['%']
  | remainderAssign => ['%', '=']
  | complement => ['~']
  | openParen => ['(']
  | closeParen => [')']
  | openBracket => ['[']
  | closeBracket => [']']
  | openBrace => ['{']
  | closeBrace => ['}']
  | dot => ['.']
  | comma => [',']
  | semicolon => [';']
  | hash => ['#']

/-- The spelling as a string. -/
def text (op : Operator) : String := String.ofList op.spelling

/-- Every operator, those with longer spellings first. -/
def all : List Operator :=
  [shiftLeftAssign, shiftRightAssign,
   logicalOr, bitOrAssign, logicalXor, bitXorAssign, logicalAnd, bitAndAssign, equal, notEqual,
   lessEqual, shiftLeft, greaterEqual, shiftRight, increment, plusAssign, decrement, minusAssign,
   timesAssign, divideAssign, remainderAssign,
   question, colon, bitOr, bitXor, bitAnd, assign, logicalNot, less, greater, plus, minus, times,
   divide, remainder, complement, openParen, closeParen, openBracket, closeBracket, openBrace,
   closeBrace, dot, comma, semicolon, hash]

/-- The operator with the longest spelling that the characters start with. -/
def longestAt (cs : List Char) : Option Operator := all.find? (·.spelling.isPrefixOf cs)

/-- The operator that a compound assignment applies before it assigns. -/
def compound? : Operator → Option Operator
  | timesAssign => some times
  | divideAssign => some divide
  | remainderAssign => some remainder
  | plusAssign => some plus
  | minusAssign => some minus
  | shiftLeftAssign => some shiftLeft
  | shiftRightAssign => some shiftRight
  | bitAndAssign => some bitAnd
  | bitXorAssign => some bitXor
  | bitOrAssign => some bitOr
  | _ => none

/-- `=` and the compound assignments. -/
def isAssignment (op : Operator) : Bool := op == assign || op.compound?.isSome

/-- Operators that can stand before their operand. -/
def isUnary : Operator → Bool
  | increment | decrement | plus | minus | logicalNot | complement => true
  | _ => false

theorem mem_all (op : Operator) : op ∈ all := by
  cases op <;> decide

theorem spelling_ne_nil (op : Operator) : op.spelling ≠ [] := by
  cases op <;> simp [spelling]

end Operator

end Essl
