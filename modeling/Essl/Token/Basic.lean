import Essl.Text.Location
import Essl.Token.Keyword
import Essl.Token.Operator
import Essl.Token.Numeral

/-!
# Tokens

A token is a classified piece of shader text together with its place and the flags that
directives and macros depend on.
-/

namespace Essl

/-- The kinds of token that the grammar tells apart. -/
inductive TokenKind where
  | keyword (keyword : Keyword)
  | operator (operator : Operator)
  | identifier
  | intConstant
  | floatConstant
  | boolConstant
  deriving DecidableEq

namespace TokenKind

/-- How diagnostics name the kind: fixed words in backquotes, the others by their class. -/
def description : TokenKind → String
  | keyword k => "`" ++ k.text ++ "`"
  | operator op => "`" ++ op.text ++ "`"
  | identifier => "identifier"
  | intConstant => "integer constant"
  | floatConstant => "floating-point constant"
  | boolConstant => "boolean constant"

def keyword? : TokenKind → Option Keyword
  | keyword k => some k
  | _ => none

def operator? : TokenKind → Option Operator
  | operator op => some op
  | _ => none

end TokenKind

/-- A piece of shader text, or what a macro puts in its place. -/
structure Token where
  kind : TokenKind
  text : String
  /-- Tokens that come out of a macro have the location of the whole invocation. -/
  location : Location
  firstInLine : Bool
  /-- White space or a comment comes before the token. -/
  afterSpace : Bool
  deriving DecidableEq

namespace Token

def isKind (token : Token) (kind : TokenKind) : Bool := token.kind == kind

/-- Whether a token is a certain operator. -/
def isOperator (token : Token) (op : Operator) : Bool := token.kind == .operator op

/-- Whether a token is a certain keyword. -/
def isKeyword (token : Token) (k : Keyword) : Bool := token.kind == .keyword k

/-- The value of an integer constant, if its text is a numeral that fits. -/
def intValue? (token : Token) : Option Int32 := Numeral.intValue? token.text.toList

end Token

end Essl
