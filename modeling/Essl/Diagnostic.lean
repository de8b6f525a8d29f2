import Essl.Token.Basic

/-!
# Diagnostics of the front end

What can be wrong with the characters, the directives and the grammar of a shader, each as a
cause with its wording, and the form in which any diagnostic is shown.
-/

namespace Essl

/-- A cause at a place. -/
structure Located (α : Type) where
  cause : α
  location : Location

/-- What can be wrong with the characters of a shader. -/
inductive LexicalCause where
  | invalidCharacter (c : Char)
  | unclosedComment
  | invalidNumber (text : String)
  deriving DecidableEq

/-- Directives that go on with or end an open conditional. -/
inductive Continuation where
  | elif
  | else
  | endif
  deriving DecidableEq

/-- What can be wrong with directives and with the use of macros. -/
inductive DirectiveCause where
  | unknownDirective (name : String)
  /-- No macro name where one is needed, but the text given, if any. -/
  | missingMacroName (found : Option String)
  | reservedMacroName (name : String)
  | unmatchedDirective (directive : Continuation)
  | afterElse (directive : Continuation)
  | unclosedConditional
  | userError (message : String)
  | invalidExpression
  | undefinedIdentifier (name : String)
  | divisionByZero
  | overflow
  | argumentCount (name : String) (expected actual : Nat)
  | unclosedInvocation (name : String)
  | invalidParameterList
  deriving DecidableEq

/-- What can be wrong with the order of tokens. -/
inductive GrammarCause where
  /-- The token found, if any, starts none of the expected constructs. -/
  | expected (kinds : List TokenKind) (found : Option String)
  deriving DecidableEq

/-- Any cause found before the meaning of a shader is looked at. -/
inductive FrontCause where
  | lexical (cause : LexicalCause)
  | directive (cause : DirectiveCause)
  | grammar (cause : GrammarCause)
  deriving DecidableEq

/-- A cause of the front end at its place. -/
abbrev FrontError := Located FrontCause

/-- The wording of a cause. -/
def LexicalCause.message : LexicalCause → String
  | invalidCharacter c => "invalid character `" ++ c.toString ++ "`"
  | unclosedComment => "the comment is not closed"
  | invalidNumber text => "invalid numeric constant `" ++ text ++ "`"

/-- The name of the directive. -/
def Continuation.name : Continuation → String
  | elif => "elif"
  | .else => "else"
  | endif => "endif"

/-- The text found, or that nothing is left. -/
def foundText : Option String → String
  | none => "nothing"
  | some text => "`" ++ text ++ "`"

/-- The wording of a cause. -/
def DirectiveCause.message : DirectiveCause → String
  | unknownDirective name => "unknown directive `#" ++ name ++ "`"
  | missingMacroName found => "expected identifier, but got " ++ foundText found
  | reservedMacroName name => "macro name `" ++ name ++ "` is reserved"
  | unmatchedDirective directive =>
    "unexpected #" ++ directive.name ++ " without opening #if, #ifdef, or #ifndef"
  | afterElse directive => "unexpected #" ++ directive.name ++ " after #else"
  | unclosedConditional => "the conditional is missing its closing #endif"
  | userError message => "#error " ++ message
  | invalidExpression => "invalid expression in conditional directive"
  | undefinedIdentifier name => "undefined identifier `" ++ name ++ "` in conditional directive"
  | divisionByZero => "division by zero"
  | overflow => "overflow"
  | argumentCount name expected actual =>
    "macro `" ++ name ++ "` requires " ++ toString expected ++ " argument(s), but " ++
      toString actual ++ " given"
  | unclosedInvocation name => "the argument list of macro `" ++ name ++ "` is not closed"
  | invalidParameterList => "invalid macro parameter list"

/-- Alternatives, with commas between them and `or` before the last one. -/
def alternatives : List TokenKind → String
  | [] => "nothing"
  | [kind] => kind.description
  | kind :: kinds =>
    ", ".intercalate (kind.description :: (kinds.dropLast.map TokenKind.description)) ++ " or " ++
      ((kinds.getLast?.map TokenKind.description).getD "")

/-- The wording of a cause. -/
def GrammarCause.message : GrammarCause → String
  | expected kinds found => "expected " ++ alternatives kinds ++ ", but got " ++ foundText found

/-- The wording of a cause. -/
def FrontCause.message : FrontCause → String
  | lexical cause => cause.message
  | directive cause => cause.message
  | grammar cause => cause.message

/-- What is written beside the place of the error. -/
def FrontCause.label : FrontCause → String
  | lexical _ => "not a valid token"
  | directive _ => "in this directive"
  | grammar (.expected _ none) => "unexpected end of input"
  | grammar (.expected _ (some _)) => "unexpected token"

/-- Weight of a marked place in a diagnostic. -/
inductive Severity where
  | error
  | info
  deriving DecidableEq

/-- A marked place with the words written beside it. -/
structure Mark where
  severity : Severity
  label : String
  location : Location

/-- A diagnostic as it is shown: a title and the places it is about, the main one first. -/
structure Message where
  title : String
  marks : List Mark

/-- The message for a cause, with a single mark at its place. -/
def FrontCause.toMessage (cause : FrontCause) (location : Location) : Message :=
  ⟨cause.message, [⟨.error, cause.label, location⟩]⟩

end Essl
