import Essl.Macro.Expansion
import Essl.Directive.Condition

/-!
# Directives

Directives define macros and select, with conditions that may nest, which parts of a shader
count. Each section from `#if` to `#endif` has at most one active group.
-/

namespace Essl

/-- An open conditional. -/
structure Section where
  /-- The present group counts. -/
  active : Bool
  /-- No later group can count, because one did or because the enclosing section does not. -/
  taken : Bool
  seenElse : Bool
  location : Location

/-- What directives act on: the macros, the open conditionals, innermost first, and the errors
found so far. -/
structure Environment where
  macros : MacroTable
  sections : List Section
  errors : List FrontError

/-- The directives, by name. -/
inductive Directive where
  | when
  | whenDefined (expected : Bool)
  | elif
  | otherwise
  | endif
  | define
  | undef
  | error
  | ignored
  | unknown

def Directive.ofName (name : String) : Directive :=
  match name with
  | "if" => when
  | "ifdef" => whenDefined true
  | "ifndef" => whenDefined false
  | "elif" => elif
  | "else" => otherwise
  | "endif" => endif
  | "define" => define
  | "undef" => undef
  | "error" => error
  | "pragma" | "extension" | "version" | "line" => ignored
  | _ => unknown

/-- Replaces `defined NAME` and `defined ( NAME )` by `1` or `0`. Fails with the place of a
`defined` that no name follows. -/
def resolveDefined (isDefined : String → Bool) : List Token → Except Location (List Token)
  | [] => .ok []
  | t :: rest =>
    if t.kind = .identifier ∧ t.text = "defined" then
      let answer (name : Token) (last : Token) : Token :=
        { t with
          kind := .intConstant
          text := if isDefined name.text then "1" else "0"
          location := t.location.join last.location }
      match rest with
      | opening :: name :: closing :: rest' =>
        if opening.isOperator .openParen then
          if name.kind = .identifier ∧ closing.isOperator .closeParen then
            (resolveDefined isDefined rest').map (answer name closing :: ·)
          else .error t.location
        else if opening.kind = .identifier then
          (resolveDefined isDefined (name :: closing :: rest')).map (answer opening opening :: ·)
        else .error t.location
      | [name, next] =>
        if name.kind = .identifier then
          (resolveDefined isDefined [next]).map (answer name name :: ·)
        else .error t.location
      | [name] => if name.kind = .identifier then .ok [answer name name] else .error t.location
      | [] => .error t.location
    else (resolveDefined isDefined rest).map (t :: ·)

/-- Names joined by commas up to the closing parenthesis, and what follows it. -/
def parameterNames? : List Token → Option (List String × List Token)
  | name :: next :: rest =>
    if name.kind = .identifier then
      if next.isOperator .closeParen then some ([name.text], rest)
      else if next.isOperator .comma then
        (parameterNames? rest).map fun (names, rest) => (name.text :: names, rest)
      else none
    else none
  | _ => none

/-- The parameters after an opening parenthesis, and what follows the closing one. -/
def parameterList? : List Token → Option (List String × List Token)
  | [] => none
  | t :: rest => if t.isOperator .closeParen then some ([], rest) else parameterNames? (t :: rest)

namespace Environment

/-- The environment at the start: no macros, and no open conditionals. -/
def initial : Environment := ⟨.empty, [], []⟩

/-- Adds an error. -/
def report (env : Environment) (cause : DirectiveCause) (location : Location) : Environment :=
  { env with errors := env.errors ++ [⟨.directive cause, location⟩] }

/-- Tokens count here. Only the innermost conditional is looked at. -/
def isActive (env : Environment) : Bool := (env.sections.head?.map Section.active).getD true

/-- Names that `defined` and `#ifdef` are asked about. -/
def isDefined (env : Environment) (name : String) : Bool := env.macros.contains name

/-- Defines a macro without parameters by the text of its replacement list. -/
def defineText (env : Environment) (name value : String) (origin : Origin) : Environment :=
  let feed := (Code.ofString value origin).scan
  { env with
    macros := env.macros.define ⟨name, none, feed.tokens, none⟩
    errors := env.errors ++ feed.errors }

/-- The macros that the language defines. -/
def predefined : Environment :=
  ((initial.defineText "__VERSION__" "100" .builtin).defineText "GL_ES" "1" .builtin).defineText
    "__FILE__" "0" .builtin

/-- Evaluates a condition. A faulty one is reported and false. -/
def condition (env : Environment) (directive : Token) (line : List Token) :
    Bool × Environment :=
  let (resolved, env) :=
    match resolveDefined (fun name => env.isDefined name || name == "__LINE__") line with
    | .ok resolved => (resolved, env)
    | .error location => ([], env.report .invalidExpression location)
  let (expanded, errors) := expandLine env.macros resolved
  let env := { env with errors := env.errors ++ errors }
  match Condition.evaluate directive.location expanded with
  | .ok value => (value != 0, env)
  | .error failure => (false, env.report failure.cause failure.location)

/-- The macro name that must follow a directive. -/
def macroName (env : Environment) (directive : Token) (line : List Token) :
    Option Token × Environment :=
  match line with
  | [] => (none, env.report (.missingMacroName none) directive.location.endpoint)
  | name :: _ =>
    if name.kind = .identifier then (some name, env)
    else (none, env.report (.missingMacroName (some name.text)) name.location)

/-- Opens a section inside one that is `active` or not. -/
def openSection (env : Environment) (active value : Bool) (location : Location) : Environment :=
  { env with sections := ⟨value, value || !active, false, location⟩ :: env.sections }

/-- Carries out `#elif`. Its condition is read only if the group can still count. -/
def elif (env : Environment) (directive : Token) (line : List Token) : Environment :=
  match env.sections with
  | [] => env.report (.unmatchedDirective .elif) directive.location
  | top :: outer =>
    let env := if top.seenElse then env.report (.afterElse .elif) directive.location else env
    let (value, env) := if top.taken then (false, env) else env.condition directive line
    { env with sections := { top with active := value, taken := top.taken || value } :: outer }

/-- Carries out `#else`. -/
def otherwise (env : Environment) (directive : Token) : Environment :=
  match env.sections with
  | [] => env.report (.unmatchedDirective .else) directive.location
  | top :: outer =>
    if top.seenElse then
      { env with sections := { top with active := false } :: outer }.report (.afterElse .else)
        directive.location
    else
      { env with sections :=
        { top with seenElse := true, active := !top.taken, taken := true } :: outer }

/-- Carries out `#endif`. -/
def endif (env : Environment) (directive : Token) : Environment :=
  match env.sections with
  | [] => env.report (.unmatchedDirective .endif) directive.location
  | _ :: outer => { env with sections := outer }

/-- Defines a macro, with parameters if a parenthesis follows its name without space. -/
def define (env : Environment) (directive : Token) (line : List Token) : Environment :=
  match env.macroName directive line with
  | (none, env) => env
  | (some name, env) =>
    if isReservedName name.text then env.report (.reservedMacroName name.text) name.location
    else
      let add (parameters : Option (List String)) (body : List Token) : Environment :=
        { env with macros := env.macros.define ⟨name.text, parameters, body, some name.location⟩ }
      match line.tail with
      | [] => add none []
      | opening :: rest =>
        if opening.isOperator .openParen ∧ ¬opening.afterSpace then
          match parameterList? rest with
          | some (parameters, body) => add (some parameters) body
          | none => env.report .invalidParameterList opening.location
        else add none (opening :: rest)

/-- Carries out `#undef`. -/
def undef (env : Environment) (directive : Token) (line : List Token) : Environment :=
  match env.macroName directive line with
  | (none, env) => env
  | (some name, env) =>
    if isReservedName name.text then env.report (.reservedMacroName name.text) name.location
    else { env with macros := env.macros.undefine name.text }

/-- Reports the text of an `#error` line. -/
def userError (env : Environment) (directive : Token) (line : List Token) : Environment :=
  env.report (.userError (" ".intercalate (line.map Token.text)))
    (line.getLast?.elim directive.location (directive.location.join ·.location))

/-- Carries out the directive that follows a `#` at the start of a line. Where tokens do not
count, only conditionals are followed. -/
def directive (env : Environment) (hash : Token) (line : List Token) : Environment :=
  match line with
  | [] => env
  | name :: line =>
    let active := env.isActive
    let location := hash.location.join name.location
    match Directive.ofName name.text with
    | .when =>
      let (value, env) := if active then env.condition name line else (false, env)
      env.openSection active value location
    | .whenDefined expected =>
      let (value, env) :=
        if active then
          match env.macroName name line with
          | (some operand, env) => (env.isDefined operand.text == expected, env)
          | (none, env) => (false, env)
        else (false, env)
      env.openSection active value location
    | .elif => env.elif name line
    | .otherwise => env.otherwise name
    | .endif => env.endif name
    | other =>
      if active then
        match other with
        | .define => env.define name line
        | .undef => env.undef name line
        | .error => env.userError name line
        | .unknown => env.report (.unknownDirective name.text) name.location
        | _ => env
      else env

end Environment

end Essl
