import Essl.Proofs.Token.Preprocessed

/-!
# Lines that define a macro

After `#define` comes the name of the macro, then its parameters if a parenthesis touches the name,
and then the replacement list. A line of this form adds one definition, and any other line is
reported once and leaves everything as it was.
-/

namespace Essl

/-! ## The form of a definition -/

/-- Names with commas between them. -/
inductive NamesJoined : List Token → List String → Prop where
  | last {name : Token} : name.kind = .identifier → NamesJoined [name] [name.text]
  | cons {name comma : Token} {rest : List Token} {names : List String} :
      name.kind = .identifier → comma.kind = .operator .comma → NamesJoined rest names →
        NamesJoined (name :: comma :: rest) (name.text :: names)

/-- A parenthesis that no space separates from the name of the macro. -/
def Token.OpensParameters (t : Token) : Prop :=
  t.kind = .operator .openParen ∧ t.afterSpace = false

/-- What follows the name of the macro: the parameters, if there is a list of them, and the
replacement list. -/
inductive FollowsName : List Token → Option (List String) → List Token → Prop where
  | plain {body : List Token} :
      (∀ t ∈ body.head?, ¬ t.OpensParameters) → FollowsName body none body
  | empty {opening closing : Token} {body : List Token} :
      opening.OpensParameters → closing.kind = .operator .closeParen →
        FollowsName (opening :: closing :: body) (some []) body
  | parameters {opening closing : Token} {list body : List Token} {names : List String} :
      opening.OpensParameters → NamesJoined list names → closing.kind = .operator .closeParen →
        FollowsName (opening :: (list ++ closing :: body)) (some names) body

/-- A line defines a macro. -/
inductive Defines : List Token → MacroDef → Prop where
  | named {name : Token} {rest body : List Token} {parameters : Option (List String)} :
      name.kind = .identifier → isReservedName name.text = false →
        FollowsName rest parameters body →
          Defines (name :: rest) ⟨name.text, parameters, body, some name.location⟩

/-- What is wrong with a line that defines no macro, and where. -/
inductive DefinitionFault (directive : Token) : List Token → DirectiveCause → Location → Prop where
  | absent : DefinitionFault directive [] (.missingMacroName none) directive.location.endpoint
  | noName {found : Token} {rest : List Token} : found.kind ≠ .identifier →
      DefinitionFault directive (found :: rest) (.missingMacroName (some found.text)) found.location
  | reserved {name : Token} {rest : List Token} :
      name.kind = .identifier → isReservedName name.text = true →
        DefinitionFault directive (name :: rest) (.reservedMacroName name.text) name.location
  | parameters {name opening : Token} {rest : List Token} :
      name.kind = .identifier → isReservedName name.text = false → opening.OpensParameters →
        (∀ names body, ¬ FollowsName (opening :: rest) (some names) body) →
          DefinitionFault directive (name :: opening :: rest) .invalidParameterList opening.location

/-! ## Parameters -/

theorem parameterNames?_append {list : List Token} {names : List String} {closing : Token}
    (h : NamesJoined list names) (hclosing : closing.kind = .operator .closeParen)
    (body : List Token) :
    parameterNames? (list ++ closing :: body) = some (names, body) := by
  induction h with
  | last hname => simp [parameterNames?, hname, hclosing, Token.isOperator]
  | cons hname hcomma _ ih => simp [parameterNames?, hname, hcomma, Token.isOperator, ih]

theorem joined_of_parameterNames? {line body : List Token} {names : List String}
    (h : parameterNames? line = some (names, body)) :
    ∃ list closing, line = list ++ closing :: body ∧ NamesJoined list names ∧
      closing.kind = .operator .closeParen := by
  fun_induction parameterNames? line generalizing names with
  | case1 name next rest hname hclosing =>
      cases h
      exact ⟨[name], next, rfl, .last hname, eq_of_beq hclosing⟩
  | case2 name next rest hname hclosing hcomma ih =>
      obtain ⟨⟨later, body'⟩, hlater, heq⟩ := Option.map_eq_some_iff.1 h
      cases heq
      obtain ⟨list, closing, rfl, hlist, hclosing⟩ := ih hlater
      exact ⟨name :: next :: list, closing, rfl, .cons hname (eq_of_beq hcomma) hlist, hclosing⟩
  | case3 => cases h
  | case4 => cases h
  | case5 => cases h

/-- A list of parameters is read exactly where there is one. -/
theorem parameterList?_eq_some_iff {opening : Token} (hopening : opening.OpensParameters)
    {rest body : List Token} {names : List String} :
    parameterList? rest = some (names, body) ↔
      FollowsName (opening :: rest) (some names) body := by
  constructor
  · intro h
    unfold parameterList? at h
    split at h
    · cases h
    · rename_i t rest
      split at h
      · rename_i hclosing
        cases h
        exact .empty hopening (eq_of_beq hclosing)
      · obtain ⟨list, closing, hlist, hnames, hclosing⟩ := joined_of_parameterNames? h
        rw [hlist]
        exact .parameters hopening hnames hclosing
  · intro h
    cases h with
    | empty _ hclosing => simp [parameterList?, Token.isOperator, hclosing]
    | @parameters _ closing list _ _ _ hnames hclosing =>
        have hread := parameterNames?_append hnames hclosing body
        cases hnames with
        | last hname => simpa [parameterList?, Token.isOperator, hname] using hread
        | cons hname _ _ => simpa [parameterList?, Token.isOperator, hname] using hread

namespace Environment

variable {env : Environment} {directive : Token} {line : List Token}

/-! ## Definitions -/

/-- After a parenthesis that touches the name, the list of parameters decides. -/
theorem define_opening {name opening : Token} {rest : List Token}
    (hname : name.kind = .identifier) (hreserved : isReservedName name.text = false)
    (hopening : opening.OpensParameters) :
    env.define directive (name :: opening :: rest) =
      match parameterList? rest with
      | some (names, body) =>
        { env with macros := env.macros.define ⟨name.text, some names, body, some name.location⟩ }
      | none => env.report .invalidParameterList opening.location := by
  have hopens : opening.isOperator .openParen = true ∧ ¬ opening.afterSpace = true :=
    ⟨beq_iff_eq.2 hopening.1, Bool.eq_false_iff.1 hopening.2⟩
  simp only [define, macroName, if_pos hname, hreserved, List.tail_cons, if_pos hopens]
  cases parameterList? rest <;> rfl

theorem define_of_defines {d : MacroDef} (h : Defines line d) :
    env.define directive line = { env with macros := env.macros.define d } := by
  cases h with
  | @named name rest body parameters hname hreserved hrest =>
      cases hrest with
      | plain hplain =>
          cases rest with
          | nil => simp [define, macroName, hname, hreserved]
          | cons t rest =>
              have hopens : ¬ (t.isOperator .openParen = true ∧ ¬ t.afterSpace = true) := by
                rintro ⟨hoperator, hspace⟩
                exact hplain t rfl ⟨eq_of_beq hoperator, Bool.eq_false_iff.2 hspace⟩
              simp only [define, macroName, if_pos hname, hreserved, List.tail_cons, if_neg hopens]
              rfl
      | empty hopening hclosing =>
          rw [define_opening hname hreserved hopening,
            (parameterList?_eq_some_iff hopening).2 (.empty hopening hclosing)]
      | parameters hopening hnames hclosing =>
          rw [define_opening hname hreserved hopening,
            (parameterList?_eq_some_iff hopening).2 (.parameters hopening hnames hclosing)]

theorem define_of_not_defines (h : ¬ ∃ d, Defines line d) :
    ∃ cause location, DefinitionFault directive line cause location ∧
      env.define directive line = env.report cause location := by
  cases line with
  | nil => exact ⟨_, _, .absent, rfl⟩
  | cons name rest =>
      by_cases hname : name.kind = .identifier
      · cases hreserved : isReservedName name.text with
        | true =>
            exact ⟨_, _, .reserved hname hreserved, by simp [define, macroName, hname, hreserved]⟩
        | false =>
            have hrest : ∀ parameters body, ¬ FollowsName rest parameters body :=
              fun parameters body hrest => h ⟨_, .named hname hreserved hrest⟩
            cases rest with
            | nil => exact absurd (.plain (by simp)) (hrest none [])
            | cons opening rest =>
                have hopening : opening.OpensParameters := Classical.byContradiction fun hplain =>
                  hrest none _ (.plain (by simpa using hplain))
                have hread : parameterList? rest = none := by
                  rw [Option.eq_none_iff_forall_ne_some]
                  rintro ⟨names, body⟩ hread
                  exact hrest _ _ ((parameterList?_eq_some_iff hopening).1 hread)
                refine ⟨_, _, .parameters hname hreserved hopening fun names =>
                  hrest (some names), ?_⟩
                rw [define_opening hname hreserved hopening, hread]
      · exact ⟨_, _, .noName hname, by simp [define, macroName, hname]⟩

/-- Where tokens count, a line after `#define` of the form of a definition adds that definition and
changes nothing else, and of no other name; any other line is reported once, for what is wrong with
it, and changes nothing else. Where tokens do not count the line is skipped. -/
theorem define_exact (env : Environment) (hash : Token) {directive : Token}
    (hdirective : directive.text = "define") (line : List Token) :
    let after := env.directive hash (directive :: line)
    (env.isActive = false → after = env) ∧
    (env.isActive = true →
      (∀ d, Defines line d →
        after = { env with macros := after.macros } ∧ after.macros.find? d.name = some d ∧
          ∀ name, name ≠ d.name → after.macros.find? name = env.macros.find? name) ∧
      ((¬ ∃ d, Defines line d) → ∃ cause location, DefinitionFault directive line cause location ∧
        after = { env with errors := env.errors ++ [⟨.directive cause, location⟩] })) := by
  intro after
  have hname : Directive.ofName directive.text = .define := by rw [hdirective]; rfl
  have hafter : after = if env.isActive then env.define directive line else env := by
    simp only [after, Environment.directive, hname]
  refine ⟨fun hactive => by simp [hafter, hactive],
    fun hactive => ⟨fun d hd => ?defines, fun hnone => ?faulty⟩⟩
  case defines =>
    have hdefined : after = { env with macros := env.macros.define d } := by
      rw [hafter, if_pos hactive, define_of_defines hd]
    rw [hdefined]
    exact ⟨rfl, env.macros.find?_define_self d, fun name hne => env.macros.find?_define_of_ne hne⟩
  case faulty =>
    obtain ⟨cause, location, hfault, hreported⟩ := define_of_not_defines hnone
    exact ⟨cause, location, hfault, by rw [hafter, if_pos hactive, hreported]; rfl⟩

/-- A macro with two parameters. -/
theorem define_exact_parameters :
    let token : TokenKind → String → Token := fun kind text =>
      ⟨kind, text, .whole text, false, false⟩
    let directive := token .identifier "define"
    let line := [token .identifier "F", token (.operator .openParen) "(", token .identifier "x",
      token (.operator .comma) ",", token .identifier "y", token (.operator .closeParen) ")",
      token .identifier "y"]
    let d : MacroDef := ⟨"F", some ["x", "y"], [token .identifier "y"], some (.whole "F")⟩
    let after := predefined.directive (token (.operator .hash) "#") (directive :: line)
    directive.text = "define" ∧ predefined.isActive = true ∧ Defines line d ∧
      after.macros.find? "F" = some d ∧ after.errors = predefined.errors := by
  intro token directive line d after
  have hdefines : Defines line d := by
    have hnames : NamesJoined [token .identifier "x", token (.operator .comma) ",",
        token .identifier "y"] ["x", "y"] := .cons rfl rfl (.last rfl)
    exact .named rfl (by decide) (.parameters ⟨rfl, rfl⟩ hnames rfl)
  have hdirective : directive.text = "define" := rfl
  obtain ⟨hsame, hfound, -⟩ :=
    ((define_exact predefined (token (.operator .hash) "#") hdirective line).2 rfl).1 d hdefines
  have herrors := congrArg Environment.errors hsame
  exact ⟨rfl, rfl, hdefines, hfound, herrors⟩

end Environment

end Essl
