import Essl.Proofs.Directive.Run

/-!
# Asking whether a name is defined

`#ifdef`, `#ifndef` and `defined` in a condition ask for a name in different ways: the first two look
it up, the last is rewritten to a number that is then expanded and evaluated. They agree on every
name but `__LINE__`, which expansion knows and the macro table does not.
-/

namespace Essl

/-! ## Expansion of what is no name -/

/-- A line without names is left as it is. -/
theorem Queue.takeTokens_constants {line : List Token} (hline : ∀ t ∈ line, t.kind ≠ .identifier)
    (state : MacroTable × List FrontError) {count : Nat} (hcount : line.length < count) :
    takeTokens lineSupply count ⟨line.map Candidate.ofToken, state⟩ = (line, ⟨[], state⟩) := by
  have hsteps : ∀ q : Queue (MacroTable × List FrontError),
      ∃ steps, q.stepLimit lineSupply = steps + 1 := fun q =>
    Nat.exists_eq_add_of_le' (Nat.le_trans Nat.one_le_two_pow (Nat.le_max_right _ (Nat.pow 2 60)))
  induction line generalizing count with
  | nil =>
      obtain ⟨count, rfl⟩ := Nat.exists_eq_add_of_le' hcount
      obtain ⟨steps, hsteps⟩ := hsteps ⟨[], state⟩
      simp only [takeTokens, next, List.map_nil, hsteps]
      rfl
  | cons t line ih =>
      obtain ⟨count, rfl⟩ := Nat.exists_eq_add_of_le' (Nat.zero_lt_of_lt hcount)
      obtain ⟨steps, hsteps⟩ := hsteps ⟨(t :: line).map Candidate.ofToken, state⟩
      have hnext : next lineSupply ⟨(t :: line).map Candidate.ofToken, state⟩ =
          (.token t, ⟨line.map Candidate.ofToken, state⟩) := by
        rw [next, hsteps]
        exact if_neg (hline t List.mem_cons_self)
      have hrest := ih (fun u hu => hline u (List.mem_cons_of_mem t hu))
        (Nat.lt_of_succ_lt_succ hcount)
      rw [takeTokens, hnext]
      simp only [hrest]

theorem expandLine_constants (table : MacroTable) {line : List Token}
    (hline : ∀ t ∈ line, t.kind ≠ .identifier) : expandLine table line = (line, []) := by
  unfold expandLine
  dsimp only
  rw [Queue.takeTokens_constants hline]
  have hpow : 1 ≤ Nat.pow (table.bodySize + 2) (table.entries.length + 2) :=
    Nat.one_le_pow _ _ (Nat.succ_pos _)
  refine Nat.lt_of_lt_of_le ?_ (Nat.le_max_left _ _)
  have hsize := Nat.le_mul_of_pos_right (line.length + 1) hpow
  simpa [Queue.size, lineSupply] using Nat.lt_of_succ_le hsize

namespace Environment

variable {env : Environment} {hash name directive defined opening closing : Token}

/-! ## The three forms -/

/-- What `defined` is told about a name. -/
def knows (env : Environment) (name : String) : Bool := env.isDefined name || name == "__LINE__"

/-- The condition that is rewritten to `1` or `0` has that value. -/
theorem condition_of_resolved {line : List Token} {t : Token} {value : Bool}
    (hkind : t.kind = .intConstant) (htext : t.text = if value then "1" else "0")
    (hline : resolveDefined env.knows line = .ok [t]) :
    (env.condition directive line).1 = value := by
  have hexpanded : expandLine env.macros [t] = ([t], []) :=
    expandLine_constants env.macros (by simp [hkind])
  have hvalue : Condition.evaluate directive.location [t] = .ok (if value then 1 else 0) := by
    have hnumber : t.intValue? = some (if value then 1 else 0) := by
      simp only [Token.intValue?, htext]
      cases value <;> decide
    have hconverted : (if value then 1 else 0 : Int32).toInt64 = if value then 1 else 0 := by
      cases value <;> rfl
    simp only [Condition.evaluate, Condition.tree, Condition.leaf, hkind, hnumber, hconverted,
      List.length_singleton]
    rfl
  unfold condition
  rw [show (fun name => env.isDefined name || name == "__LINE__") = env.knows from rfl, hline]
  dsimp only
  rw [hexpanded, hvalue]
  cases value <;> rfl

theorem condition_defined (hdefined : defined.kind = .identifier ∧ defined.text = "defined")
    (hname : name.kind = .identifier) :
    (env.condition directive [defined, name]).1 = env.knows name.text :=
  condition_of_resolved rfl rfl (by simp [resolveDefined, hdefined, hname]; rfl)

theorem condition_defined_parenthesized
    (hdefined : defined.kind = .identifier ∧ defined.text = "defined")
    (hname : name.kind = .identifier) (hopening : opening.isOperator .openParen = true)
    (hclosing : closing.isOperator .closeParen = true) :
    (env.condition directive [defined, opening, name, closing]).1 = env.knows name.text :=
  condition_of_resolved rfl rfl
    (by simp [resolveDefined, hdefined, hname, hopening, hclosing]; rfl)

/-- The group after `#if` is active if tokens count and the condition is true. -/
theorem isActive_when (hdirective : directive.text = "if") (line : List Token) :
    (env.directive hash (directive :: line)).isActive =
      (env.isActive && (env.condition directive line).1) := by
  have hname : Directive.ofName directive.text = .when := by rw [hdirective]; rfl
  simp only [Environment.directive, hname]
  cases env.isActive <;> simp [isActive]

/-- The group after `#ifdef` or `#ifndef` is active if tokens count and the name is as expected. -/
theorem isActive_whenDefined {expected : Bool}
    (hdirective : Directive.ofName directive.text = .whenDefined expected)
    (hname : name.kind = .identifier) :
    (env.directive hash [directive, name]).isActive =
      (env.isActive && env.isDefined name.text == expected) := by
  simp only [Environment.directive, hdirective, macroName, hname]
  cases env.isActive <;> simp [isActive]

/-! ## What directives do to macros -/

/-- How a table of macros goes on: it stays as it is, or a name that is not reserved is defined or
is no longer. -/
inductive Redefines : MacroTable → MacroTable → Prop where
  | same {table : MacroTable} : Redefines table table
  | define {table : MacroTable} {d : MacroDef} :
      isReservedName d.name = false → Redefines table (table.define d)
  | undefine {table : MacroTable} {name : String} :
      isReservedName name = false → Redefines table (table.undefine name)

theorem Redefines.contains {table table' : MacroTable} (h : Redefines table table') {name : String}
    (hname : isReservedName name = true) : table'.contains name = table.contains name := by
  have hne : ∀ {other : String}, isReservedName other = false → name ≠ other := by
    rintro _ hother rfl
    rw [hname] at hother
    cases hother
  cases h with
  | same => rfl
  | define hother => rw [MacroTable.contains, table.find?_define_of_ne (hne hother)]; rfl
  | undefine hother => rw [MacroTable.contains, table.find?_undefine_of_ne (hne hother)]; rfl

theorem define_redefines (env : Environment) (directive : Token) (line : List Token) :
    Redefines env.macros (env.define directive line).macros := by
  have hnamed := env.macros_macroName directive line
  unfold define
  split <;> rename_i hread <;> rw [hread] at hnamed <;> dsimp only at hnamed <;> rw [← hnamed]
  · exact .same
  · split
    · exact .same
    · rename_i hreserved
      have hreserved' := Bool.eq_false_iff.2 hreserved
      dsimp only
      split
      · exact .define hreserved'
      · split
        · split
          · exact .define hreserved'
          · exact .same
        · exact .define hreserved'

theorem undef_redefines (env : Environment) (directive : Token) (line : List Token) :
    Redefines env.macros (env.undef directive line).macros := by
  have hnamed := env.macros_macroName directive line
  unfold undef
  split <;> rename_i hread <;> rw [hread] at hnamed <;> dsimp only at hnamed <;> rw [← hnamed]
  · exact .same
  · split
    · exact .same
    · rename_i hreserved
      exact .undefine (Bool.eq_false_iff.2 hreserved)

theorem directive_redefines (env : Environment) (hash : Token) (line : List Token) :
    Redefines env.macros (env.directive hash line).macros := by
  unfold Environment.directive
  split
  · exact .same
  · rename_i name line
    dsimp only
    split
    · rw [macros_openSection]
      split <;> simpa using .same
    · rw [macros_openSection]
      split
      · have hnamed := env.macros_macroName name line
        split <;> rename_i hread <;> rw [hread] at hnamed <;> rw [hnamed] <;> exact .same
      · exact .same
    · simpa using .same
    · simpa using .same
    · simpa using .same
    · split
      · split
        · exact env.define_redefines name line
        · exact env.undef_redefines name line
        · exact .same
        · exact .same
        · exact .same
      · exact .same

theorem isDefined_defineText (env : Environment) (name value : String) (origin : Origin)
    (other : String) :
    (env.defineText name value origin).isDefined other = (other == name || env.isDefined other) := by
  by_cases h : other = name
  · subst h
    have hfound := env.macros.find?_define_self
      ⟨other, none, (Code.ofString value origin).scan.tokens, none⟩
    simp [defineText, isDefined, MacroTable.contains, hfound]
  · have hfound : (env.macros.define ⟨name, none, (Code.ofString value origin).scan.tokens,
        none⟩).find? other = env.macros.find? other := env.macros.find?_define_of_ne h
    simp [defineText, isDefined, MacroTable.contains, hfound, h]

/-! ## Reachable environments -/

/-- The names of the macros that the language defines, the last one first. -/
def predefinedNames : List String := ["__FILE__", "GL_ES", "__VERSION__"]

theorem isDefined_predefined (name : String) :
    predefined.isDefined name = predefinedNames.contains name := by
  have hempty : initial.isDefined name = false := rfl
  simp only [predefined, isDefined_defineText, hempty]
  rfl

/-- What can become of the environment at the start, where some names are defined from outside. -/
inductive Reached : List String → Environment → Prop where
  | start : Reached [] .predefined
  | defineText {names : List String} {env : Environment} (name value : String) (origin : Origin) :
      Reached names env → Reached (name :: names) (env.defineText name value origin)
  | directive {names : List String} {env : Environment} (hash : Token) (line : List Token) :
      Reached names env → Reached names (env.directive hash line)
  /-- Errors are added or taken. -/
  | errors {names : List String} {env : Environment} (errors : List FrontError) :
      Reached names env → Reached names { env with errors }
  /-- The end closes all sections. -/
  | finish {names : List String} {env : Environment} :
      Reached names env → Reached names (Reader.finish env)

/-- A reserved name is defined if the language or something outside of the shader defines it. -/
theorem Reached.isDefined {names : List String} {env : Environment} (h : Reached names env)
    {name : String} (hname : isReservedName name = true) :
    env.isDefined name = (names.contains name || predefinedNames.contains name) := by
  induction h with
  | start => rw [isDefined_predefined]; rfl
  | defineText _ _ _ _ ih => rw [isDefined_defineText, ih, List.contains_cons, Bool.or_assoc]
  | directive hash line _ ih =>
      rw [← ih]
      exact (directive_redefines _ hash line).contains hname
  | errors _ _ ih => exact ih
  | finish _ ih => exact ih

end Environment

theorem Reader.next_reached {names : List String} {r : Reader} (h : r.env.Reached names) :
    r.next.2.env.Reached names := by
  fun_induction Reader.next r with
  | case1 r env heq => exact (h.errors _).finish
  | case2 r env delivery rest heq feed env' hstarts line env'' ih =>
      exact ih (((h.errors _).errors _).directive _ _)
  | case3 r env delivery rest heq feed env' hstarts hactive => exact h.errors _
  | case4 r env delivery rest heq feed env' hstarts hactive ih => exact ih (h.errors _)

theorem Reader.supply_reached (names : List String) :
    supply.Preserves fun r => r.env.Reached names where
  next h := next_reached h
  report _ h := h.errors _

namespace Preprocessor

/-- The names that are defined from outside, the last one first. -/
def namesDefined (requests : List Request) : List String :=
  (requests.filterMap fun
    | .define name _ => some name
    | _ => none).reverse

theorem serve_reached {names : List String} {p : Preprocessor}
    (h : p.queue.later.env.Reached names) (request : Request) :
    (p.serve request).queue.later.env.Reached (namesDefined [request] ++ names) := by
  have hS := Reader.supply_reached names
  have habandon : ∀ {r : Reader}, r.env.Reached names → r.env.Reached names := id
  cases request with
  | next => exact next_preserves hS habandon h
  | peek => exact peek_preserves hS habandon h
  | eof => exact peek_preserves hS habandon h
  | unconsume token => exact h
  | takeErrors => exact h.errors []
  | define name value => exact h.defineText name value (.define name)

theorem serve_all_reached {names : List String} {p : Preprocessor}
    (h : p.queue.later.env.Reached names) (requests : List Request) :
    (requests.foldl serve p).queue.later.env.Reached (namesDefined requests ++ names) := by
  induction requests generalizing names p with
  | nil => exact h
  | cons request requests ih =>
      have hrest := ih (serve_reached h request)
      rw [← List.append_assoc] at hrest
      have hnames : namesDefined requests ++ namesDefined [request] =
          namesDefined (request :: requests) := by
        simp only [namesDefined, ← List.reverse_append, ← List.filterMap_append,
          List.singleton_append]
      rwa [hnames] at hrest

end Preprocessor

/-! ## The forms side by side -/

/-- What is written around a name to ask whether it is defined. -/
structure Question where
  hash : Token
  ifdef : Token
  ifndef : Token
  when : Token
  defined : Token
  opening : Token
  closing : Token
  ifdef_text : ifdef.text = "ifdef"
  ifndef_text : ifndef.text = "ifndef"
  when_text : when.text = "if"
  defined_kind : defined.kind = .identifier
  defined_text : defined.text = "defined"
  opening_kind : opening.kind = .operator .openParen
  closing_kind : closing.kind = .operator .closeParen

/-- Whatever a preprocessor is asked for, its environment is one that the macros of the language,
definitions and directives lead to. In every such environment a name opens an active group after
`#ifdef` where tokens count and the name is defined, after `#ifndef` where tokens count and it is
not, and with `defined` in either form like after `#ifdef`. Only for `__LINE__` `defined` is always
true, so that the forms agree on it only where it is defined from outside. -/
theorem Preprocessor.forms_agree (feed : Feed) :
    (∀ requests : List Request,
      (requests.foldl serve (ofFeed feed)).queue.later.env.Reached (namesDefined requests)) ∧
    ∀ names (env : Environment), env.Reached names →
      ∀ (q : Question) (name : Token), name.kind = .identifier →
        let active := fun line => (env.directive q.hash line).isActive
        active [q.ifdef, name] = (env.isActive && env.isDefined name.text) ∧
        active [q.ifndef, name] = (env.isActive && !env.isDefined name.text) ∧
        active [q.when, q.defined, name] = (env.isActive && env.knows name.text) ∧
        active [q.when, q.defined, q.opening, name, q.closing] =
          (env.isActive && env.knows name.text) ∧
        (env.knows name.text = env.isDefined name.text ↔
          name.text ≠ "__LINE__" ∨ "__LINE__" ∈ names) ∧
        (name.text ∈ Environment.predefinedNames → env.isDefined name.text = true) := by
  constructor
  · intro requests
    have hstart : (ofFeed feed).queue.later.env.Reached [] := .start
    simpa using serve_all_reached hstart requests
  · intro names env henv q name hname active
    have hdefined : q.defined.kind = .identifier ∧ q.defined.text = "defined" :=
      ⟨q.defined_kind, q.defined_text⟩
    refine ⟨?ifdef, ?ifndef, ?defined, ?parenthesized, ?line, ?predefined⟩
    case ifdef =>
      have hdirective : Directive.ofName q.ifdef.text = .whenDefined true := by
        rw [q.ifdef_text]; rfl
      simpa using Environment.isActive_whenDefined hdirective hname
    case ifndef =>
      have hdirective : Directive.ofName q.ifndef.text = .whenDefined false := by
        rw [q.ifndef_text]; rfl
      simpa using Environment.isActive_whenDefined hdirective hname
    case defined =>
      have hcondition : (env.condition q.when [q.defined, name]).1 = env.knows name.text :=
        Environment.condition_defined hdefined hname
      rw [← hcondition]
      exact Environment.isActive_when q.when_text _
    case parenthesized =>
      have hopening : q.opening.isOperator .openParen = true := by
        simp [Token.isOperator, q.opening_kind]
      have hclosing : q.closing.isOperator .closeParen = true := by
        simp [Token.isOperator, q.closing_kind]
      have hcondition :
          (env.condition q.when [q.defined, q.opening, name, q.closing]).1 =
            env.knows name.text :=
        Environment.condition_defined_parenthesized hdefined hname hopening hclosing
      rw [← hcondition]
      exact Environment.isActive_when q.when_text _
    case line =>
      by_cases hline : name.text = "__LINE__"
      · rw [hline, henv.isDefined (by decide), Environment.knows, henv.isDefined (by decide)]
        simp [Environment.predefinedNames]
      · simp [Environment.knows, hline]
    case predefined =>
      intro hmem
      have hreserved : isReservedName name.text = true := by
        revert hmem
        simp only [Environment.predefinedNames, List.mem_cons, List.not_mem_nil, or_false]
        rintro (h | h | h) <;> rw [h] <;> decide
      rw [henv.isDefined hreserved]
      simp [hmem]

/-- The version is asked for at the start of a shader. -/
theorem Preprocessor.forms_agree_version :
    let token : TokenKind → String → Token := fun kind text => ⟨kind, text, .whole text, false, true⟩
    let q : Question :=
      { hash := token (.operator .hash) "#"
        ifdef := token .identifier "ifdef"
        ifndef := token .identifier "ifndef"
        when := token (.keyword .if) "if"
        defined := token .identifier "defined"
        opening := token (.operator .openParen) "("
        closing := token (.operator .closeParen) ")"
        ifdef_text := rfl
        ifndef_text := rfl
        when_text := rfl
        defined_kind := rfl
        defined_text := rfl
        opening_kind := rfl
        closing_kind := rfl }
    let name := token .identifier "__VERSION__"
    let active := fun line => (Environment.predefined.directive q.hash line).isActive
    Environment.predefined.Reached [] ∧ active [q.ifdef, name] = true ∧
      active [q.ifndef, name] = false ∧ active [q.when, q.defined, name] = true ∧
        active [q.when, q.defined, q.opening, name, q.closing] = true := by
  intro token q name active
  obtain ⟨hifdef, hifndef, hdefined, hparenthesized, -, hpredefined⟩ :=
    (forms_agree (Code.ofString "" .unknown).scan).2 [] .predefined .start q name rfl
  have hknown := hpredefined (by decide)
  have hactive : Environment.predefined.isActive = true := rfl
  simp only [hactive, hknown, Environment.knows] at hifdef hifndef hdefined hparenthesized
  exact ⟨.start, hifdef, hifndef, hdefined, hparenthesized⟩

/-- The line number is defined for a condition, and not for `#ifdef` and `#ifndef`. -/
theorem Preprocessor.forms_disagree_line :
    let kept : String → List String := fun text =>
      ((Code.ofString text .unknown).preprocess []).tokens.map Token.text
    kept "#ifdef __LINE__\na\n#endif" = [] ∧ kept "#ifndef __LINE__\na\n#endif" = ["a"] ∧
      kept "#if defined __LINE__\na\n#endif" = ["a"] ∧
        kept "#if defined(__LINE__)\na\n#endif" = ["a"] := by
  decide +kernel

end Essl
