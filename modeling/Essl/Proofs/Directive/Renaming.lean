import Essl.Proofs.Directive.Effect
import Essl.Proofs.Directive.ErrorLog
import Essl.Proofs.Macro.Renaming

/-!
# Directives in other texts

What directives do does not depend on the texts that their tokens lie in, and what they report lies
where it did.
-/

namespace Essl

variable (ρ : Code.Renaming)

/-! ## Conditions -/

namespace Condition

variable {α β : Type}

/-- The same result with its tokens in the other texts, or the same failure there. -/
def renameResult (f : α → α) : Except Failure α → Except Failure α
  | .ok a => .ok (f a)
  | .error failure => .error (failure.rename ρ)

variable {ρ}

theorem renameResult_bind {f : α → α} {g : β → β} {x x' : Except Failure α}
    {k k' : α → Except Failure β} (hx : x' = renameResult ρ f x)
    (hk : ∀ a, k' (f a) = renameResult ρ g (k a)) :
    (x' >>= k') = renameResult ρ g (x >>= k) := by
  subst hx
  cases x with
  | ok a => exact hk a
  | error failure => rfl

variable (ρ)

theorem fail_rename (live : Bool) (cause : DirectiveCause) (location : Location) :
    fail live cause (location.rename ρ) = renameResult ρ id (fail live cause location) := by
  unfold fail
  split <;> rfl

theorem apply_rename (live : Bool) (op : Operator) (location : Location) (a b : Int64) :
    apply live op (location.rename ρ) a b = renameResult ρ id (apply live op location a b) := by
  unfold apply
  split
  · exact fail_rename ..
  · split
    · rfl
    · exact fail_rename ..

theorem applySign_rename (live : Bool) (op : Operator) (location : Location) (a : Int64) :
    applySign live op (location.rename ρ) a =
      renameResult ρ id (applySign live op location a) := by
  unfold applySign
  split
  · split
    · rfl
    · exact fail_rename ..
  all_goals rfl

/-- What is left to read, in the other texts. -/
def renameRest (result : Int64 × List Token) : Int64 × List Token :=
  (result.1, result.2.map (·.rename ρ))

/-- Reading an expression does not depend on the texts of its tokens. -/
structure ReadsRenamed (stop : Location) (depth : Nat) : Prop where
  leaf : ∀ live ts, leaf (stop.rename ρ) depth live (ts.map (·.rename ρ)) =
    renameResult ρ (renameRest ρ) (leaf stop depth live ts)
  tree : ∀ loosest live ts, tree (stop.rename ρ) depth loosest live (ts.map (·.rename ρ)) =
    renameResult ρ (renameRest ρ) (tree stop depth loosest live ts)
  climb : ∀ loosest live left ts,
    climb (stop.rename ρ) depth loosest live left (ts.map (·.rename ρ)) =
      renameResult ρ (renameRest ρ) (climb stop depth loosest live left ts)

variable {ρ} {stop : Location} {depth : Nat}

theorem ReadsRenamed.leaf_succ (h : ReadsRenamed ρ stop depth) (live : Bool) (ts : List Token) :
    Condition.leaf (stop.rename ρ) (depth + 1) live (ts.map (·.rename ρ)) =
      renameResult ρ (renameRest ρ) (Condition.leaf stop (depth + 1) live ts) := by
  cases ts with
  | nil => rfl
  | cons t rest =>
      rw [List.map_cons, Condition.leaf, Condition.leaf, Token.kind_rename, Token.intValue?_rename,
        Token.location_rename, Token.text_rename]
      split
      · cases t.intValue? <;> rfl
      · exact renameResult_bind (fail_rename ρ live _ t.location) fun value => rfl
      · refine renameResult_bind (h.tree 1 live rest) ?_
        rintro ⟨value, _ | ⟨closing, rest⟩⟩
        · rfl
        · by_cases hclosing : closing.isOperator .closeParen = true
          · simp [renameRest, renameResult, hclosing]
          · simp [renameRest, renameResult, hclosing, illFormed, Located.rename]
      · split
        · refine renameResult_bind (h.leaf live rest) ?_
          rintro ⟨operand, rest⟩
          exact renameResult_bind (applySign_rename ρ live _ t.location operand) fun value => rfl
        · rfl
      · rfl

theorem ReadsRenamed.climb_succ (h : ReadsRenamed ρ stop depth) (loosest : Nat) (live : Bool)
    (left : Int64) (ts : List Token) :
    Condition.climb (stop.rename ρ) (depth + 1) loosest live left (ts.map (·.rename ρ)) =
      renameResult ρ (renameRest ρ) (Condition.climb stop (depth + 1) loosest live left ts) := by
  cases ts with
  | nil => rfl
  | cons t rest =>
      rw [List.map_cons, Condition.climb, Condition.climb, Token.kind_rename]
      cases t.kind.operator?.bind fun op => (precedence? op).map (op, ·) with
      | none => rfl
      | some found =>
          obtain ⟨op, level⟩ := found
          dsimp only
          split
          · rfl
          · refine renameResult_bind (h.tree (level + 1) _ rest) ?_
            rintro ⟨right, rest⟩
            refine renameResult_bind (apply_rename ρ _ op t.location left right) fun value => ?_
            exact h.climb loosest live value rest

theorem readsRenamed (ρ : Code.Renaming) (stop : Location) (depth : Nat) :
    ReadsRenamed ρ stop depth := by
  induction depth with
  | zero =>
      refine ⟨fun live ts => ?_, fun loosest live ts => ?_, fun loosest live left ts => ?_⟩
      · rw [leaf, leaf]
        rfl
      · rw [tree, tree]
        rfl
      · rw [climb, climb]
        rfl
  | succ depth ih =>
      refine ⟨ih.leaf_succ, fun loosest live ts => ?_, ih.climb_succ⟩
      rw [tree, tree]
      refine renameResult_bind (ih.leaf live ts) ?_
      rintro ⟨left, rest⟩
      exact ih.climb loosest live left rest

theorem evaluate_rename (ρ : Code.Renaming) (directive : Location) (ts : List Token) :
    evaluate (directive.rename ρ) (ts.map (·.rename ρ)) =
      renameResult ρ id (evaluate directive ts) := by
  have hlast : (ts.map (·.rename ρ)).getLast?.elim (directive.rename ρ) Token.location =
      (ts.getLast?.elim directive Token.location).rename ρ := by
    rw [List.getLast?_map]
    cases ts.getLast? <;> rfl
  unfold evaluate
  dsimp only
  rw [hlast, List.length_map, Location.endpoint_rename]
  refine renameResult_bind ((readsRenamed ρ _ _).tree 1 true ts) ?_
  rintro ⟨value, _ | ⟨t, rest⟩⟩ <;> rfl

end Condition

/-! ## Names that are asked about -/

/-- The resolved tokens in the other texts, or the fault there. -/
def renameResolved : Except Location (List Token) → Except Location (List Token)
  | .ok ts => .ok (ts.map (·.rename ρ))
  | .error location => .error (location.rename ρ)

theorem renameResolved_cons (t : Token) (resolved : Except Location (List Token)) :
    renameResolved ρ (resolved.map (t :: ·)) =
      (renameResolved ρ resolved).map (t.rename ρ :: ·) := by
  cases resolved <;> rfl

theorem resolveDefined_rename (isDefined : String → Bool) (ts : List Token) :
    resolveDefined isDefined (ts.map (·.rename ρ)) =
      renameResolved ρ (resolveDefined isDefined ts) := by
  fun_induction resolveDefined isDefined ts with
  | case1 => rfl
  | case2 t hdefined answer opening name closing rest' hopening hname ih =>
      rw [renameResolved_cons, ← ih]
      simp only [List.map_cons]
      rw [resolveDefined]
      simp [hdefined, hopening, hname]
      rfl
  | case3 t hdefined opening name closing rest' hopening hname =>
      simp only [List.map_cons]
      rw [resolveDefined]
      simp [hdefined, hopening, hname, renameResolved]
  | case4 t hdefined answer opening name closing rest' hopening hname ih =>
      rw [renameResolved_cons, ← ih]
      simp only [List.map_cons]
      rw [resolveDefined]
      simp [hdefined, hopening, hname]
      rfl
  | case5 t hdefined opening name closing rest' hopening hname =>
      simp only [List.map_cons]
      rw [resolveDefined]
      simp [hdefined, hopening, hname, renameResolved]
  | case6 t hdefined answer name next hname ih =>
      rw [renameResolved_cons, ← ih]
      simp only [List.map_cons, List.map_nil]
      rw [resolveDefined]
      simp [hdefined, hname]
      rfl
  | case7 t hdefined name next hname =>
      simp only [List.map_cons, List.map_nil]
      rw [resolveDefined]
      simp [hdefined, hname, renameResolved]
  | case8 t hdefined answer name hname =>
      simp only [List.map_cons, List.map_nil]
      rw [resolveDefined]
      simp [hdefined, hname, renameResolved]
      rfl
  | case9 t hdefined name hname =>
      simp only [List.map_cons, List.map_nil]
      rw [resolveDefined]
      simp [hdefined, hname, renameResolved]
  | case10 t hdefined =>
      simp only [List.map_cons, List.map_nil]
      rw [resolveDefined]
      simp [hdefined, renameResolved]
  | case11 t rest hdefined ih =>
      rw [renameResolved_cons, ← ih, List.map_cons, resolveDefined]
      simp [hdefined]

/-! ## Parameter lists -/

/-- The names, and what follows them in the other texts. -/
def renameNames (found : List String × List Token) : List String × List Token :=
  (found.1, found.2.map (·.rename ρ))

theorem parameterNames?_rename (ts : List Token) :
    parameterNames? (ts.map (·.rename ρ)) = (parameterNames? ts).map (renameNames ρ) := by
  fun_induction parameterNames? ts with
  | case1 name next rest hname hclosing => simp [parameterNames?, hname, hclosing, renameNames]
  | case2 name next rest hname hclosing hcomma ih =>
      simp [parameterNames?, hname, hclosing, hcomma, ih, renameNames, Function.comp_def]
  | case3 name next rest hname hclosing hcomma =>
      simp [parameterNames?, hname, hclosing, hcomma]
  | case4 name next rest hname => simp [parameterNames?, hname]
  | case5 ts hshort =>
      match ts with
      | [] | [_] => rfl
      | name :: next :: rest => exact absurd rfl (hshort name next rest)

theorem parameterList?_rename (ts : List Token) :
    parameterList? (ts.map (·.rename ρ)) = (parameterList? ts).map (renameNames ρ) := by
  cases ts with
  | nil => rfl
  | cons t rest =>
      by_cases hclosing : t.isOperator .closeParen = true
      · simp [parameterList?, hclosing, renameNames]
      · have h := parameterNames?_rename ρ (t :: rest)
        simp only [List.map_cons] at h
        simp [parameterList?, hclosing, h]

/-! ## Directives -/

def Section.rename (s : Section) : Section := { s with location := s.location.rename ρ }

@[simp] theorem Section.seenElse_rename (s : Section) : (s.rename ρ).seenElse = s.seenElse := rfl

namespace Environment

/-- The environment in the other texts, with some table of macros. -/
def rename (table : MacroTable) (env : Environment) : Environment :=
  ⟨table, env.sections.map (·.rename ρ), env.errors.map (·.rename ρ)⟩

variable (table : MacroTable) (env : Environment) (directive : Token) (line : List Token)

@[simp] theorem sections_rename :
    (env.rename ρ table).sections = env.sections.map (·.rename ρ) := rfl

@[simp] theorem errors_rename : (env.rename ρ table).errors = env.errors.map (·.rename ρ) := rfl

@[simp] theorem isActive_rename : (env.rename ρ table).isActive = env.isActive := by
  unfold isActive
  rw [sections_rename]
  cases env.sections <;> rfl

@[simp] theorem report_rename (cause : DirectiveCause) (location : Location) :
    (env.rename ρ table).report cause (location.rename ρ) =
      (env.report cause location).rename ρ table := by
  simp [report, rename, Located.rename]

@[simp] theorem openSection_rename (active value : Bool) (location : Location) :
    (env.rename ρ table).openSection active value (location.rename ρ) =
      (env.openSection active value location).rename ρ table := rfl

theorem note_rename (errors : List FrontError) :
    { env.rename ρ table with
      errors := (env.rename ρ table).errors ++ errors.map (·.rename ρ) } =
      { env with errors := env.errors ++ errors }.rename ρ table := by
  simp [rename]

variable {table env}

theorem isDefined_rename (h : table.bare = env.macros.bare) :
    (env.rename ρ table).isDefined = env.isDefined := by
  funext name
  have hfound := congrArg (fun t : MacroTable => (t.find? name).isSome) h
  simp only [MacroTable.find?_bare, Option.isSome_map] at hfound
  exact hfound

/-- A condition with its names resolved is expanded and evaluated. -/
def resolvedCondition (env : Environment) (directive : Token) (resolved : List Token) :
    Bool × Environment :=
  let (expanded, errors) := expandLine env.macros resolved
  let env := { env with errors := env.errors ++ errors }
  match Condition.evaluate directive.location expanded with
  | .ok value => (value != 0, env)
  | .error failure => (false, env.report failure.cause failure.location)

theorem condition_eq (env : Environment) (directive : Token) (line : List Token) :
    env.condition directive line =
      match resolveDefined (fun name => env.isDefined name || name == "__LINE__") line with
      | .ok resolved => env.resolvedCondition directive resolved
      | .error location =>
        (env.report .invalidExpression location).resolvedCondition directive [] := by
  unfold condition
  cases resolveDefined (fun name => env.isDefined name || name == "__LINE__") line <;> rfl

theorem resolvedCondition_rename (h : table.bare = env.macros.bare) (resolved : List Token) :
    (env.rename ρ table).resolvedCondition (directive.rename ρ) (resolved.map (·.rename ρ)) =
      ((env.resolvedCondition directive resolved).1,
        (env.resolvedCondition directive resolved).2.rename ρ table) := by
  have hexpanded : expandLine (env.rename ρ table).macros (resolved.map (·.rename ρ)) =
      ((expandLine env.macros resolved).1.map (·.rename ρ),
        (expandLine env.macros resolved).2.map (·.rename ρ)) := expandLine_rename ρ h resolved
  unfold resolvedCondition
  rw [hexpanded]
  dsimp only
  rw [note_rename, Token.location_rename, Condition.evaluate_rename]
  cases Condition.evaluate directive.location (expandLine env.macros resolved).1 with
  | ok value => rfl
  | error failure => exact congrArg (false, ·) (report_rename ..)

theorem condition_rename (h : table.bare = env.macros.bare) :
    (env.rename ρ table).condition (directive.rename ρ) (line.map (·.rename ρ)) =
      ((env.condition directive line).1, (env.condition directive line).2.rename ρ table) := by
  rw [condition_eq, condition_eq, isDefined_rename ρ h, resolveDefined_rename]
  cases resolveDefined (fun name => env.isDefined name || name == "__LINE__") line with
  | ok resolved => exact resolvedCondition_rename ρ directive h resolved
  | error location =>
      have hreported : table.bare = (env.report .invalidExpression location).macros.bare := h
      dsimp only [renameResolved]
      rw [report_rename]
      exact resolvedCondition_rename ρ directive hreported []

theorem macroName_rename (table : MacroTable) (env : Environment) :
    (env.rename ρ table).macroName (directive.rename ρ) (line.map (·.rename ρ)) =
      ((env.macroName directive line).1.map (·.rename ρ),
        (env.macroName directive line).2.rename ρ table) := by
  cases line with
  | nil => exact congrArg (none, ·) (report_rename ρ table env _ directive.location.endpoint)
  | cons name rest =>
      by_cases hname : name.kind = .identifier
      · simp [macroName, hname]
      · simp [macroName, hname]

theorem elif_rename (h : table.bare = env.macros.bare) :
    (env.rename ρ table).elif (directive.rename ρ) (line.map (·.rename ρ)) =
      (env.elif directive line).rename ρ table := by
  unfold elif
  rw [sections_rename]
  cases env.sections with
  | nil => exact report_rename ..
  | cons top outer =>
      obtain ⟨active, taken, seenElse, location⟩ := top
      have hreported : table.bare =
          (env.report (.afterElse .elif) directive.location).macros.bare := h
      have hplain := condition_rename ρ directive line h
      have hfaulty := condition_rename ρ directive line hreported
      cases seenElse <;> cases taken
      · simp [hplain]
        rfl
      · rfl
      · simp [hfaulty]
        rfl
      · simp
        rfl

theorem otherwise_rename (table : MacroTable) (env : Environment) :
    (env.rename ρ table).otherwise (directive.rename ρ) =
      (env.otherwise directive).rename ρ table := by
  unfold otherwise
  rw [sections_rename]
  cases env.sections with
  | nil => exact report_rename ..
  | cons top outer =>
      dsimp only [List.map_cons]
      cases hseen : top.seenElse with
      | true => simp [hseen, report, rename, Section.rename, Located.rename]
      | false => simp [hseen, rename, Section.rename]

theorem endif_rename (table : MacroTable) (env : Environment) :
    (env.rename ρ table).endif (directive.rename ρ) = (env.endif directive).rename ρ table := by
  unfold endif
  rw [sections_rename]
  cases env.sections with
  | nil => exact report_rename ..
  | cons top outer => rfl

theorem userError_rename (table : MacroTable) (env : Environment) :
    (env.rename ρ table).userError (directive.rename ρ) (line.map (·.rename ρ)) =
      (env.userError directive line).rename ρ table := by
  have hlast : (line.map (·.rename ρ)).getLast?.elim (directive.rename ρ).location
      ((directive.rename ρ).location.join ·.location) =
      (line.getLast?.elim directive.location (directive.location.join ·.location)).rename ρ := by
    rw [List.getLast?_map]
    cases line.getLast? <;> simp
  unfold userError
  rw [hlast, List.map_map]
  exact report_rename ..

theorem define_rename (h : table.bare = env.macros.bare) :
    ∃ table', table'.bare = (env.define directive line).macros.bare ∧
      (env.rename ρ table).define (directive.rename ρ) (line.map (·.rename ρ)) =
        (env.define directive line).rename ρ table' := by
  have hmacros := env.macros_macroName directive line
  unfold define
  rw [macroName_rename]
  generalize env.macroName directive line = named at hmacros ⊢
  rcases named with ⟨_ | name, env'⟩
  · exact ⟨table, by rw [h, ← hmacros], rfl⟩
  · dsimp only at hmacros
    have h' : table.bare = env'.macros.bare := by rw [h, hmacros]
    have hdefine (parameters : Option (List String)) (body : List Token) (place : Location) :
        (table.define ⟨name.text, parameters, body.map (·.rename ρ), some place⟩).bare =
          (env'.macros.define ⟨name.text, parameters, body, some name.location⟩).bare := by
      simp [MacroTable.define_bare, h', MacroDef.bare, Function.comp_def]
    by_cases hreserved : isReservedName name.text = true
    · refine ⟨table, ?_, ?_⟩
      · simp [hreserved, h']
      · simp [hreserved]
    · have hunreserved : ¬isReservedName (name.rename ρ).text = true := hreserved
      simp only [Option.map_some, hreserved, hunreserved, ← List.map_tail]
      cases line.tail with
      | nil => exact ⟨_, hdefine none [] _, rfl⟩
      | cons opening rest =>
          by_cases hopening : opening.isOperator .openParen ∧ ¬opening.afterSpace
          · have hopening' : (opening.rename ρ).isOperator .openParen ∧
                ¬(opening.rename ρ).afterSpace := hopening
            simp only [List.map_cons, parameterList?_rename, if_pos hopening, if_pos hopening']
            cases parameterList? rest with
            | none => exact ⟨table, h', report_rename ..⟩
            | some found => exact ⟨_, hdefine (some found.1) found.2 _, rfl⟩
          · have hopening' : ¬((opening.rename ρ).isOperator .openParen ∧
                ¬(opening.rename ρ).afterSpace) := hopening
            simp only [List.map_cons, if_neg hopening, if_neg hopening']
            exact ⟨_, hdefine none (opening :: rest) _, rfl⟩

theorem undef_rename (h : table.bare = env.macros.bare) :
    ∃ table', table'.bare = (env.undef directive line).macros.bare ∧
      (env.rename ρ table).undef (directive.rename ρ) (line.map (·.rename ρ)) =
        (env.undef directive line).rename ρ table' := by
  have hmacros := env.macros_macroName directive line
  unfold undef
  rw [macroName_rename]
  generalize env.macroName directive line = named at hmacros ⊢
  rcases named with ⟨_ | name, env'⟩
  · exact ⟨table, by rw [h, ← hmacros], rfl⟩
  · dsimp only at hmacros
    have h' : table.bare = env'.macros.bare := by rw [h, hmacros]
    by_cases hreserved : isReservedName name.text = true
    · refine ⟨table, ?_, ?_⟩
      · simp [hreserved, h']
      · simp [hreserved]
    · refine ⟨table.undefine name.text, ?_, ?_⟩
      · simp [hreserved, MacroTable.undefine_bare, h']
      · simp [hreserved]
        rfl

theorem directive_rename (h : table.bare = env.macros.bare) (hash : Token) :
    ∃ table', table'.bare = (env.directive hash line).macros.bare ∧
      (env.rename ρ table).directive (hash.rename ρ) (line.map (·.rename ρ)) =
        (env.directive hash line).rename ρ table' := by
  cases line with
  | nil => exact ⟨table, h, rfl⟩
  | cons name line =>
      unfold Environment.directive
      simp only [List.map_cons, Token.text_rename, Token.location_rename, isActive_rename,
        Location.join_rename]
      split
      · cases env.isActive with
        | false => exact ⟨table, h, rfl⟩
        | true => exact ⟨table, by simpa using h, by simp [condition_rename ρ name line h]⟩
      · cases env.isActive with
        | false => exact ⟨table, h, rfl⟩
        | true =>
            have hmacros := env.macros_macroName name line
            simp only [if_true, macroName_rename]
            generalize env.macroName name line = named at hmacros ⊢
            rcases named with ⟨_ | operand, env'⟩
            · exact ⟨table, by rw [h, ← hmacros]; rfl, rfl⟩
            · have h' : table.bare = env'.macros.bare := by rw [h, ← hmacros]
              refine ⟨table, h', ?_⟩
              dsimp only [Option.map_some]
              rw [isDefined_rename ρ h']
              rfl
      · exact ⟨table, by rw [h, macros_elif], elif_rename ρ name line h⟩
      · exact ⟨table, by rw [h, macros_otherwise], otherwise_rename ρ name table env⟩
      · exact ⟨table, by rw [h, macros_endif], endif_rename ρ name table env⟩
      · cases env.isActive with
        | false => exact ⟨table, h, rfl⟩
        | true =>
            simp only [if_true]
            split
            · exact define_rename ρ name line h
            · exact undef_rename ρ name line h
            · exact ⟨table, h, userError_rename ρ name line table env⟩
            · exact ⟨table, h, report_rename ..⟩
            · exact ⟨table, h, rfl⟩

end Environment

end Essl
