import Essl.Proofs.Directive.Effect
import Essl.Proofs.Macro.Placing

/-!
# Where directives report errors

A directive reports its errors where tokens of its line are, joined or at the end of one.
-/

namespace Essl

/-! ## Conditions -/

namespace Condition

variable {α β : Type} {P : Location → Prop} {Q : α → Prop} {R : β → Prop} {stop : Location}

/-- A result has a property, and a failure is at some place. -/
def Fails (P : Location → Prop) (Q : α → Prop) : Except Failure α → Prop
  | .ok a => Q a
  | .error failure => P failure.location

theorem Fails.bind {x : Except Failure α} {f : α → Except Failure β} (hx : Fails P Q x)
    (hf : ∀ a, Q a → Fails P R (f a)) : Fails P R (x >>= f) := by
  cases x with
  | ok a => exact hf a hx
  | error failure => exact hx

theorem fail_fails {location : Location} (h : P location) (live : Bool) (cause : DirectiveCause) :
    Fails P (fun _ => True) (fail live cause location) := by
  unfold fail
  split
  · exact h
  · trivial

theorem apply_fails {location : Location} (h : P location) (live : Bool) (op : Operator)
    (a b : Int64) : Fails P (fun _ => True) (apply live op location a b) := by
  unfold apply
  split
  · exact fail_fails h live _
  · split
    · trivial
    · exact fail_fails h live _

theorem applySign_fails {location : Location} (h : P location) (live : Bool) (op : Operator)
    (a : Int64) : Fails P (fun _ => True) (applySign live op location a) := by
  unfold applySign
  split
  · split
    · trivial
    · exact fail_fails h live _
  all_goals trivial

/-- The tokens that are left have certain places. -/
def RestAt (P : Location → Prop) (result : Int64 × List Token) : Prop :=
  ∀ t ∈ result.2, P t.location

/-- Reading an expression of tokens at certain places fails at one of these places only. -/
structure ReadsAt (P : Location → Prop) (stop : Location) (depth : Nat) : Prop where
  leaf : ∀ live ts, (∀ t ∈ ts, P t.location) → Fails P (RestAt P) (leaf stop depth live ts)
  tree : ∀ loosest live ts, (∀ t ∈ ts, P t.location) →
    Fails P (RestAt P) (tree stop depth loosest live ts)
  climb : ∀ loosest live left ts, (∀ t ∈ ts, P t.location) →
    Fails P (RestAt P) (climb stop depth loosest live left ts)

theorem ReadsAt.leaf_succ {depth : Nat} (h : ReadsAt P stop depth) (hstop : P stop) (live : Bool)
    (ts : List Token) (hts : ∀ t ∈ ts, P t.location) :
    Fails P (RestAt P) (Condition.leaf stop (depth + 1) live ts) := by
  cases ts with
  | nil => exact hstop
  | cons t rest =>
      obtain ⟨ht, hrest⟩ := List.forall_mem_cons.1 hts
      rw [Condition.leaf]
      split
      · split
        · exact hrest
        · exact ht
      · exact (fail_fails ht live _).bind fun value _ => hrest
      · refine (h.tree 1 live rest hrest).bind ?_
        rintro ⟨value, rest⟩ hrest
        dsimp only
        split
        · rename_i closing rest
          obtain ⟨hclosing, hrest⟩ := List.forall_mem_cons.1 hrest
          split
          · exact hrest
          · exact hclosing
        · exact hstop
      · split
        · refine (h.leaf live rest hrest).bind ?_
          rintro ⟨operand, rest⟩ hrest
          exact (applySign_fails ht live _ operand).bind fun value _ => hrest
        · exact ht
      · exact ht

theorem ReadsAt.climb_succ {depth : Nat} (h : ReadsAt P stop depth) (loosest : Nat) (live : Bool)
    (left : Int64) (ts : List Token) (hts : ∀ t ∈ ts, P t.location) :
    Fails P (RestAt P) (Condition.climb stop (depth + 1) loosest live left ts) := by
  cases ts with
  | nil => exact hts
  | cons t rest =>
      obtain ⟨ht, hrest⟩ := List.forall_mem_cons.1 hts
      rw [Condition.climb]
      split
      · exact hts
      · rename_i op level _
        split
        · exact hts
        · refine (h.tree (level + 1) _ rest hrest).bind ?_
          rintro ⟨right, rest⟩ hrest
          refine (apply_fails ht _ op left right).bind fun value _ => ?_
          exact h.climb loosest live value rest hrest

theorem readsAt (hstop : P stop) (depth : Nat) : ReadsAt P stop depth := by
  induction depth with
  | zero =>
      refine ⟨fun live ts _ => ?_, fun loosest live ts _ => ?_, fun loosest live left ts _ => ?_⟩
      · rw [leaf]
        exact hstop
      · rw [tree]
        exact hstop
      · rw [climb]
        exact hstop
  | succ depth ih =>
      refine ⟨ih.leaf_succ hstop, fun loosest live ts hts => ?_, ih.climb_succ⟩
      rw [tree]
      refine (ih.leaf live ts hts).bind ?_
      rintro ⟨left, rest⟩ hrest
      exact ih.climb loosest live left rest hrest

/-- A condition fails at one of its tokens, or at the end of the last one or of the directive. -/
theorem evaluate_fails {line ts : List Token} {directive : Token} (hdirective : directive ∈ line)
    (hts : ∀ t ∈ ts, t.location.JoinedFrom line) :
    Fails (Location.MadeFrom line) (fun _ => True) (evaluate directive.location ts) := by
  have hlast : (ts.getLast?.elim directive.location Token.location).JoinedFrom line := by
    cases hts' : ts.getLast? with
    | none => exact .token hdirective
    | some t => exact hts t (List.mem_of_getLast? hts')
  have hstop : Location.MadeFrom line
      (ts.getLast?.elim directive.location Token.location).endpoint := .inr ⟨_, hlast, rfl⟩
  refine ((readsAt hstop _).tree 1 true ts fun t ht => .inl (hts t ht)).bind ?_
  rintro ⟨value, rest⟩ hrest
  dsimp only
  split
  · trivial
  · exact hrest _ List.mem_cons_self

end Condition

/-! ## Names that are asked about -/

/-- The tokens of a line in which `defined` is resolved, or the place of a fault in it. -/
def ResolvedAt (P : Location → Prop) : Except Location (List Token) → Prop
  | .ok ts => ∀ t ∈ ts, P t.location
  | .error location => P location

theorem ResolvedAt.map_cons {P : Location → Prop} {resolved : Except Location (List Token)}
    (h : ResolvedAt P resolved) {t : Token} (ht : P t.location) :
    ResolvedAt P (resolved.map (t :: ·)) := by
  cases resolved with
  | ok ts => exact List.forall_mem_cons.2 ⟨ht, h⟩
  | error location => exact h

theorem resolveDefined_at (isDefined : String → Bool) {line ts : List Token}
    (h : ∀ t ∈ ts, t.location.JoinedFrom line) :
    ResolvedAt (Location.JoinedFrom line) (resolveDefined isDefined ts) := by
  fun_induction resolveDefined isDefined ts with
  | case1 => exact h
  | case2 t _ answer opening name closing rest' _ _ ih =>
      simp only [List.forall_mem_cons] at h
      exact (ih h.2.2.2.2).map_cons (h.1.join h.2.2.2.1)
  | case4 t _ answer opening name closing rest' _ _ ih =>
      obtain ⟨ht, hrest⟩ := List.forall_mem_cons.1 h
      obtain ⟨hname, hrest⟩ := List.forall_mem_cons.1 hrest
      exact (ih hrest).map_cons (ht.join hname)
  | case6 t _ answer name next _ ih =>
      obtain ⟨ht, hrest⟩ := List.forall_mem_cons.1 h
      obtain ⟨hname, hrest⟩ := List.forall_mem_cons.1 hrest
      exact (ih hrest).map_cons (ht.join hname)
  | case8 t _ answer name _ =>
      obtain ⟨ht, hrest⟩ := List.forall_mem_cons.1 h
      exact List.forall_mem_singleton.2 (ht.join (hrest name List.mem_cons_self))
  | case11 t rest _ ih =>
      obtain ⟨ht, hrest⟩ := List.forall_mem_cons.1 h
      exact (ih hrest).map_cons ht
  | case3 | case5 | case7 | case9 | case10 => exact (List.forall_mem_cons.1 h).1

/-! ## Directives -/

namespace Environment

/-- Errors were added only where tokens of the line are. -/
def Reports (line : List Token) (env env' : Environment) : Prop :=
  ∃ found, env'.errors = env.errors ++ found ∧ ∀ e ∈ found, e.MadeFrom line

namespace Reports

variable {line : List Token} {env env' env'' : Environment}

theorem of_errors_eq (h : env'.errors = env.errors) : Reports line env env' :=
  ⟨[], by simp [h], by simp⟩

theorem trans (h : Reports line env env') (h' : Reports line env' env'') :
    Reports line env env'' := by
  obtain ⟨found, herrors, hfound⟩ := h
  obtain ⟨more, herrors', hmore⟩ := h'
  refine ⟨found ++ more, by rw [herrors', herrors, List.append_assoc], ?_⟩
  exact List.forall_mem_append.2 ⟨hfound, hmore⟩

/-- Opening a section reports nothing. -/
theorem openSection (h : Reports line env env') (active value : Bool) (location : Location) :
    Reports line env (env'.openSection active value location) := h

theorem report (env : Environment) (cause : DirectiveCause) {location : Location}
    (h : location.MadeFrom line) : Reports line env (env.report cause location) :=
  ⟨[⟨.directive cause, location⟩], rfl, List.forall_mem_singleton.2 ⟨⟨cause, rfl⟩, h⟩⟩

theorem reportAt (env : Environment) (cause : DirectiveCause) {t : Token} (h : t ∈ line) :
    Reports line env (env.report cause t.location) :=
  report env cause (.inl (.token h))

end Reports

variable {line : List Token} {env : Environment} {name : Token} {rest : List Token}

theorem condition_reports (hname : name ∈ line) (hrest : ∀ t ∈ rest, t ∈ line) :
    Reports line env (env.condition name rest).2 := by
  have hline : ∀ t ∈ rest, t.location.JoinedFrom line := fun t ht => .token (hrest t ht)
  have hresolved := resolveDefined_at (fun name => env.isDefined name || name == "__LINE__") hline
  unfold condition
  split
  rename_i resolved env' hsplit
  have hstart : Reports line env env' ∧ ∀ t ∈ resolved, t.location.JoinedFrom line := by
    split at hsplit <;> rename_i heq <;> rw [heq] at hresolved <;>
      obtain ⟨rfl, rfl⟩ := Prod.mk.inj hsplit
    · exact ⟨.of_errors_eq rfl, hresolved⟩
    · exact ⟨.report env _ (.inl hresolved), by simp⟩
  obtain ⟨htokens, herrors⟩ := expandLine_madeFrom env'.macros hstart.2
  have hexpanded : Reports line env
      { env' with errors := env'.errors ++ (expandLine env'.macros resolved).2 } :=
    hstart.1.trans ⟨_, rfl, herrors⟩
  have hvalue := Condition.evaluate_fails hname htokens
  dsimp only
  split <;> rename_i heq <;> rw [heq] at hvalue
  · exact hexpanded
  · exact hexpanded.trans (.report _ _ hvalue)

theorem macroName_reports (env : Environment) (hname : name ∈ line) (hrest : ∀ t ∈ rest, t ∈ line) :
    Reports line env (env.macroName name rest).2 ∧
      ∀ operand ∈ (env.macroName name rest).1, operand ∈ line := by
  unfold macroName
  split
  · exact ⟨.report env _ (.inr ⟨_, .token hname, rfl⟩), by simp⟩
  · rename_i operand _
    have hoperand := hrest operand List.mem_cons_self
    split
    · refine ⟨.of_errors_eq rfl, ?_⟩
      rintro _ ⟨⟩
      exact hoperand
    · exact ⟨.reportAt env _ hoperand, by simp⟩

theorem elif_reports (hname : name ∈ line) (hrest : ∀ t ∈ rest, t ∈ line) :
    Reports line env (env.elif name rest) := by
  unfold elif
  split
  · exact .reportAt env _ hname
  · rename_i top outer _
    have hstart : Reports line env
        (if top.seenElse then env.report (.afterElse .elif) name.location else env) := by
      split
      · exact .reportAt env _ hname
      · exact .of_errors_eq rfl
    dsimp only
    generalize (if top.seenElse then env.report (.afterElse .elif) name.location else env) = env'
      at hstart ⊢
    refine hstart.trans ?_
    split
    · exact .of_errors_eq rfl
    · exact (condition_reports hname hrest).trans (.of_errors_eq rfl)

theorem otherwise_reports (hname : name ∈ line) : Reports line env (env.otherwise name) := by
  unfold otherwise
  split
  · exact .reportAt env _ hname
  · split
    · exact (Reports.of_errors_eq rfl).trans (.reportAt _ _ hname)
    · exact .of_errors_eq rfl

theorem endif_reports (hname : name ∈ line) : Reports line env (env.endif name) := by
  unfold endif
  split
  · exact .reportAt env _ hname
  · exact .of_errors_eq rfl

theorem define_reports (hname : name ∈ line) (hrest : ∀ t ∈ rest, t ∈ line) :
    Reports line env (env.define name rest) := by
  obtain ⟨hnamed, hoperand⟩ := env.macroName_reports hname hrest
  unfold define
  split <;> rename_i heq <;> rw [heq] at hnamed hoperand
  · exact hnamed
  · rename_i operand env'
    refine hnamed.trans ?_
    split
    · exact .reportAt _ _ (hoperand _ rfl)
    · dsimp only
      split
      · exact .of_errors_eq rfl
      · rename_i opening more htail
        have hopening : opening ∈ line :=
          hrest _ (List.mem_of_mem_tail (htail ▸ List.mem_cons_self))
        split
        · split
          · exact .of_errors_eq rfl
          · exact .reportAt _ _ hopening
        · exact .of_errors_eq rfl

theorem undef_reports (hname : name ∈ line) (hrest : ∀ t ∈ rest, t ∈ line) :
    Reports line env (env.undef name rest) := by
  obtain ⟨hnamed, hoperand⟩ := env.macroName_reports hname hrest
  unfold undef
  split <;> rename_i heq <;> rw [heq] at hnamed hoperand
  · exact hnamed
  · refine hnamed.trans ?_
    split
    · exact .reportAt _ _ (hoperand _ rfl)
    · exact .of_errors_eq rfl

theorem userError_reports (hname : name ∈ line) (hrest : ∀ t ∈ rest, t ∈ line) :
    Reports line env (env.userError name rest) := by
  refine .report env _ (.inl ?_)
  cases hlast : rest.getLast? with
  | none => exact .token hname
  | some t =>
      have ht := hrest t (List.mem_of_getLast? hlast)
      exact (Location.JoinedFrom.token hname).join (.token ht)

theorem directive_reports (env : Environment) (hash : Token) (line : List Token) :
    Reports line env (env.directive hash line) := by
  cases line with
  | nil => exact .of_errors_eq rfl
  | cons name rest =>
      have hname : name ∈ name :: rest := List.mem_cons_self
      have hrest : ∀ t ∈ rest, t ∈ name :: rest := fun t ht => List.mem_cons_of_mem name ht
      unfold directive
      dsimp only
      split
      · split
        · exact (condition_reports hname hrest).openSection _ _ _
        · exact .of_errors_eq rfl
      · split
        · obtain ⟨hnamed, -⟩ := env.macroName_reports hname hrest
          split <;> rename_i heq <;> rw [heq] at hnamed
          · exact hnamed.openSection _ _ _
          · exact hnamed.openSection _ _ _
        · exact .of_errors_eq rfl
      · exact elif_reports hname hrest
      · exact otherwise_reports hname
      · exact endif_reports hname
      · split
        · split
          · exact define_reports hname hrest
          · exact undef_reports hname hrest
          · exact userError_reports hname hrest
          · exact .reportAt env _ hname
          · exact .of_errors_eq rfl
        · exact .of_errors_eq rfl

/-- A section is where the directive is that opened it. -/
theorem directive_sections {P : Location → Prop} {env : Environment} {hash : Token}
    {line : List Token} (h : ∀ s ∈ env.sections, P s.location)
    (hline : ∀ name ∈ line, P (hash.location.join name.location)) :
    ∀ s ∈ (env.directive hash line).sections, P s.location := by
  cases line with
  | nil => exact h
  | cons name rest =>
      cases hname : Directive.ofName name.text with
      | when | whenDefined =>
          rw [sections_directive_opens hash rest (by rw [hname]; trivial)]
          exact List.forall_mem_cons.2 ⟨hline name List.mem_cons_self, h⟩
      | elif =>
          cases hsections : env.sections with
          | nil => simp [directive, hname, elif, hsections]
          | cons top outer =>
              rw [hsections] at h
              rw [sections_directive_elif hash rest hname hsections]
              exact List.forall_mem_cons.2 (List.forall_mem_cons.1 h)
      | otherwise =>
          cases hsections : env.sections with
          | nil => simp [directive, hname, otherwise, hsections]
          | cons top outer =>
              rw [hsections] at h
              rw [sections_directive_otherwise hash rest hname hsections]
              exact List.forall_mem_cons.2 (List.forall_mem_cons.1 h)
      | endif =>
          cases hsections : env.sections with
          | nil => simp [directive, hname, endif, hsections]
          | cons top outer =>
              rw [hsections] at h
              simp only [directive, hname, endif, hsections]
              exact (List.forall_mem_cons.1 h).2
      | define | undef | error | ignored | unknown =>
          simp only [directive, hname]
          split <;> simpa only [sections_define, sections_undef, userError, sections_report] using h

end Environment

end Essl
