import Essl.Proofs.Directive.Recording
import Essl.Proofs.Directive.Renaming
import Essl.Proofs.Token.Pushback

/-!
# Lines in deselected groups

The tokens of a line that is in a deselected group and carries no directive are read and dropped. So
a shader in which the line is blank comes out as the same tokens, and nothing that the line says
reaches the directives around it.
-/

namespace Essl

/-! ## Environments -/

/-- The environment once some tokens have been read: those of lines with directives are carried out,
whatever becomes of the others. -/
def Environment.through (env : Environment) : List Token → Environment
  | [] => env
  | t :: rest =>
    if Reader.startsDirective t then
      through (env.directive t (rest.takeWhile (!·.firstInLine)))
        (rest.dropWhile (!·.firstInLine))
    else through env rest
termination_by ts => ts.length
decreasing_by
  · have := (List.dropWhile_sublist (fun t : Token => !t.firstInLine) (l := rest)).length_le
    simp
    omega
  · simp

variable (ρ : Code.Renaming)

/-- The same environment in the other texts, but for the errors. -/
structure Environment.Follows (env env' : Environment) : Prop where
  macros : env'.macros.bare = env.macros.bare
  sections : env'.sections = env.sections.map (·.rename ρ)

variable {ρ}

namespace Environment

variable {env env' : Environment}

/-- The environment without the errors found so far. -/
def quiet (env : Environment) : Environment := { env with errors := [] }

theorem after_quiet (env : Environment) : env.quiet.after env.errors = env := by
  simp [quiet, after]

theorem isActive_quiet (env : Environment) : env.quiet.isActive = env.isActive := rfl

/-- What directives do does not depend on the errors. -/
theorem quiet_directive (h : env'.quiet = env.quiet) (hash : Token) (line : List Token) :
    (env'.directive hash line).quiet = (env.directive hash line).quiet := by
  rw [← env.after_quiet, ← env'.after_quiet, h, directive_after, directive_after]
  rfl

theorem Follows.isActive (h : env.Follows ρ env') : env'.isActive = env.isActive := by
  unfold Environment.isActive
  rw [h.sections]
  cases env.sections <;> rfl

/-- A directive changes both in the same way, and finds the same errors. -/
theorem Follows.directive (h : env.Follows ρ env') (hash : Token) (line : List Token) :
    ∃ found, (env.directive hash line).errors = env.errors ++ found ∧
      (env'.directive (hash.rename ρ) (line.map (·.rename ρ))).errors =
        env'.errors ++ found.map (·.rename ρ) ∧
      (env.directive hash line).Follows ρ
        (env'.directive (hash.rename ρ) (line.map (·.rename ρ))) := by
  have henv' : (env.quiet.rename ρ env'.macros).after env'.errors = env' := by
    simp [quiet, after, Environment.rename, ← h.sections]
  have hmacros : env'.macros.bare = env.quiet.macros.bare := h.macros
  obtain ⟨table, htable, hrenamed⟩ := directive_rename ρ line hmacros hash
  have hfirst : env.directive hash line = (env.quiet.directive hash line).after env.errors := by
    rw [← directive_after, env.after_quiet]
  have hsecond : env'.directive (hash.rename ρ) (line.map (·.rename ρ)) =
      ((env.quiet.directive hash line).rename ρ table).after env'.errors := by
    rw [← hrenamed, ← directive_after, henv']
  rw [hfirst, hsecond]
  exact ⟨(env.quiet.directive hash line).errors, rfl, rfl, htable, rfl⟩

end Environment

/-! ## Readers -/

namespace Reader

/-- The errors found so far and those of what is left. -/
def allErrors (r : Reader) : List FrontError := r.env.errors ++ r.feed.errors

variable (ρ) in
/-- Two readers in the same environment, of which one has met or will meet some more errors. -/
structure Agrees (more : List FrontError) (r r' : Reader) : Prop where
  env : r.env.Follows ρ r'.env
  errors : (r.allErrors.map Located.bare).Perm (r'.allErrors.map Located.bare ++ more)

variable {more : List FrontError} {d d' : Delivery} {rest rest' : List Delivery}
  {trailing trailing' : List FrontError} {env env' : Environment}

/-- Both find the same further errors. -/
theorem Agrees.found {r r' last last' : Reader} (h : Agrees ρ more r r') (found : List FrontError)
    (henv : last.env.Follows ρ last'.env) (hlast : last.allErrors.Perm (r.allErrors ++ found))
    (hlast' : last'.allErrors.Perm (r'.allErrors ++ found.map (·.rename ρ))) :
    Agrees ρ more last last' where
  env := henv
  errors := by
    have hfound : (found.map (·.rename ρ)).map Located.bare = found.map Located.bare := by
      simp [Function.comp_def]
    have hfirst := hlast.map Located.bare
    have hsecond := hlast'.map Located.bare
    rw [List.map_append] at hfirst hsecond
    rw [hfound] at hsecond
    calc List.Perm (last.allErrors.map Located.bare)
          (r.allErrors.map Located.bare ++ found.map Located.bare) := hfirst
      List.Perm _ (r'.allErrors.map Located.bare ++ more ++ found.map Located.bare) :=
        h.errors.append_right _
      List.Perm _ (r'.allErrors.map Located.bare ++ found.map Located.bare ++ more) := by
        rw [List.append_assoc, List.append_assoc]
        exact List.perm_append_comm.append_left _
      List.Perm _ (last'.allErrors.map Located.bare ++ more) := hsecond.symm.append_right _

theorem Agrees.report {r r' : Reader} (h : Agrees ρ more r r') (e : FrontError) :
    Agrees ρ more ⟨r.feed, { r.env with errors := r.env.errors ++ [e] }⟩
      ⟨r'.feed, { r'.env with errors := r'.env.errors ++ [e.rename ρ] }⟩ := by
  refine h.found [e] ⟨h.env.macros, h.env.sections⟩ ?_ ?_
  · simp only [allErrors, List.append_assoc]
    exact List.perm_append_comm.append_left _
  · simp only [allErrors, List.append_assoc]
    exact List.perm_append_comm.append_left _

theorem allErrors_token (d : Delivery) (rest : List Delivery) (trailing : List FrontError)
    (env : Environment) :
    allErrors ⟨⟨rest, trailing⟩, { env with errors := env.errors ++ d.errors }⟩ =
      allErrors ⟨⟨d :: rest, trailing⟩, env⟩ := by
  simp [allErrors, Feed.errors_cons]

/-- A token is dropped that the other reader does not have. -/
theorem Agrees.drop {r' : Reader} (h : Agrees ρ more ⟨⟨d :: rest, trailing⟩, env⟩ r') :
    Agrees ρ more ⟨⟨rest, trailing⟩, { env with errors := env.errors ++ d.errors }⟩ r' where
  env := ⟨h.env.macros, h.env.sections⟩
  errors := by
    rw [allErrors_token]
    exact h.errors

/-- A token is passed. -/
theorem Agrees.token
    (h : Agrees ρ more ⟨⟨d :: rest, trailing⟩, env⟩ ⟨⟨d' :: rest', trailing'⟩, env'⟩) :
    Agrees ρ more ⟨⟨rest, trailing⟩, { env with errors := env.errors ++ d.errors }⟩
      ⟨⟨rest', trailing'⟩, { env' with errors := env'.errors ++ d'.errors }⟩ where
  env := ⟨h.env.macros, h.env.sections⟩
  errors := by
    rw [allErrors_token, allErrors_token]
    exact h.errors

theorem allErrors_line {found : List FrontError} {after : Environment}
    (h : after.errors =
      env.errors ++ d.errors ++ (Feed.line ⟨rest, trailing⟩).errors ++ found) :
    (allErrors ⟨(Feed.line ⟨rest, trailing⟩).rest, after⟩).Perm
      (allErrors ⟨⟨d :: rest, trailing⟩, env⟩ ++ found) := by
  have herrors := Feed.errors_line ⟨rest, trailing⟩
  simp only [allErrors, h, Feed.errors_cons, ← herrors, List.append_assoc]
  exact ((List.perm_append_comm.append_left _).append_left _).append_left _

/-- A directive is carried out. -/
theorem Agrees.directive
    (h : Agrees ρ more ⟨⟨d :: rest, trailing⟩, env⟩ ⟨⟨d' :: rest', trailing'⟩, env'⟩)
    (hd : d'.token = d.token.rename ρ)
    (hline : (Feed.line ⟨rest', trailing'⟩).tokens =
      (Feed.line ⟨rest, trailing⟩).tokens.map (·.rename ρ)) :
    let line := Feed.line ⟨rest, trailing⟩
    let line' := Feed.line ⟨rest', trailing'⟩
    Agrees ρ more
      ⟨line.rest, Environment.directive
        { env with errors := env.errors ++ d.errors ++ line.errors } d.token line.tokens⟩
      ⟨line'.rest, Environment.directive
        { env' with errors := env'.errors ++ d'.errors ++ line'.errors }
        d'.token line'.tokens⟩ := by
  intro line line'
  have henv : Environment.Follows ρ { env with errors := env.errors ++ d.errors ++ line.errors }
      { env' with errors := env'.errors ++ d'.errors ++ line'.errors } :=
    ⟨h.env.macros, h.env.sections⟩
  obtain ⟨found, hfirst, hsecond, hfollows⟩ := henv.directive d.token line.tokens
  rw [hd, hline]
  exact h.found found hfollows (allErrors_line hfirst) (allErrors_line hsecond)

/-- At the end the same conditionals are open. -/
theorem Agrees.finish
    (h : Agrees ρ more ⟨⟨[], trailing⟩, env⟩ ⟨⟨[], trailing'⟩, env'⟩) :
    Agrees ρ more ⟨.empty, finish { env with errors := env.errors ++ trailing }⟩
      ⟨.empty, finish { env' with errors := env'.errors ++ trailing' }⟩ := by
  have hsections : env'.sections = env.sections.map (·.rename ρ) := h.env.sections
  refine h.found (env.sections.reverse.map fun s => ⟨.directive .unclosedConditional, s.location⟩)
    ⟨h.env.macros, rfl⟩ (.of_eq ?_) (.of_eq ?_)
  · simp [allErrors, Reader.finish, Feed.errors, Feed.empty]
  · simp [allErrors, Reader.finish, Feed.errors, Feed.empty, hsections, Located.rename,
      Section.rename, Function.comp_def]

/-! ## Tokens that are dropped -/

/-- The tokens of a list without some that are read and dropped. -/
inductive Skips : Environment → List Token → List Token → Prop where
  | nil {env : Environment} : Skips env [] []
  | drop {env : Environment} {t : Token} {ts us : List Token} : env.isActive = false →
      startsDirective t = false → Skips env ts us → Skips env (t :: ts) us
  | token {env : Environment} {t : Token} {ts us : List Token} :
      startsDirective t = false → Skips env ts us → Skips env (t :: ts) (t :: us)
  | directive {env : Environment} {t : Token} {ts us : List Token} :
      startsDirective t = true →
      us.takeWhile (!·.firstInLine) = ts.takeWhile (!·.firstInLine) →
      Skips (env.directive t (ts.takeWhile (!·.firstInLine))) (ts.dropWhile (!·.firstInLine))
        (us.dropWhile (!·.firstInLine)) → Skips env (t :: ts) (t :: us)

theorem Skips.refl (env : Environment) (ts : List Token) : Skips env ts ts := by
  fun_induction Environment.through env ts with
  | case1 => exact .nil
  | case2 env t rest hstarts ih => exact .directive hstarts rfl ih
  | case3 env t rest hstarts ih => exact .token (Bool.eq_false_iff.2 hstarts) ih

/-- Tokens can be left out where tokens do not count, if they fill lines without directives. -/
theorem Skips.of_append {env : Environment} {before dropped behind : List Token}
    (hinactive : (env.through before).isActive = false)
    (hdropped : ∀ t ∈ dropped, startsDirective t = false)
    (hline : ∀ t ∈ (dropped ++ behind).head?, t.firstInLine = true)
    (hbehind : ∀ t ∈ behind.head?, t.firstInLine = true) :
    Skips env (before ++ (dropped ++ behind)) (before ++ behind) := by
  have hstop : ∀ t ∈ (dropped ++ behind).head?, (!t.firstInLine) = false := by simpa using hline
  have hstop' : ∀ t ∈ behind.head?, (!t.firstInLine) = false := by simpa using hbehind
  fun_induction Environment.through env before with
  | case1 env =>
      clear hline hstop
      induction dropped with
      | nil => exact .refl env behind
      | cons t dropped ih =>
          obtain ⟨ht, hdropped⟩ := List.forall_mem_cons.1 hdropped
          exact .drop hinactive ht (ih hdropped)
  | case2 env t rest hstarts ih =>
      rw [List.cons_append, List.cons_append]
      refine .directive hstarts ?_ ?_
      · rw [takeWhile_append_of_head? hstop, takeWhile_append_of_head? hstop']
      · rw [takeWhile_append_of_head? hstop, dropWhile_append_of_head? hstop,
          dropWhile_append_of_head? hstop']
        exact ih hinactive
  | case3 env t rest hstarts ih => exact .token (Bool.eq_false_iff.2 hstarts) (ih hinactive)

theorem Skips.congr {env env' : Environment} {ts us : List Token} (h : Skips env ts us)
    (henv : env'.quiet = env.quiet) : Skips env' ts us := by
  induction h generalizing env' with
  | nil => exact .nil
  | drop hinactive hstarts _ ih =>
      refine .drop ?_ hstarts (ih henv)
      rw [← Environment.isActive_quiet, henv]
      exact hinactive
  | token hstarts _ ih => exact .token hstarts (ih henv)
  | directive hstarts hline _ ih =>
      exact .directive hstarts hline (ih (Environment.quiet_directive henv _ _))

variable (ρ more) in
/-- The second reader has the tokens of the first one, less some that the first one will drop. -/
structure Follows (r r' : Reader) : Prop where
  agrees : Agrees ρ more r r'
  tokens : ∃ us, Skips r.env r.feed.tokens us ∧ r'.feed.tokens = us.map (·.rename ρ)

/-- Whatever tokens one reader drops on its way, both come to the same token. The tokens to drop are
those for the environment that the reader is in, but for the errors that it has found since. -/
theorem Skips.next_follows {start : Environment} {ts us : List Token} (h : Skips start ts us)
    {r r' : Reader} (hagrees : Agrees ρ more r r') (hstart : r.env.quiet = start.quiet)
    (hts : r.feed.tokens = ts) (hus : r'.feed.tokens = us.map (·.rename ρ)) :
    r'.next.1 = r.next.1.map (·.rename ρ) ∧ Follows ρ more r.next.2 r'.next.2 := by
  induction h generalizing r r' with
  | nil =>
      obtain ⟨⟨deliveries, trailing⟩, env⟩ := r
      obtain ⟨⟨deliveries', trailing'⟩, env'⟩ := r'
      obtain rfl : deliveries = [] := List.map_eq_nil_iff.1 hts
      obtain rfl : deliveries' = [] := List.map_eq_nil_iff.1 hus
      rw [next_nil, next_nil]
      exact ⟨rfl, hagrees.finish, [], .nil, rfl⟩
  | @drop start t ts us hinactive hstarts hrest ih =>
      obtain ⟨⟨deliveries, trailing⟩, env⟩ := r
      obtain ⟨d, rest, rfl, rfl, hts'⟩ := List.map_eq_cons_iff.1 hts
      have hactive : ¬({ env with errors := env.errors ++ d.errors } : Environment).isActive =
          true := by
        rw [← start.isActive_quiet, ← hstart] at hinactive
        exact Bool.eq_false_iff.1 hinactive
      rw [next_cons, if_neg (Bool.eq_false_iff.1 hstarts), if_neg hactive]
      exact ih hagrees.drop hstart hts' hus
  | @token start t ts us hstarts hrest ih =>
      obtain ⟨⟨deliveries, trailing⟩, env⟩ := r
      obtain ⟨⟨deliveries', trailing'⟩, env'⟩ := r'
      obtain ⟨d, rest, rfl, rfl, hts'⟩ := List.map_eq_cons_iff.1 hts
      obtain ⟨d', rest', rfl, hd', hus'⟩ := List.map_eq_cons_iff.1 hus
      have hstarts' : startsDirective d'.token = false := by rw [hd']; exact hstarts
      have hnext := hagrees.token
      have hactive := hnext.env.isActive
      rw [next_cons, next_cons, if_neg (Bool.eq_false_iff.1 hstarts),
        if_neg (Bool.eq_false_iff.1 hstarts')]
      by_cases h : ({ env with errors := env.errors ++ d.errors } : Environment).isActive = true
      · rw [if_pos h, if_pos (hactive.trans h)]
        refine ⟨congrArg some hd', hnext, us, ?_, hus'⟩
        rw [← hts'] at hrest
        exact hrest.congr hstart
      · rw [if_neg h, if_neg (hactive ▸ h)]
        exact ih hnext hstart hts' hus'
  | @directive start t ts us hstarts hline hrest ih =>
      obtain ⟨⟨deliveries, trailing⟩, env⟩ := r
      obtain ⟨⟨deliveries', trailing'⟩, env'⟩ := r'
      obtain ⟨d, rest, rfl, rfl, hts'⟩ := List.map_eq_cons_iff.1 hts
      obtain ⟨d', rest', rfl, hd', hus'⟩ := List.map_eq_cons_iff.1 hus
      have hstarts' : startsDirective d'.token = true := by rw [hd']; exact hstarts
      have htokens : Feed.tokens ⟨rest, trailing⟩ = ts := hts'
      have htokens' : Feed.tokens ⟨rest', trailing'⟩ = us.map (·.rename ρ) := hus'
      have hlines : (Feed.line ⟨rest', trailing'⟩).tokens =
          (Feed.line ⟨rest, trailing⟩).tokens.map (·.rename ρ) := by
        rw [Feed.tokens_of_line, Feed.tokens_of_line, htokens, htokens', List.takeWhile_map,
          ← hline]
        rfl
      rw [next_cons, next_cons, if_pos hstarts, if_pos hstarts']
      refine ih (hagrees.directive hd' hlines) ?_ ?_ ?_
      · rw [← htokens, ← Feed.tokens_of_line]
        have hstart' : ({ env with errors := env.errors ++ d.errors ++
            (Feed.line ⟨rest, trailing⟩).errors } : Environment).quiet = start.quiet := hstart
        exact Environment.quiet_directive hstart' _ _
      · rw [Feed.tokens_behind_line, htokens]
      · rw [Feed.tokens_behind_line, htokens', List.dropWhile_map]
        rfl

theorem Skips.length_le {start : Environment} {ts us : List Token} (h : Skips start ts us) :
    us.length ≤ ts.length := by
  induction h with
  | nil => exact le_rfl
  | drop _ _ _ ih => exact Nat.le_succ_of_le ih
  | token _ _ ih => exact Nat.succ_le_succ ih
  | @directive start t ts us _ hline _ ih =>
      have hts := congrArg List.length
        (List.takeWhile_append_dropWhile (p := fun t : Token => !t.firstInLine) (l := ts))
      have hus := congrArg List.length
        (List.takeWhile_append_dropWhile (p := fun t : Token => !t.firstInLine) (l := us))
      rw [List.length_append] at hts hus
      rw [hline] at hus
      exact Nat.succ_le_succ (by omega)

/-- Shaders of which one leaves out what the other one drops come out as the same tokens. -/
theorem supply_follows : Reader.supply.Follows ρ Reader.supply (Follows ρ more) where
  next := by
    intro r r' h
    obtain ⟨us, hskips, hus⟩ := h.tokens
    exact hskips.next_follows h.agrees rfl rfl hus
  macros h := h.agrees.env.macros
  report error h := by
    obtain ⟨us, hskips, hus⟩ := h.tokens
    exact ⟨h.agrees.report error, us, hskips.congr rfl, hus⟩

theorem size_le_of_follows {r r' : Reader} (h : Follows ρ more r r') :
    Reader.supply.size r' ≤ Reader.supply.size r := by
  obtain ⟨us, hskips, hus⟩ := h.tokens
  have hlength := hskips.length_le
  have hsize := congrArg List.length hus
  rw [List.length_map] at hsize
  rw [← hsize] at hlength
  simpa [Feed.tokens, Reader.supply] using hlength

/-- Nothing is left at the end of a shader. -/
theorem feed_of_next_none {r last : Reader} (h : r.next = (none, last)) : last.feed = .empty := by
  fun_induction Reader.next r with
  | case1 =>
      obtain ⟨-, rfl⟩ := Prod.mk.inj h
      rfl
  | case2 _ _ _ _ _ _ _ _ _ _ ih => exact ih h
  | case3 => simp at h
  | case4 _ _ _ _ _ _ _ _ _ ih => exact ih h

end Reader

/-! ## Expansion -/

theorem Queue.Expands.feed_last {q last : Queue Reader} {ts : List Token}
    (h : q.Expands ts last) : last.later.feed = .empty := by
  induction h with
  | finish hnext =>
      obtain ⟨r, hr, -⟩ := Queue.settle_finished hnext
      exact Reader.feed_of_next_none hr
  | token _ _ ih => exact ih

/-- If expansion of the one comes to an end, expansion of the other does after the same tokens. -/
theorem Queue.Expands.of_follows {more : List FrontError} {q q' last' : Queue Reader}
    {ts : List Token} (h : q'.Expands ts last') (hq : q.Follows ρ (Reader.Follows ρ more) q') :
    ∃ us last, q.Expands us last ∧ ts = us.map (·.rename ρ) ∧
      last.Follows ρ (Reader.Follows ρ more) last' := by
  induction h generalizing q with
  | finish hnext =>
      obtain ⟨rest', hnext', hrest⟩ := Queue.next_follows Reader.supply_follows
        Reader.size_le_of_follows hq (by simp [hnext])
      rw [hnext] at hnext'
      obtain ⟨hsettled, rfl⟩ := Prod.mk.inj hnext'
      have hfinished := Settled.eq_finished_of_rename ρ hsettled.symm
      exact ⟨[], _, .finish (Prod.ext hfinished rfl), rfl, hrest⟩
  | token hnext _ ih =>
      obtain ⟨rest', hnext', hrest⟩ := Queue.next_follows Reader.supply_follows
        Reader.size_le_of_follows hq (by simp [hnext])
      rw [hnext] at hnext'
      obtain ⟨hsettled, rfl⟩ := Prod.mk.inj hnext'
      obtain ⟨t, htoken, rfl⟩ := Settled.eq_token_of_rename ρ hsettled.symm
      obtain ⟨us, last, hexpands, rfl, hlast⟩ := ih hrest
      exact ⟨t :: us, last, .token (Prod.ext htoken rfl) hexpands, rfl, hlast⟩

end Essl
