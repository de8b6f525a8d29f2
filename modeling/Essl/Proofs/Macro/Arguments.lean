import Essl.Macro.Expansion

/-!
# Arguments of invocations

The arguments of a macro are what stands between its parenthesis and the one that closes it, cut at
the commas outside of inner parentheses. Counting parentheses finds the closing one if there is one,
and cutting gives the only arguments that can be joined again.
-/

namespace Essl

theorem Token.isOperator_of_ne {t : Token} {op other : Operator} (h : t.isOperator op = true)
    (hne : op ≠ other) : t.isOperator other = false := by
  rw [isOperator, eq_of_beq h]
  simpa using hne

namespace Candidate

/-! ## Balanced parentheses -/

/-- Every parenthesis has one that it belongs to. -/
inductive Balanced : List Candidate → Prop where
  | nil : Balanced []
  | plain {c : Candidate} {rest : List Candidate} : c.token.isOperator .openParen = false →
      c.token.isOperator .closeParen = false → Balanced rest → Balanced (c :: rest)
  | group {opening closing : Candidate} {inner rest : List Candidate} :
      opening.token.isOperator .openParen = true → Balanced inner →
        closing.token.isOperator .closeParen = true → Balanced rest →
          Balanced (opening :: (inner ++ closing :: rest))

/-- So many closing parentheses belong to earlier ones, and all others to each other. -/
def Closes : Nat → List Candidate → Prop
  | 0, cs => Balanced cs
  | depth + 1, cs => ∃ inner closing rest, cs = inner ++ closing :: rest ∧ Balanced inner ∧
      closing.token.isOperator .closeParen = true ∧ Closes depth rest

/-- How deep in parentheses one is after a token. -/
def depthAfter (c : Candidate) (depth : Nat) : Nat :=
  if c.token.isOperator .openParen then depth + 1
  else if c.token.isOperator .closeParen then depth - 1
  else depth

variable {c opening closing : Candidate} {cs inner rest : List Candidate} {depth : Nat}

theorem depthAfter_opening (h : c.token.isOperator .openParen = true) (depth : Nat) :
    c.depthAfter depth = depth + 1 := by simp [depthAfter, h]

theorem depthAfter_closing (h : c.token.isOperator .closeParen = true) (depth : Nat) :
    c.depthAfter (depth + 1) = depth := by
  have hopen : c.token.isOperator .openParen = false := Token.isOperator_of_ne h (by decide)
  simp [depthAfter, h, hopen]

theorem depthAfter_plain (hopen : c.token.isOperator .openParen = false)
    (hclose : c.token.isOperator .closeParen = false) (depth : Nat) :
    c.depthAfter depth = depth := by simp [depthAfter, hopen, hclose]

theorem Balanced.not_closing (h : Balanced (c :: rest)) :
    c.token.isOperator .closeParen = false := by
  cases h with
  | plain _ hclose _ => exact hclose
  | group hopen _ _ _ => exact Token.isOperator_of_ne hopen (by decide)

/-- What comes behind an opening parenthesis closes it. -/
theorem balanced_opening_iff (h : opening.token.isOperator .openParen = true) :
    Balanced (opening :: rest) ↔ Closes 1 rest := by
  constructor
  · intro hbalanced
    cases hbalanced with
    | plain hopen _ _ => cases h.symm.trans hopen
    | group _ hinner hclose hrest => exact ⟨_, _, _, rfl, hinner, hclose, hrest⟩
  · rintro ⟨inner, closing, after, rfl, hinner, hclose, hafter⟩
    exact .group h hinner hclose hafter

theorem balanced_plain_iff (hopen : c.token.isOperator .openParen = false)
    (hclose : c.token.isOperator .closeParen = false) : Balanced (c :: rest) ↔ Balanced rest := by
  constructor
  · intro hbalanced
    cases hbalanced with
    | plain _ _ hrest => exact hrest
    | group h _ _ _ => cases h.symm.trans hopen
  · exact .plain hopen hclose

theorem closes_closing_iff (h : closing.token.isOperator .closeParen = true) :
    Closes (depth + 1) (closing :: rest) ↔ Closes depth rest := by
  constructor
  · rintro ⟨inner, closing', after, heq, hinner, -, hafter⟩
    cases inner with
    | nil =>
        cases heq
        exact hafter
    | cons d inner =>
        cases heq
        cases h.symm.trans hinner.not_closing
  · exact fun hrest => ⟨[], closing, rest, rfl, .nil, h, hrest⟩

theorem closes_plain_iff (hopen : c.token.isOperator .openParen = false)
    (hclose : c.token.isOperator .closeParen = false) :
    Closes depth (c :: rest) ↔ Closes depth rest := by
  cases depth with
  | zero => exact balanced_plain_iff hopen hclose
  | succ depth =>
      constructor
      · rintro ⟨inner, closing, after, heq, hinner, hclosing, hafter⟩
        cases inner with
        | nil =>
            cases heq
            cases hclosing.symm.trans hclose
        | cons d inner =>
            cases heq
            exact ⟨inner, closing, after, rfl, (balanced_plain_iff hopen hclose).1 hinner,
              hclosing, hafter⟩
      · rintro ⟨inner, closing, after, rfl, hinner, hclosing, hafter⟩
        exact ⟨c :: inner, closing, after, rfl, .plain hopen hclose hinner, hclosing, hafter⟩

theorem closes_opening_iff (h : opening.token.isOperator .openParen = true) :
    Closes depth (opening :: rest) ↔ Closes (depth + 1) rest := by
  cases depth with
  | zero => exact balanced_opening_iff h
  | succ depth =>
      constructor
      · rintro ⟨inner, closing, after, heq, hinner, hclosing, hafter⟩
        cases inner with
        | nil =>
            cases heq
            cases h.symm.trans (Token.isOperator_of_ne hclosing (by decide))
        | cons d inner =>
            cases heq
            obtain ⟨inside, own, between, rfl, hinside, hown, hbetween⟩ :=
              (balanced_opening_iff h).1 hinner
            exact ⟨inside, own, between ++ closing :: after, by simp, hinside, hown,
              between, closing, after, rfl, hbetween, hclosing, hafter⟩
      · rintro ⟨inside, own, _, rfl, hinside, hown, between, closing, after, rfl, hbetween, hrest⟩
        exact ⟨opening :: (inside ++ own :: between), closing, after, by simp,
          .group h hinside hown hbetween, hrest⟩

/-- Going past a token, one is as deep in parentheses as it says. -/
theorem closes_cons_iff (h : ¬(c.token.isOperator .closeParen = true ∧ depth = 0)) :
    Closes depth (c :: rest) ↔ Closes (c.depthAfter depth) rest := by
  by_cases hopen : c.token.isOperator .openParen = true
  · rw [depthAfter_opening hopen, closes_opening_iff hopen]
  · rw [Bool.not_eq_true] at hopen
    by_cases hclose : c.token.isOperator .closeParen = true
    · obtain ⟨depth, rfl⟩ := Nat.exists_eq_succ_of_ne_zero fun hzero => h ⟨hclose, hzero⟩
      rw [depthAfter_closing hclose, closes_closing_iff hclose]
    · rw [Bool.not_eq_true] at hclose
      rw [depthAfter_plain hopen hclose, closes_plain_iff hopen hclose]

/-- What is balanced can be left out in front. -/
theorem Balanced.closes_append_iff (h : Balanced cs) :
    Closes depth (cs ++ rest) ↔ Closes depth rest := by
  induction h generalizing depth rest with
  | nil => rfl
  | plain hopen hclose _ ih => rw [List.cons_append, closes_plain_iff hopen hclose, ih]
  | group hopen _ hclose _ ihInner ihRest =>
      rw [List.cons_append, List.append_assoc, List.cons_append, closes_opening_iff hopen, ihInner,
        closes_closing_iff hclose, ihRest]

theorem Balanced.append_iff (h : Balanced cs) : Balanced (cs ++ rest) ↔ Balanced rest := by
  change Closes 0 (cs ++ rest) ↔ Closes 0 rest
  exact h.closes_append_iff

theorem closes_nil_iff : Closes depth [] ↔ depth = 0 := by
  cases depth with
  | zero => exact ⟨fun _ => rfl, fun _ => .nil⟩
  | succ depth =>
      constructor
      · rintro ⟨inner, closing, rest, heq, -⟩
        simp at heq
      · intro h
        cases h

end Candidate

namespace Queue

open Candidate

variable {σ : Type} (S : Supply σ)

/-- All tokens that can be pulled. -/
def unexpanded (q : Queue σ) : List Candidate :=
  match _h : q.pull S with
  | (none, _) => []
  | (some c, q') => c :: unexpanded q'
termination_by q.size S
decreasing_by exact size_lt_of_pull _h

/-- What is left after so many tokens are pulled. -/
def after : Nat → Queue σ → Queue σ
  | 0, q => q
  | count + 1, q => after count (q.pull S).2

variable {S} {q : Queue σ}

theorem pull_of_unexpanded_nil (h : q.unexpanded S = []) : (q.pull S).1 = none := by
  rw [unexpanded] at h
  split at h
  · rename_i hpull
    rw [hpull]
  · cases h

theorem pull_of_unexpanded_cons {c : Candidate} {rest : List Candidate}
    (h : q.unexpanded S = c :: rest) :
    ∃ q', q.pull S = (some c, q') ∧ q'.unexpanded S = rest := by
  rw [unexpanded] at h
  split at h
  · cases h
  · rename_i c' q' hpull
    cases h
    exact ⟨q', hpull, rfl⟩

theorem unexpanded_after {taken rest : List Candidate} (h : q.unexpanded S = taken ++ rest) :
    (q.after S taken.length).unexpanded S = rest := by
  induction taken generalizing q with
  | nil => exact h
  | cons c taken ih =>
      obtain ⟨q', hpull, hrest⟩ := pull_of_unexpanded_cons h
      rw [List.length_cons, after, hpull]
      exact ih hrest

/-- One token of the search for the closing parenthesis. -/
theorem untilClosing_of_pull {depth : Nat} {c : Candidate} {q' : Queue σ}
    (hpull : q.pull S = (some c, q')) (h : ¬(c.token.isOperator .closeParen = true ∧ depth = 0)) :
    q.untilClosing S depth =
      ((q'.untilClosing S (c.depthAfter depth)).1.map fun found => (c :: found.1, found.2),
        (q'.untilClosing S (c.depthAfter depth)).2) := by
  rw [untilClosing, hpull]
  have hnot : ¬(c.token.isOperator .closeParen && depth == 0) = true := by simpa using h
  dsimp only
  rw [if_neg hnot]
  rfl

theorem untilClosing_found {depth : Nat} {inside rest : List Candidate} {closing : Candidate}
    (hinside : Closes depth inside) (hclosing : closing.token.isOperator .closeParen = true)
    (h : q.unexpanded S = inside ++ closing :: rest) :
    q.untilClosing S depth = (some (inside, closing), q.after S (inside.length + 1)) := by
  induction inside generalizing q depth with
  | nil =>
      obtain ⟨q', hpull, -⟩ := pull_of_unexpanded_cons h
      obtain rfl := closes_nil_iff.1 hinside
      rw [untilClosing, hpull]
      simp [hclosing, after, hpull]
  | cons c inside ih =>
      obtain ⟨q', hpull, hrest⟩ := pull_of_unexpanded_cons h
      have hnot : ¬(c.token.isOperator .closeParen = true ∧ depth = 0) := by
        rintro ⟨hc, rfl⟩
        cases hc.symm.trans (Balanced.not_closing hinside)
      rw [untilClosing_of_pull hpull hnot, ih ((closes_cons_iff hnot).1 hinside) hrest]
      simp [after, hpull]

theorem untilClosing_unclosed {depth : Nat}
    (h : ¬ ∃ inside closing rest, q.unexpanded S = inside ++ closing :: rest ∧
      Closes depth inside ∧ closing.token.isOperator .closeParen = true) :
    q.untilClosing S depth = (none, q.after S ((q.unexpanded S).length + 1)) := by
  generalize hcs : q.unexpanded S = cs at h
  induction cs generalizing q depth with
  | nil =>
      have hpull := pull_of_unexpanded_nil hcs
      rw [untilClosing]
      split
      · rename_i hnone
        simp [after, hnone]
      · rename_i hsome
        rw [hsome] at hpull
        cases hpull
  | cons c cs ih =>
      obtain ⟨q', hpull, hrest⟩ := pull_of_unexpanded_cons hcs
      have hnot : ¬(c.token.isOperator .closeParen = true ∧ depth = 0) := by
        rintro ⟨hc, rfl⟩
        exact h ⟨[], c, cs, rfl, .nil, hc⟩
      have hnone : ¬∃ inside closing rest, cs = inside ++ closing :: rest ∧
          Closes (c.depthAfter depth) inside ∧ closing.token.isOperator .closeParen = true := by
        rintro ⟨inside, closing, rest, rfl, hinside, hclosing⟩
        exact h ⟨c :: inside, closing, rest, rfl, (closes_cons_iff hnot).2 hinside, hclosing⟩
      rw [untilClosing_of_pull hpull hnot, ih hrest hnone]
      simp [after, hpull]

end Queue

/-! ## Cutting at commas -/

namespace Candidate

variable {c opening closing : Candidate} {cs inner rest argument inside : List Candidate}
  {arguments : List (List Candidate)} {depth : Nat}

/-- The arguments, in their order and with commas between them, are the sequence. -/
inductive JoinedByCommas : List (List Candidate) → List Candidate → Prop where
  | last {argument : List Candidate} : JoinedByCommas [argument] argument
  | cons {argument inside : List Candidate} {arguments : List (List Candidate)}
      {comma : Candidate} : comma.token.isOperator .comma = true →
        JoinedByCommas arguments inside →
          JoinedByCommas (argument :: arguments) (argument ++ comma :: inside)

/-- Parentheses are balanced, and each comma is between two that belong together. -/
structure IsArgument (argument : List Candidate) : Prop where
  balanced : Balanced argument
  commas_inside : ∀ before comma behind, argument = before ++ comma :: behind →
    comma.token.isOperator .comma = true → ¬Balanced before

/-- The arguments between the parentheses of an invocation. -/
structure AreArguments (arguments : List (List Candidate)) (inside : List Candidate) : Prop where
  joined : JoinedByCommas arguments inside
  each : ∀ argument ∈ arguments, IsArgument argument

/-- Puts a sequence in front of the first argument. -/
def joinFirst (cs : List Candidate) : List (List Candidate) → List (List Candidate)
  | [] => [cs]
  | first :: others => (cs ++ first) :: others

theorem joinFirst_nil (h : arguments ≠ []) : joinFirst [] arguments = arguments := by
  cases arguments with
  | nil => cases h rfl
  | cons first others => rfl

theorem joinFirst_append (cs inner : List Candidate) :
    joinFirst cs (joinFirst inner arguments) = joinFirst (cs ++ inner) arguments := by
  cases arguments with
  | nil => rfl
  | cons first others => simp [joinFirst]

theorem splitArguments_ne_nil (depth : Nat) (cs : List Candidate) :
    splitArguments depth cs ≠ [] := by
  cases cs with
  | nil => simp [splitArguments]
  | cons c rest =>
      rw [splitArguments]
      split
      · simp
      · dsimp only
        split <;> simp

theorem splitArguments_comma (h : c.token.isOperator .comma = true) :
    splitArguments 0 (c :: rest) = [] :: splitArguments 0 rest := by
  simp [splitArguments, h]

theorem splitArguments_cons (h : ¬(c.token.isOperator .comma = true ∧ depth = 0)) :
    splitArguments depth (c :: rest) =
      joinFirst [c] (splitArguments (c.depthAfter depth) rest) := by
  have hnot : ¬(c.token.isOperator .comma && depth == 0) = true := by simpa using h
  rw [splitArguments, if_neg hnot]
  unfold depthAfter joinFirst
  rfl

/-- Inside of parentheses nothing is cut. -/
theorem Balanced.splitArguments_inside (h : Balanced inner) :
    splitArguments (depth + 1) (inner ++ rest) =
      joinFirst inner (splitArguments (depth + 1) rest) := by
  induction h generalizing depth rest with
  | nil => rw [joinFirst_nil (splitArguments_ne_nil _ _), List.nil_append]
  | plain hopen hclose _ ih =>
      rw [List.cons_append, splitArguments_cons (by simp), depthAfter_plain hopen hclose, ih,
        joinFirst_append, List.singleton_append]
  | @group opening closing inner rest' hopen _ hclose _ ihInner ihRest =>
      rw [List.cons_append, splitArguments_cons (by simp), depthAfter_opening hopen,
        List.append_assoc, ihInner, List.cons_append, splitArguments_cons (by simp),
        depthAfter_closing hclose, ihRest, joinFirst_append, joinFirst_append, joinFirst_append]
      simp

/-! ### Arguments -/

theorem Balanced.append (h : Balanced cs) (hrest : Balanced rest) : Balanced (cs ++ rest) :=
  h.append_iff.2 hrest

/-- What closes an earlier parenthesis is not the beginning of something balanced. -/
theorem Balanced.not_closes (h : Balanced (cs ++ rest)) : ¬Closes 1 cs := by
  rintro ⟨inner, closing, after, rfl, hinner, hclosing, -⟩
  rw [List.append_assoc, List.cons_append] at h
  have hbehind : Balanced (closing :: (after ++ rest)) :=
    hinner.append_iff.1 h
  cases hclosing.symm.trans hbehind.not_closing

theorem isArgument_nil : IsArgument [] := ⟨.nil, by simp⟩

theorem isArgument_plain (hopen : c.token.isOperator .openParen = false)
    (hclose : c.token.isOperator .closeParen = false)
    (hcomma : c.token.isOperator .comma = false) : IsArgument [c] := by
  refine ⟨.plain hopen hclose .nil, ?_⟩
  rintro before comma behind heq hc -
  cases before with
  | nil =>
      cases heq
      cases hc.symm.trans hcomma
  | cons d before => simp at heq

theorem isArgument_group (hopen : opening.token.isOperator .openParen = true)
    (hinner : Balanced inner) (hclose : closing.token.isOperator .closeParen = true) :
    IsArgument (opening :: (inner ++ [closing])) := by
  refine ⟨.group hopen hinner hclose .nil, ?_⟩
  rintro before comma behind heq hc hbefore
  cases before with
  | nil =>
      cases heq
      cases hc.symm.trans (Token.isOperator_of_ne hopen (by decide))
  | cons d before =>
      rw [List.cons_append, List.cons.injEq] at heq
      obtain ⟨rfl, heq⟩ := heq
      -- The comma is not the closing parenthesis, so what is in front of it begins the inside.
      rcases List.append_eq_append_iff.1 heq with ⟨between, -, hclosing⟩ | ⟨between, rfl, -⟩
      · cases between with
        | nil =>
            cases hclosing
            cases hc.symm.trans (Token.isOperator_of_ne hclose (by decide))
        | cons e between => simp at hclosing
      · exact hinner.not_closes ((balanced_opening_iff hopen).1 hbefore)

theorem IsArgument.append (h : IsArgument cs) (hrest : IsArgument rest) :
    IsArgument (cs ++ rest) := by
  refine ⟨h.balanced.append hrest.balanced, ?_⟩
  intro before comma behind heq hc hbefore
  rcases List.append_eq_append_iff.1 heq with ⟨between, rfl, hbehind⟩ | ⟨between, hcs, hbehind⟩
  · exact hrest.commas_inside between comma behind hbehind hc
      (h.balanced.append_iff.1 hbefore)
  · cases between with
    | nil =>
        rw [List.nil_append] at hbehind
        exact hrest.commas_inside [] comma behind hbehind.symm hc .nil
    | cons d between =>
        cases hbehind
        exact h.commas_inside before comma between hcs hc hbefore

theorem JoinedByCommas.joinFirst (h : JoinedByCommas arguments inside) (front : List Candidate) :
    JoinedByCommas (joinFirst front arguments) (front ++ inside) := by
  cases h with
  | last => exact .last
  | cons hcomma hrest =>
      rw [← List.append_assoc]
      exact .cons hcomma hrest

theorem AreArguments.joinFirst {front : List Candidate} (h : AreArguments arguments inside)
    (hfront : IsArgument front) : AreArguments (joinFirst front arguments) (front ++ inside) := by
  refine ⟨h.joined.joinFirst front, ?_⟩
  have heach := h.each
  cases arguments with
  | nil => exact fun argument hmem => by cases List.mem_singleton.1 hmem; exact hfront
  | cons first others =>
      rintro argument (_ | ⟨_, hmem⟩)
      · exact hfront.append (heach first List.mem_cons_self)
      · exact heach argument (List.mem_cons_of_mem _ hmem)

/-- Whatever is balanced consists of arguments. -/
theorem Balanced.exists_arguments (h : Balanced inside) :
    ∃ arguments, AreArguments arguments inside := by
  induction h with
  | nil => exact ⟨[[]], .last, by simp [isArgument_nil]⟩
  | @plain c inside hopen hclose _ ih =>
      obtain ⟨arguments, hrest⟩ := ih
      by_cases hcomma : c.token.isOperator .comma = true
      · refine ⟨[] :: arguments, .cons hcomma hrest.joined, ?_⟩
        rintro argument (_ | ⟨_, hmem⟩)
        · exact isArgument_nil
        · exact hrest.each argument hmem
      · exact ⟨_, hrest.joinFirst (isArgument_plain hopen hclose (by simpa using hcomma))⟩
  | @group opening closing inner inside hopen hinner hclose _ _ ih =>
      obtain ⟨arguments, hrest⟩ := ih
      have hgroup := hrest.joinFirst (isArgument_group hopen hinner hclose)
      exact ⟨_, by simpa using hgroup⟩

/-- Nothing inside of an argument is cut. -/
theorem IsArgument.splitArguments_append (h : IsArgument argument) (rest : List Candidate) :
    splitArguments 0 (argument ++ rest) = joinFirst argument (splitArguments 0 rest) := by
  obtain ⟨hbalanced, hcommas⟩ := h
  induction hbalanced with
  | nil => rw [joinFirst_nil (splitArguments_ne_nil _ _), List.nil_append]
  | @plain c argument hopen hclose _ ih =>
      have hcomma : ¬(c.token.isOperator .comma = true ∧ 0 = 0) :=
        fun h => hcommas [] c argument rfl h.1 .nil
      have hrest := ih fun before comma behind heq hc hbefore =>
        hcommas (c :: before) comma behind (by rw [heq]; rfl) hc (.plain hopen hclose hbefore)
      rw [List.cons_append, splitArguments_cons hcomma, depthAfter_plain hopen hclose, hrest,
        joinFirst_append, List.singleton_append]
  | @group opening closing inner argument hopen hinner hclose _ _ ih =>
      have hcomma : ¬(opening.token.isOperator .comma = true ∧ 0 = 0) :=
        fun h => hcommas [] opening _ rfl h.1 .nil
      have hrest := ih fun before comma behind heq hc hbefore =>
        hcommas (opening :: (inner ++ closing :: before)) comma behind (by simp [heq]) hc
          (.group hopen hinner hclose hbefore)
      rw [List.cons_append, splitArguments_cons hcomma, depthAfter_opening hopen,
        List.append_assoc, hinner.splitArguments_inside, List.cons_append,
        splitArguments_cons (by simp), depthAfter_closing hclose, hrest, joinFirst_append,
        joinFirst_append, joinFirst_append]
      simp

/-- Cutting finds the arguments, so there is no other way to read them. -/
theorem AreArguments.eq_splitArguments (h : AreArguments arguments inside) :
    arguments = splitArguments 0 inside := by
  obtain ⟨hjoined, heach⟩ := h
  induction hjoined with
  | @last argument =>
      have hlast := (heach argument List.mem_cons_self).splitArguments_append []
      simpa [splitArguments, Candidate.joinFirst] using hlast.symm
  | @cons argument inside arguments comma hcomma _ ih =>
      rw [(heach argument List.mem_cons_self).splitArguments_append, splitArguments_comma hcomma,
        ← ih fun a ha => heach a (List.mem_cons_of_mem _ ha)]
      simp [Candidate.joinFirst]

theorem Balanced.areArguments_splitArguments (h : Balanced inside) :
    AreArguments (splitArguments 0 inside) inside := by
  obtain ⟨arguments, harguments⟩ := h.exists_arguments
  rwa [← harguments.eq_splitArguments]

end Candidate

/-! ## Invocations -/

namespace Queue

open Candidate

variable {σ : Type} (S : Supply σ)

/-- The parenthesis that closes an invocation, what is in front of it, and what is behind. -/
structure Closing (q : Queue σ) (inside : List Candidate) (closing : Candidate)
    (rest : List Candidate) : Prop where
  tokens : q.unexpanded S = inside ++ closing :: rest
  balanced : Balanced inside
  closes : closing.token.isOperator .closeParen = true

/-- Collecting arguments succeeds where a parenthesis closes the invocation. It then goes right
past that parenthesis, and the tokens in front of it are the arguments and the commas between
them. Without such a parenthesis all is used up, and one error reports it. -/
theorem arguments_exact (q : Queue σ) (name : Token) :
    (∀ inside closing rest, q.Closing S inside closing rest →
      ∃ arguments,
        q.arguments S name = (some (arguments, closing), q.after S (inside.length + 1)) ∧
        (q.after S (inside.length + 1)).unexpanded S = rest ∧
        AreArguments arguments inside ∧ ∀ others, AreArguments others inside → others = arguments) ∧
    ((¬∃ inside closing rest, q.Closing S inside closing rest) →
      (q.after S (q.unexpanded S).length).unexpanded S = [] ∧
      q.arguments S name = (none, (q.after S ((q.unexpanded S).length + 1)).report S
        (.unclosedInvocation name.text) name.location)) := by
  constructor
  · rintro inside closing rest ⟨htokens, hbalanced, hcloses⟩
    refine ⟨splitArguments 0 inside, ?_, ?_, hbalanced.areArguments_splitArguments,
      fun others h => h.eq_splitArguments⟩
    · have hfound : q.untilClosing S 0 =
          (some (inside, closing), q.after S (inside.length + 1)) :=
        untilClosing_found hbalanced hcloses htokens
      rw [arguments, hfound]
    · have hpast : q.unexpanded S = (inside ++ [closing]) ++ rest := by simpa using htokens
      simpa using unexpanded_after hpast
  · intro hnone
    have hunclosed : q.untilClosing S 0 = (none, q.after S ((q.unexpanded S).length + 1)) :=
      untilClosing_unclosed fun ⟨inside, closing, rest, htokens, hinside, hcloses⟩ =>
        hnone ⟨inside, closing, rest, htokens, hinside, hcloses⟩
    exact ⟨unexpanded_after (List.append_nil _).symm, by rw [arguments, hunclosed]⟩

/-- In a directive, what can be pulled ends with the line. -/
theorem unexpanded_lineSupply (q : Queue (MacroTable × List FrontError)) :
    q.unexpanded lineSupply = q.waiting := by
  obtain ⟨waiting, later⟩ := q
  induction waiting with
  | nil =>
      rw [unexpanded]
      rfl
  | cons c waiting ih =>
      rw [unexpanded]
      exact congrArg (c :: ·) ih

/-- A directive line goes on with `1, (2, 3)) 4`. -/
theorem arguments_exact_nested :
    let token : TokenKind → String → Candidate := fun kind text =>
      .ofToken ⟨kind, text, .whole text, false, false⟩
    let one := token .intConstant "1"
    let group := [token (.operator .openParen) "(", token .intConstant "2",
      token (.operator .comma) ",", token .intConstant "3", token (.operator .closeParen) ")"]
    let closing := token (.operator .closeParen) ")"
    let four := token .intConstant "4"
    let inside := one :: token (.operator .comma) "," :: group
    let q : Queue (MacroTable × List FrontError) := ⟨inside ++ [closing, four], (.empty, [])⟩
    q.Closing lineSupply inside closing [four] ∧
      ∃ rest, q.arguments lineSupply one.token = (some ([[one], group], closing), rest) ∧
        rest.unexpanded lineSupply = [four] := by
  intro token one group closing four inside q
  have hgroup : Balanced group := .group rfl (.plain rfl rfl (.plain rfl rfl (.plain rfl rfl .nil)))
    rfl .nil
  have hclosing : q.Closing lineSupply inside closing [four] :=
    ⟨unexpanded_lineSupply q, .plain rfl rfl (.plain rfl rfl hgroup), rfl⟩
  obtain ⟨arguments, hcollected, hrest, -, hunique⟩ :=
    (arguments_exact lineSupply q one.token).1 inside closing [four] hclosing
  have harguments : AreArguments [[one], group] inside := by
    refine ⟨.cons rfl .last, ?_⟩
    simp only [List.forall_mem_cons]
    exact ⟨isArgument_plain rfl rfl rfl, @isArgument_group _ _ [_, _, _] rfl
      (.plain rfl rfl (.plain rfl rfl (.plain rfl rfl .nil))) rfl, by simp⟩
  cases hunique _ harguments
  exact ⟨hclosing, _, hcollected, hrest⟩

end Queue

end Essl
