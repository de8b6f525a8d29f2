import Essl.Preprocessor
import Mathlib.Algebra.Order.BigOperators.Group.List
import Mathlib.Algebra.Order.Ring.Nat
import Mathlib.Algebra.Group.Action.Defs

/-!
# Macros without parameters

Expansion takes tokens from the front of a queue and puts replacement lists back there. For macros
without parameters this comes to a recursive definition: a name stands for what the tokens of its
replacement list stand for, with the name itself hidden from them. There is always an end to it,
because a macro that is hidden from a token stays hidden from all that comes out of the token.
-/

namespace Essl

/-- What replaces a name: tokens at the place of the name, of which the first looks like it. -/
def Token.replacedBy (name : Token) : List Token → List Token
  | [] => []
  | first :: rest =>
    { first with
      location := name.location
      firstInLine := name.firstInLine
      afterSpace := name.afterSpace } :: rest.map fun t => { t with location := name.location }

namespace Token

variable (name : Token)

@[simp] theorem length_replacedBy (body : List Token) :
    (name.replacedBy body).length = body.length := by
  cases body <;> simp [replacedBy]

theorem location_of_mem_replacedBy {body : List Token} {t : Token}
    (h : t ∈ name.replacedBy body) : t.location = name.location := by
  cases body with
  | nil => simp [replacedBy] at h
  | cons first rest =>
      rcases List.mem_cons.1 h with rfl | h
      · rfl
      · obtain ⟨u, -, rfl⟩ := List.mem_map.1 h
        rfl

end Token

namespace MacroTable

/-- No macro of the table takes arguments. -/
def ObjectLike (table : MacroTable) : Prop := ∀ m ∈ table.entries, m.parameters = none

/-- How many definitions have a name that is not hidden. -/
def visible (table : MacroTable) (hidden : List String) : Nat :=
  (table.entries.filter (·.name ∉ hidden)).length

variable {table : MacroTable} {hidden : List String} {name : String} {m : MacroDef}

theorem mem_of_find? (h : table.find? name = some m) : m ∈ table.entries :=
  List.mem_of_find?_eq_some h

theorem name_of_find? (h : table.find? name = some m) : m.name = name := by
  simpa using List.find?_some h

theorem visible_le (table : MacroTable) (hidden : List String) :
    table.visible hidden ≤ table.entries.length :=
  List.length_filter_le _ _

/-- Hiding a macro leaves fewer that are visible. -/
theorem visible_lt (h : table.find? name = some m) (hname : name ∉ hidden) :
    table.visible (hidden ++ [name]) < table.visible hidden := by
  have hmem : m ∈ table.entries.filter (·.name ∉ hidden) := by
    simpa [name_of_find? h, hname] using mem_of_find? h
  have hfilter : table.entries.filter (·.name ∉ hidden ++ [name]) =
      (table.entries.filter (·.name ∉ hidden)).filter (·.name != name) := by
    rw [List.filter_filter]
    congr 1
    funext n
    by_cases hn : n.name = name <;> simp [hn]
  rw [visible, visible, hfilter]
  exact List.length_filter_lt_length_iff_exists.2 ⟨m, hmem, by simp [name_of_find? h]⟩

theorem length_body_le (h : table.find? name = some m) : m.body.length ≤ table.bodySize := by
  rw [bodySize, List.length_flatMap]
  exact List.le_sum_of_mem (List.mem_map.2 ⟨m, mem_of_find? h, rfl⟩)

/-- The tokens that a token stands for, when it comes out of the macros that are hidden from it. -/
def expansion (table : MacroTable) (hidden : List String) (t : Token) : List Token :=
  if t.kind ≠ .identifier then [t]
  else if _hhidden : t.text ∈ hidden then [t]
  else if t.text = "__LINE__" then [lineNumber t]
  else
    match _hfind : table.find? t.text with
    | none => [t]
    | some m => (t.replacedBy m.body).flatMap fun u => table.expansion (hidden ++ [t.text]) u
termination_by table.visible hidden
decreasing_by exact visible_lt _hfind _hhidden

section

variable {t : Token}

theorem expansion_of_not_identifier (h : t.kind ≠ .identifier) :
    table.expansion hidden t = [t] := by
  rw [expansion, if_pos h]

theorem expansion_of_hidden (h : t.text ∈ hidden) : table.expansion hidden t = [t] := by
  rw [expansion, dif_pos h, ite_self]

theorem expansion_line (ht : t.kind = .identifier) (hhidden : t.text ∉ hidden)
    (h : t.text = "__LINE__") : table.expansion hidden t = [lineNumber t] := by
  rw [expansion, if_neg (not_not_intro ht), dif_neg hhidden, if_pos h]

theorem expansion_undefined (hline : t.text ≠ "__LINE__") (h : table.find? t.text = none) :
    table.expansion hidden t = [t] := by
  rw [expansion, if_neg hline]
  split
  · rfl
  · split
    · rfl
    · split
      · rfl
      · rename_i hfind
        rw [h] at hfind
        cases hfind

theorem expansion_macro (ht : t.kind = .identifier) (hhidden : t.text ∉ hidden)
    (hline : t.text ≠ "__LINE__") (h : table.find? t.text = some m) :
    table.expansion hidden t =
      (t.replacedBy m.body).flatMap (table.expansion (hidden ++ [t.text])) := by
  rw [expansion, if_neg (not_not_intro ht), dif_neg hhidden, if_neg hline]
  split
  · rename_i hfind
    rw [h] at hfind
    cases hfind
  · rename_i n hfind
    rw [Option.some.inj (h.symm.trans hfind)]

end

/-- All of an expansion is where the name is that it comes from. -/
theorem location_of_mem_expansion (t : Token) :
    ∀ u ∈ table.expansion hidden t, u.location = t.location := by
  fun_induction expansion table hidden t with
  | case1 => simp
  | case2 => simp
  | case3 => simp [lineNumber]
  | case4 => simp
  | case5 hidden t _ _ _ m _ ih =>
      intro u hu
      obtain ⟨v, hv, hu⟩ := List.mem_flatMap.1 hu
      exact (ih v u hu).trans (t.location_of_mem_replacedBy hv)

/-- Bounds the number of steps to expand a token. A replacement list has fewer tokens than the
base, and each of them has one more macro hidden from it than the name it replaces. -/
def weight (table : MacroTable) (c : Candidate) : Nat :=
  if c.token.kind = .identifier then (table.bodySize + 2) ^ (table.visible c.hidden + 1) else 1

theorem weight_pos (table : MacroTable) (c : Candidate) : 0 < table.weight c := by
  unfold weight
  split
  · exact Nat.pow_pos (by omega)
  · exact Nat.one_pos

theorem weight_le (table : MacroTable) (c : Candidate) :
    table.weight c ≤ (table.bodySize + 2) ^ (table.visible c.hidden + 1) := by
  unfold weight
  split
  · exact Nat.le_refl _
  · exact Nat.pow_pos (by omega)

/-- What waiting tokens stand for. -/
def expansions (table : MacroTable) (cs : List Candidate) : List Token :=
  cs.flatMap fun c => table.expansion c.hidden c.token

/-- Bounds the number of steps to expand waiting tokens. -/
def weights (table : MacroTable) (cs : List Candidate) : Nat := (cs.map table.weight).sum

variable (table) in
@[simp] theorem weights_nil : table.weights [] = 0 := rfl

variable (table) in
@[simp] theorem weights_cons (c : Candidate) (cs : List Candidate) :
    table.weights (c :: cs) = table.weight c + table.weights cs := by
  simp [weights]

variable (table) in
@[simp] theorem weights_append (cs ds : List Candidate) :
    table.weights (cs ++ ds) = table.weights cs + table.weights ds := by
  simp [weights]

theorem weights_le_mul {cs : List Candidate} {bound : Nat}
    (h : ∀ c ∈ cs, table.weight c ≤ bound) : table.weights cs ≤ cs.length * bound := by
  have hsum := List.sum_le_card_nsmul (cs.map table.weight) bound (by simpa using h)
  simpa [weights] using hsum

variable (table) in
theorem weights_replacement_lt {c : Candidate} (hc : c.token.kind = .identifier)
    (hfind : table.find? c.token.text = some m) (hhidden : c.token.text ∉ c.hidden) :
    table.weights ((c.token.replacedBy m.body).map (⟨·, c.hidden ++ [c.token.text]⟩)) <
      table.weight c := by
  have hbound : ∀ d ∈ (c.token.replacedBy m.body).map
      fun t => (⟨t, c.hidden ++ [c.token.text]⟩ : Candidate),
      table.weight d ≤ (table.bodySize + 2) ^ table.visible c.hidden := by
    intro d hd
    obtain ⟨t, -, rfl⟩ := List.mem_map.1 hd
    exact Nat.le_trans (table.weight_le _)
      (Nat.pow_le_pow_right (by omega) (visible_lt hfind hhidden))
  have hpos : 0 < (table.bodySize + 2) ^ table.visible c.hidden := Nat.pow_pos (by omega)
  rw [weight, if_pos hc, Nat.pow_succ']
  calc table.weights _ ≤ m.body.length * (table.bodySize + 2) ^ table.visible c.hidden := by
        simpa using weights_le_mul hbound
    _ ≤ table.bodySize * (table.bodySize + 2) ^ table.visible c.hidden :=
        Nat.mul_le_mul_right _ (length_body_le hfind)
    _ < (table.bodySize + 2) * (table.bodySize + 2) ^ table.visible c.hidden :=
        Nat.mul_lt_mul_of_pos_right (by omega) hpos

variable (table) in
@[simp] theorem expansions_nil : table.expansions [] = [] := rfl

variable (table) in
@[simp] theorem expansions_cons (c : Candidate) (cs : List Candidate) :
    table.expansions (c :: cs) = table.expansion c.hidden c.token ++ table.expansions cs := rfl

variable (table) in
@[simp] theorem expansions_append (cs ds : List Candidate) :
    table.expansions (cs ++ ds) = table.expansions cs ++ table.expansions ds :=
  List.flatMap_append

/-- An expansion has no more tokens than it takes steps. -/
theorem length_expansion_le (hidden : List String) (t : Token) :
    (table.expansion hidden t).length ≤ table.weight ⟨t, hidden⟩ := by
  fun_induction expansion table hidden t with
  | case1 => exact table.weight_pos _
  | case2 => exact table.weight_pos _
  | case3 => exact table.weight_pos _
  | case4 => exact table.weight_pos _
  | case5 hidden t ht hhidden hline m hfind ih =>
      refine Nat.le_trans ?_
        (Nat.le_of_lt (table.weights_replacement_lt (not_not.1 ht) hfind hhidden))
      rw [List.length_flatMap, weights, List.map_map]
      exact List.sum_le_sum fun u _ => ih u

theorem length_expansions_le (cs : List Candidate) :
    (table.expansions cs).length ≤ table.weights cs := by
  induction cs with
  | nil => exact Nat.le_refl _
  | cons c cs ih =>
      have hc : (table.expansion c.hidden c.token).length ≤ table.weight c :=
        length_expansion_le c.hidden c.token
      rw [expansions_cons, weights_cons, List.length_append]
      omega

end MacroTable

/-! ## Expanding one name -/

theorem substitute_objectLike (body : List Token) (hidden : List String) :
    substitute body [] [] hidden = body.map (⟨·, hidden⟩) := by
  induction body with
  | nil => rfl
  | cons t body ih =>
      rw [substitute, List.flatMap_cons, ← substitute, ih]
      simp

theorem placeAt_objectLike (name : Token) (body : List Token) (hidden : List String) :
    placeAt name name.location (body.map (⟨·, hidden⟩)) =
      (name.replacedBy body).map (⟨·, hidden⟩) := by
  cases body <;> simp [placeAt, Token.replacedBy]

namespace Queue

variable {σ : Type} {S : Supply σ} {table : MacroTable} {q : Queue σ}

/-- Expanding a name once keeps what it stands for and brings it closer to the end. -/
theorem expand_objectLike (htable : table.ObjectLike) (hq : S.macros q.later = table)
    {c : Candidate} (hc : c.token.kind = .identifier) :
    ∃ result, q.expand S c = (result, q) ∧
      match result with
      | none => table.expansion c.hidden c.token = [c.token]
      | some cs =>
        table.expansions cs = table.expansion c.hidden c.token ∧
          table.weights cs < table.weight c := by
  unfold Queue.expand
  split
  · rename_i hhidden
    exact ⟨none, rfl, MacroTable.expansion_of_hidden hhidden⟩
  · rename_i hhidden
    split
    · rename_i hline
      have hkind : (lineNumber c.token).kind ≠ .identifier := by simp [lineNumber]
      refine ⟨_, rfl, ?_, ?_⟩
      · rw [MacroTable.expansion_line hc hhidden hline]
        simp [MacroTable.expansion_of_not_identifier hkind]
      · have hpow := Nat.pow_le_pow_right (n := table.bodySize + 2) (by omega)
          (show 1 ≤ table.visible c.hidden + 1 by omega)
        rw [MacroTable.weights_cons, MacroTable.weight, if_neg hkind, MacroTable.weight, if_pos hc,
          MacroTable.weights_nil]
        rw [Nat.pow_one] at hpow
        omega
    · rename_i hline
      rw [hq]
      split
      · rename_i hfind
        exact ⟨none, rfl, MacroTable.expansion_undefined hline hfind⟩
      · rename_i m hfind
        rw [htable m (MacroTable.mem_of_find? hfind)]
        dsimp only
        rw [substitute_objectLike, placeAt_objectLike, MacroTable.name_of_find? hfind]
        refine ⟨_, rfl, ?_, table.weights_replacement_lt hc hfind hhidden⟩
        rw [MacroTable.expansion_macro hc hhidden hline hfind, MacroTable.expansions,
          List.flatMap_map]

end Queue

/-! ## Expanding a queue -/

/-- The supply has these tokens and no more, and its macros stay the same. -/
def Supply.Delivers {σ : Type} (S : Supply σ) (table : MacroTable) : σ → List Token → Prop
  | s, [] => S.macros s = table ∧ (S.next s).1 = none
  | s, t :: ts =>
    S.macros s = table ∧ (S.next s).1 = some t ∧ S.Delivers table (S.next s).2 ts

namespace Supply.Delivers

variable {σ : Type} {S : Supply σ} {table : MacroTable} {s : σ} {ts : List Token}

theorem macros_eq (h : S.Delivers table s ts) : S.macros s = table := by
  cases ts <;> exact h.1

theorem length_le (h : S.Delivers table s ts) : ts.length ≤ S.size s := by
  induction ts generalizing s with
  | nil => exact Nat.zero_le _
  | cons t ts ih =>
      obtain ⟨-, hnext, hrest⟩ := h
      have hlt : S.size (S.next s).2 < S.size s := S.size_lt_of_next (Prod.ext hnext rfl)
      have hle := ih hrest
      rw [List.length_cons]
      omega

end Supply.Delivers

namespace Queue

variable {σ : Type} {S : Supply σ} {table : MacroTable} {q : Queue σ}

/-- These tokens wait or are still to be delivered, and no more. -/
def Holds (S : Supply σ) (table : MacroTable) (q : Queue σ) (cs : List Candidate) : Prop :=
  ∃ ts, cs = q.waiting ++ ts.map Candidate.ofToken ∧ S.Delivers table q.later ts

namespace Holds

variable {c : Candidate} {cs : List Candidate}

theorem macros_eq (h : q.Holds S table cs) : S.macros q.later = table := by
  obtain ⟨ts, -, hts⟩ := h
  exact hts.macros_eq

theorem length_le (h : q.Holds S table cs) : cs.length ≤ q.size S := by
  obtain ⟨ts, rfl, hts⟩ := h
  have hle := hts.length_le
  simp [Queue.size]
  omega

theorem pull_nil (h : q.Holds S table []) : ∃ q', q.pull S = (none, q') := by
  obtain ⟨ts, hcs, hts⟩ := h
  obtain ⟨hwaiting, hmap⟩ := List.append_eq_nil_iff.1 hcs.symm
  obtain rfl := List.map_eq_nil_iff.1 hmap
  exact ⟨_, by rw [Queue.pull, hwaiting]; exact Prod.ext (by simp [hts.2]) rfl⟩

theorem pull_cons (h : q.Holds S table (c :: cs)) :
    ∃ q', q.pull S = (some c, q') ∧ q'.Holds S table cs := by
  obtain ⟨ts, hcs, hts⟩ := h
  unfold Queue.pull
  split
  · rename_i d rest hwaiting
    rw [hwaiting, List.cons_append] at hcs
    obtain ⟨rfl, rfl⟩ := List.cons.inj hcs
    exact ⟨_, rfl, ts, rfl, hts⟩
  · rename_i hwaiting
    rw [hwaiting, List.nil_append] at hcs
    cases ts with
    | nil => cases hcs
    | cons t ts =>
        obtain ⟨rfl, rfl⟩ := List.cons.inj hcs
        obtain ⟨-, hnext, hrest⟩ := hts
        exact ⟨_, by rw [hnext]; rfl, ts, rfl, hrest⟩

theorem push (h : q.Holds S table cs) (ds : List Candidate) :
    (q.push ds).Holds S table (ds ++ cs) := by
  obtain ⟨ts, rfl, hts⟩ := h
  exact ⟨ts, by simp [Queue.push], hts⟩

/-- With more steps than the tokens weigh, the first token that they stand for comes out, or the
end is found if they stand for nothing. -/
theorem settle (h : q.Holds S table cs) (htable : table.ObjectLike) {steps : Nat}
    (hsteps : table.weights cs < steps) :
    match table.expansions cs with
    | [] => (q.settle S steps).1 = .finished
    | t :: ts =>
      (q.settle S steps).1 = .token t ∧
        ∃ ds, (q.settle S steps).2.Holds S table ds ∧ table.expansions ds = ts := by
  induction steps generalizing q cs with
  | zero => omega
  | succ steps ih =>
      rw [Queue.settle]
      cases cs with
      | nil =>
          obtain ⟨q', hpull⟩ := h.pull_nil
          rw [hpull]
          rfl
      | cons c cs =>
          obtain ⟨q', hpull, hq'⟩ := h.pull_cons
          have hpos := table.weight_pos c
          rw [MacroTable.weights_cons] at hsteps
          rw [hpull, MacroTable.expansions_cons]
          dsimp only
          by_cases hc : c.token.kind = .identifier
          · rw [if_pos hc]
            obtain ⟨result, hexpand, hresult⟩ := expand_objectLike htable hq'.macros_eq hc
            rw [hexpand]
            cases result with
            | none =>
                rw [hresult]
                exact ⟨rfl, cs, hq', rfl⟩
            | some ds =>
                rw [← hresult.1, ← MacroTable.expansions_append]
                refine ih (hq'.push ds) ?_
                rw [MacroTable.weights_append]
                omega
          · rw [if_neg hc, MacroTable.expansion_of_not_identifier hc]
            exact ⟨rfl, cs, hq', rfl⟩

theorem weights_lt_stepLimit (h : q.Holds S table cs) : table.weights cs < q.stepLimit S := by
  have hbound : ∀ c ∈ cs, table.weight c ≤ (table.bodySize + 2) ^ (table.entries.length + 1) :=
    fun c _ => Nat.le_trans (table.weight_le c)
      (Nat.pow_le_pow_right (by omega) (Nat.succ_le_succ (table.visible_le c.hidden)))
  refine Nat.lt_of_lt_of_le ?_ (Nat.le_max_left _ _)
  rw [h.macros_eq]
  calc table.weights cs ≤ cs.length * (table.bodySize + 2) ^ (table.entries.length + 1) :=
        MacroTable.weights_le_mul hbound
    _ ≤ q.size S * (table.bodySize + 2) ^ (table.entries.length + 1) :=
        Nat.mul_le_mul_right _ h.length_le
    _ < (q.size S + 1) * (table.bodySize + 2) ^ (table.entries.length + 1) :=
        Nat.mul_lt_mul_of_pos_right (by omega) (Nat.pow_pos (by omega))
    _ ≤ (q.size S + 1) * (table.bodySize + 2) ^ (table.entries.length + 2) :=
        Nat.mul_le_mul_left _ (Nat.pow_le_pow_right (by omega) (by omega))

/-- The steps that are allowed are enough. -/
theorem next (h : q.Holds S table cs) (htable : table.ObjectLike) :
    match table.expansions cs with
    | [] => (q.next S).1 = .finished
    | t :: ts =>
      (q.next S).1 = .token t ∧
        ∃ ds, (q.next S).2.Holds S table ds ∧ table.expansions ds = ts :=
  h.settle htable h.weights_lt_stepLimit

end Holds

end Queue

/-! ## Shaders without directives -/

theorem Reader.delivers (feed : Feed) (env : Environment) (hactive : env.isActive = true)
    (hplain : ∀ t ∈ feed.tokens, startsDirective t = false) :
    supply.Delivers env.macros ⟨feed, env⟩ feed.tokens := by
  obtain ⟨deliveries, trailing⟩ := feed
  induction deliveries generalizing env with
  | nil => exact ⟨rfl, by simp [supply, Reader.next]⟩
  | cons d ds ih =>
      have hd : startsDirective d.token = false := hplain d.token (by simp [Feed.tokens])
      have hnext : supply.next ⟨⟨d :: ds, trailing⟩, env⟩ =
          (some d.token, ⟨⟨ds, trailing⟩, { env with errors := env.errors ++ d.errors }⟩) := by
        have hactive' : Environment.isActive { env with errors := env.errors ++ d.errors } = true :=
          hactive
        simp [supply, Reader.next, hd, hactive']
      refine ⟨rfl, by rw [hnext], ?_⟩
      rw [hnext]
      exact ih { env with errors := env.errors ++ d.errors } hactive
        fun t ht => hplain t (List.mem_cons_of_mem _ ht)

namespace Preprocessor

variable {p : Preprocessor} {table : MacroTable} {cs : List Candidate}

/-- No token is ready, and these wait or are still to be delivered. -/
def Holds (p : Preprocessor) (table : MacroTable) (cs : List Candidate) : Prop :=
  p.ready = [] ∧ p.queue.Holds Reader.supply table cs

namespace Holds

theorem next (h : p.Holds table cs) (htable : table.ObjectLike) :
    match table.expansions cs with
    | [] => p.next.1 = none
    | t :: ts =>
      ∃ p', p.next = (some t, p') ∧ ∃ ds, p'.Holds table ds ∧ table.expansions ds = ts := by
  have hnext := h.2.next htable
  rw [Preprocessor.next, h.1]
  dsimp only
  unfold produce
  split at hnext
  · split <;> simp_all
  · obtain ⟨htoken, ds, hds, hts⟩ := hnext
    split <;> simp_all
    exact ⟨ds, ⟨h.1, hds⟩, hts⟩

theorem takeTokens (h : p.Holds table cs) (htable : table.ObjectLike) (count : Nat) :
    (p.takeTokens count).1 = (table.expansions cs).take count ∧
      (count ≤ (table.expansions cs).length →
        ∃ ds, (p.takeTokens count).2.Holds table ds ∧
          table.expansions ds = (table.expansions cs).drop count) := by
  induction count generalizing p cs with
  | zero => exact ⟨rfl, fun _ => ⟨cs, h, rfl⟩⟩
  | succ count ih =>
      have hnext := h.next htable
      rw [Preprocessor.takeTokens]
      split at hnext
      · rename_i hnil
        rw [hnil]
        split
        · rename_i heq
          simp [heq] at hnext
        · exact ⟨rfl, fun hle => absurd hle (by simp)⟩
      · rename_i t ts hcons
        obtain ⟨p', hp', ds, hds, rfl⟩ := hnext
        rw [hp', hcons]
        obtain ⟨htaken, hrest⟩ := ih hds
        refine ⟨by simp [htaken], fun hle => ?_⟩
        exact hrest (by simpa using hle)

theorem rest (h : p.Holds table cs) (htable : table.ObjectLike) :
    p.rest.1 = table.expansions cs := by
  have hlimit : (table.expansions cs).length ≤ p.tokenLimit := by
    have hlength := @MacroTable.length_expansions_le table cs
    have hweights := h.2.weights_lt_stepLimit
    rw [tokenLimit]
    omega
  rw [Preprocessor.rest, (h.takeTokens htable p.tokenLimit).1, List.take_of_length_le hlimit]

end Holds

/-- A shader without directives, read where tokens count and no macro takes arguments, gives what
its tokens stand for, one after the other, and then comes to its end. What stands for a token is
where the token is. -/
theorem rest_expands {feed : Feed} {env : Environment} (hactive : env.isActive = true)
    (hplain : ∀ t ∈ feed.tokens, Reader.startsDirective t = false)
    (htable : env.macros.ObjectLike) :
    let p : Preprocessor := ⟨[], ⟨[], ⟨feed, env⟩⟩⟩
    let expanded := feed.tokens.flatMap (env.macros.expansion [])
    p.rest.1 = expanded ∧
      (∃ p', p.takeTokens expanded.length = (expanded, p') ∧
        p'.next.1 = none ∧ (p'.queue.next Reader.supply).1 = .finished) ∧
      ∀ t ∈ feed.tokens, ∀ u ∈ env.macros.expansion [] t, u.location = t.location := by
  intro p expanded
  have hp : p.Holds env.macros (feed.tokens.map Candidate.ofToken) :=
    ⟨rfl, feed.tokens, rfl, Reader.delivers feed env hactive hplain⟩
  have hexpanded : env.macros.expansions (feed.tokens.map Candidate.ofToken) = expanded := by
    simp [MacroTable.expansions, Candidate.ofToken, List.flatMap_map, expanded]
  refine ⟨hexpanded ▸ hp.rest htable, ?_, fun t _ => MacroTable.location_of_mem_expansion t⟩
  obtain ⟨htaken, hend⟩ := hp.takeTokens htable expanded.length
  rw [hexpanded] at htaken hend
  obtain ⟨ds, hds, hdrop⟩ := hend (Nat.le_refl _)
  rw [List.drop_length] at hdrop
  have hnext := hds.next htable
  have hfinished := hds.2.next htable
  rw [hdrop] at hnext hfinished
  exact ⟨_, Prod.ext (htaken.trans (List.take_length)) rfl, hnext, hfinished⟩

/-- Two macros that are defined by each other. -/
theorem rest_expands_mutual :
    let p := (ofFeed (Code.ofString "A;\nB" .unknown).scan).defineAll
      [("A", "B + __LINE__"), ("B", "A")]
    let table := p.queue.later.env.macros
    p.queue.later.env.isActive = true ∧
      (∀ t ∈ p.queue.later.feed.tokens, Reader.startsDirective t = false) ∧ table.ObjectLike ∧
      p.rest.1 = p.queue.later.feed.tokens.flatMap (table.expansion []) ∧
      p.rest.1.map Token.text = ["A", "+", "1", ";", "B", "+", "2"] := by
  intro p table
  have hplain : ∀ t ∈ p.queue.later.feed.tokens, Reader.startsDirective t = false := by
    decide +kernel
  have htable : table.ObjectLike := by
    unfold MacroTable.ObjectLike
    decide +kernel
  have hrest := (@rest_expands _ p.queue.later.env rfl hplain htable).1
  refine ⟨rfl, hplain, htable, hrest, ?_⟩
  rw [show p.rest.1 = _ from hrest]
  decide +kernel

end Preprocessor

end Essl
