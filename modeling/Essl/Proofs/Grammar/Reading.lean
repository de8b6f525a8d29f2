import Essl.Grammar.Shader

/-!
# What grammar functions read

`Reads parse ts Good` says two things of a grammar function on some tokens. If it succeeds, what
it made of the tokens in front is good. If it fails, the tokens in front of the one that it failed
at are the start of something good: a grammar function never takes a token after which nothing
good is left. Both are proved along the structure of the function, one rule for each way in which
functions are put together.
-/

namespace Essl

/-- How a token of a kind is written most plainly. -/
def TokenKind.plainText : TokenKind → String
  | .keyword k => k.text
  | .operator op => op.text
  | .identifier => "x"
  | .intConstant => "1"
  | .floatConstant => "1.0"
  | .boolConstant => "true"

/-- Some token of a kind. -/
def Token.plain (kind : TokenKind) : Token := ⟨kind, kind.plainText, default, false, false⟩

@[simp] theorem Token.kind_plain (kind : TokenKind) : (Token.plain kind).kind = kind := rfl

theorem Token.isOperator_iff {t : Token} {op : Operator} :
    t.isOperator op = true ↔ t.kind = .operator op := beq_iff_eq

theorem Token.isKeyword_iff {t : Token} {k : Keyword} :
    t.isKeyword k = true ↔ t.kind = .keyword k := beq_iff_eq

namespace Parse

variable {α β : Type} {p : Parse α} {q : α → Parse β} {ts rest : List Token} {a : α}

theorem bind_apply (p : Parse α) (q : α → Parse β) (ts : List Token) :
    (p >>= q) ts =
      match p ts with
      | .ok (a, rest) => q a rest
      | .error f => .error f := by
  change (p ts >>= fun x => q x.1 x.2) = _
  cases p ts <;> rfl

/-- A function goes on where the one before it stopped. -/
theorem bind_ok (h : p ts = .ok (a, rest)) : (p >>= q) ts = q a rest := by
  rw [bind_apply, h]

theorem pure_apply (a : α) (ts : List Token) : (pure a : Parse α) ts = .ok (a, ts) := rfl

theorem next_cons (expected : List TokenKind) (body : Token → Parse α) (t : Token)
    (ts : List Token) : Parse.next expected body (t :: ts) = body t ts := rfl

theorem next_bind (expected : List TokenKind) (body : Token → Parse α) (q : α → Parse β) :
    (Parse.next expected fun t => body t >>= q) = Parse.next expected body >>= q := by
  funext ts
  cases ts with
  | nil => rfl
  | cons t ts => rfl

theorem take_cons (t : Token) (ts : List Token) : Parse.take (t :: ts) = .ok (some t, ts) := rfl

theorem require_cons {t : Token} {kinds : List TokenKind} (ht : t.kind ∈ kinds)
    (ts : List Token) : Parse.require kinds (t :: ts) = .ok (t, ts) :=
  if_pos (by simpa using ht)

theorem requireOperator_cons {t : Token} {op : Operator} (ht : t.kind = .operator op)
    (ts : List Token) : Parse.requireOperator op (t :: ts) = .ok (t, ts) :=
  require_cons (by simpa using ht) ts

theorem acceptIf_cons {t : Token} {c : Token → Bool} (ht : c t) (ts : List Token) :
    Parse.acceptIf c (t :: ts) = .ok (some t, ts) := if_pos ht

theorem acceptIf_of_head {c : Token → Bool} (h : ∀ t ∈ ts.head?, c t = false) :
    Parse.acceptIf c ts = .ok (none, ts) := by
  cases ts with
  | nil => rfl
  | cons t ts => exact if_neg (by simp [h t rfl])

theorem accept_cons {t : Token} {kind : TokenKind} (ht : t.kind = kind) (ts : List Token) :
    Parse.accept kind (t :: ts) = .ok (some t, ts) := acceptIf_cons (by simp [Token.isKind, ht]) ts

theorem accept_of_head {kind : TokenKind} (h : ∀ t ∈ ts.head?, t.kind ≠ kind) :
    Parse.accept kind ts = .ok (none, ts) :=
  acceptIf_of_head fun t ht => by simpa [Token.isKind] using h t ht

theorem acceptOperator_cons {t : Token} {op : Operator} {ops : List Operator}
    (ht : t.kind = .operator op) (hop : op ∈ ops) (ts : List Token) :
    Parse.acceptOperator ops (t :: ts) = .ok (some t, ts) :=
  acceptIf_cons (by simpa [ht, TokenKind.operator?] using hop) ts

theorem acceptOperator_of_head {ops : List Operator}
    (h : ∀ t ∈ ts.head?, ∀ op ∈ ops, t.kind ≠ .operator op) :
    Parse.acceptOperator ops ts = .ok (none, ts) := by
  refine acceptIf_of_head fun t ht => ?_
  cases hkind : t.kind with
  | operator op =>
      have hop : op ∉ ops := fun hop => h t ht op hop hkind
      simpa [TokenKind.operator?] using hop
  | _ => rfl

theorem peekKind_apply (ts : List Token) :
    Parse.peekKind ts = .ok (ts.head?.map Token.kind, ts) := rfl

theorem remaining_apply (ts : List Token) : Parse.remaining ts = .ok (ts.length, ts) := rfl

/-- Loops that may take a turn more than there are tokens have enough turns. -/
theorem length_lt_turns (ts rest : List Token) : ts.length < (ts ++ rest).length + 1 := by
  rw [List.length_append]
  omega

end Parse

/-! ## The judgement -/

section

variable {α β : Type}

/-- What a grammar function makes of tokens is good, and it fails only after the start of
something good. `Good a w rest` is about `a`, the tokens `w` taken for it and those after them. -/
def Reads (parse : Parse α) (ts : List Token) (Good : α → List Token → List Token → Prop) :
    Prop :=
  match parse ts with
  | .ok (a, rest) => ∃ w, ts = w ++ rest ∧ Good a w rest
  | .error f =>
    ∃ w, ts = w ++ (f.found.toList ++ f.rest) ∧ (f.found = none → f.rest = []) ∧
      ∃ a, ∃ more : List TokenKind, Good a (w ++ more.map Token.plain) []

/-- A grammar function that was given a token fails at that token. -/
def Rejects (parse : Parse α) (t : Token) (rest : List Token) : Prop :=
  ∃ expected lookedAhead, parse rest = .error ⟨expected, some t, rest, lookedAhead⟩

namespace Reads

variable {p : Parse α} {q : α → Parse β} {ts rest : List Token} {t : Token} {a : α}
  {f : SyntaxFailure} {Good Mid : α → List Token → List Token → Prop}
  {Goal : β → List Token → List Token → Prop}

theorem of_ok (hp : p ts = .ok (a, rest)) (h : ∃ w, ts = w ++ rest ∧ Good a w rest) :
    Reads p ts Good := by
  rw [Reads, hp]
  exact h

theorem of_error (hp : p ts = .error f)
    (h : ∃ w, ts = w ++ (f.found.toList ++ f.rest) ∧ (f.found = none → f.rest = []) ∧
      ∃ a, ∃ more : List TokenKind, Good a (w ++ more.map Token.plain) []) :
    Reads p ts Good := by
  rw [Reads, hp]
  exact h

/-- Only what a function does on the tokens at hand matters. -/
theorem congr {p' : Parse α} (hp : p ts = p' ts) (h : Reads p' ts Good) : Reads p ts Good := by
  rw [Reads, hp]
  exact h

theorem ok (h : Reads p ts Good) (hp : p ts = .ok (a, rest)) :
    ∃ w, ts = w ++ rest ∧ Good a w rest := by
  rw [Reads, hp] at h
  exact h

theorem error (h : Reads p ts Good) (hp : p ts = .error f) :
    ∃ w, ts = w ++ (f.found.toList ++ f.rest) ∧ (f.found = none → f.rest = []) ∧
      ∃ a, ∃ more : List TokenKind, Good a (w ++ more.map Token.plain) [] := by
  rw [Reads, hp] at h
  exact h

theorem mono (h : Reads p ts Mid) (hgood : ∀ a w rest, Mid a w rest → Good a w rest) :
    Reads p ts Good := by
  cases hp : p ts with
  | ok x =>
      obtain ⟨w, hw, ha⟩ := h.ok hp
      exact of_ok hp ⟨w, hw, hgood _ w _ ha⟩
  | error f =>
      obtain ⟨w, hw, hend, a, more, ha⟩ := h.error hp
      exact of_error hp ⟨w, hw, hend, a, more, hgood _ _ _ ha⟩

/-- At the end of the tokens a grammar function makes something good or says how to. -/
theorem completion (h : Reads p [] Good) :
    ∃ a, ∃ more : List TokenKind, Good a (more.map Token.plain) [] := by
  cases hp : p [] with
  | ok x =>
      obtain ⟨w, hw, ha⟩ := h.ok hp
      obtain ⟨rfl, hrest⟩ := List.append_eq_nil_iff.1 hw.symm
      rw [hrest] at ha
      exact ⟨x.1, [], ha⟩
  | error f =>
      obtain ⟨w, hw, -, a, more, ha⟩ := h.error hp
      obtain ⟨rfl, -⟩ := List.append_eq_nil_iff.1 hw.symm
      exact ⟨a, more, ha⟩

/-- One more token in front. -/
theorem cons {p' : Parse α} (hp : p (t :: rest) = p' rest)
    (h : Reads p' rest fun a w end_ => Good a (t :: w) end_) : Reads p (t :: rest) Good := by
  cases hp' : p' rest with
  | ok x =>
      obtain ⟨w, rfl, ha⟩ := h.ok hp'
      exact of_ok (hp.trans hp') ⟨t :: w, rfl, ha⟩
  | error f =>
      obtain ⟨w, rfl, hend, a, more, ha⟩ := h.error hp'
      exact of_error (hp.trans hp') ⟨t :: w, rfl, hend, a, more, ha⟩

theorem pure (h : Good a [] ts) : Reads (pure a) ts Good := of_ok rfl ⟨[], rfl, h⟩

/-- What is started within the first function is completed there, and the second one, which then
finds nothing left, either succeeds or says how to go on. -/
theorem bind (hp : Reads p ts Mid)
    (hq : ∀ a w rest, rest.length ≤ ts.length - w.length → Mid a w rest →
      Reads (q a) rest fun b v end_ => Goal b (w ++ v) end_) :
    Reads (p >>= q) ts Goal := by
  cases hpt : p ts with
  | ok x =>
      obtain ⟨w, hw, ha⟩ := hp.ok hpt
      have h := hq x.1 w x.2 (by simp [hw]) ha
      have hbind : (p >>= q) ts = q x.1 x.2 := Parse.bind_ok hpt
      cases hqr : q x.1 x.2 with
      | ok y =>
          obtain ⟨v, hv, hb⟩ := h.ok hqr
          exact of_ok (hbind.trans hqr) ⟨w ++ v, by rw [hw, hv, List.append_assoc], hb⟩
      | error f =>
          obtain ⟨v, hv, hend, b, more, hb⟩ := h.error hqr
          refine of_error (hbind.trans hqr) ⟨w ++ v, ?_, hend, b, more, ?_⟩
          · rw [hw, hv, List.append_assoc]
          · rw [List.append_assoc]
            exact hb
  | error f =>
      obtain ⟨w, hw, hend, a, more, ha⟩ := hp.error hpt
      obtain ⟨b, more', hb⟩ := (hq a _ [] (Nat.zero_le _) ha).completion
      refine of_error (by rw [Parse.bind_apply, hpt]) ⟨w, hw, hend, b, more ++ more', ?_⟩
      rw [List.map_append, ← List.append_assoc]
      exact hb

theorem map {g : α → β} (hp : Reads p ts fun a w rest => Goal (g a) w rest) :
    Reads (g <$> p) ts Goal := by
  rw [← bind_pure_comp]
  refine hp.bind fun a w rest _ ha => pure ?_
  simpa using ha

/-! ## Single tokens -/

/-- A token is either not taken or well read on from, and something good can be made of what is
not there. -/
theorem next_of_start {body : Token → Parse α} {expected more : List TokenKind}
    (hstart : Good a (more.map Token.plain) [])
    (hbody : ∀ t rest, ts = t :: rest →
      Rejects (body t) t rest ∨ Reads (body t) rest fun a w end_ => Good a (t :: w) end_) :
    Reads (Parse.next expected body) ts Good := by
  cases ts with
  | nil => exact of_error rfl ⟨[], rfl, fun _ => rfl, a, more, hstart⟩
  | cons t rest =>
      obtain ⟨expected, lookedAhead, hb⟩ | h := hbody t rest rfl
      · exact of_error hb ⟨[], rfl, fun h => absurd h (by simp), a, more, hstart⟩
      · exact cons rfl h

/-- The next token decides: after one of some kinds all is well, any other is not taken. -/
theorem next {body : Token → Parse α} {expected : List TokenKind} (kinds : List TokenKind)
    (hkinds : kinds ≠ [])
    (haccept : ∀ t rest, rest.length ≤ ts.length - 1 → t.kind ∈ kinds →
      Reads (body t) rest fun a w end_ => Good a (t :: w) end_)
    (hreject : ∀ t rest, t.kind ∉ kinds → Rejects (body t) t rest) :
    Reads (Parse.next expected body) ts Good := by
  -- Something good starts with any of the kinds, since the body can go on after it at the end.
  obtain ⟨kind, hkind⟩ := List.exists_mem_of_ne_nil kinds hkinds
  obtain ⟨a, more, ha⟩ := (haccept (Token.plain kind) [] (Nat.zero_le _) hkind).completion
  have hstart : Good a ((kind :: more).map Token.plain) [] := ha
  refine next_of_start hstart fun t rest hts => ?_
  by_cases ht : t.kind ∈ kinds
  · exact .inr (haccept t rest (by simp [hts]) ht)
  · exact .inl (hreject t rest ht)

theorem take_eq_next {k : Option Token → Parse α} {expected : List TokenKind}
    (hnone : k none = Parse.fail expected none) :
    (Parse.take >>= k) = Parse.next expected fun t => k (some t) := by
  funext ts
  cases ts with
  | nil =>
      change k none [] = _
      rw [hnone]
      rfl
  | cons t rest => rfl

theorem take_bind_of_start {k : Option Token → Parse α} {expected more : List TokenKind}
    (hstart : Good a (more.map Token.plain) []) (hnone : k none = Parse.fail expected none)
    (hsome : ∀ t rest, ts = t :: rest →
      Rejects (k (some t)) t rest ∨
        Reads (k (some t)) rest fun a w end_ => Good a (t :: w) end_) :
    Reads (Parse.take >>= k) ts Good := by
  rw [take_eq_next hnone]
  exact next_of_start hstart hsome

/-- The next token has to be one of two operators. -/
theorem take_either {k : Option Token → Parse α} {expected : List TokenKind}
    {one other : Operator} {p q : Token → Parse α} (hnone : k none = Parse.fail expected none)
    (hsome : ∀ t, k (some t) =
      if t.isOperator one then p t else if t.isOperator other then q t
      else Parse.fail expected (some t))
    (hne : other ≠ one)
    (hone : ∀ t rest, rest.length ≤ ts.length - 1 → t.kind = .operator one →
      Reads (p t) rest fun a w end_ => Good a (t :: w) end_)
    (hother : ∀ t rest, rest.length ≤ ts.length - 1 → t.kind = .operator other →
      Reads (q t) rest fun a w end_ => Good a (t :: w) end_) :
    Reads (Parse.take >>= k) ts Good := by
  rw [take_eq_next hnone]
  refine next [.operator one, .operator other] (by simp) ?_ ?_
  · intro t rest hlen ht
    rw [hsome]
    rcases (by simpa using ht : t.kind = _ ∨ t.kind = _) with ht | ht
    · rw [if_pos (Token.isOperator_iff.2 ht)]
      exact hone t rest hlen ht
    · have hnot : ¬ t.isOperator one = true := by
        rw [Token.isOperator_iff, ht, TokenKind.operator.injEq]
        exact hne
      rw [if_neg hnot, if_pos (Token.isOperator_iff.2 ht)]
      exact hother t rest hlen ht
  · intro t rest ht
    simp only [List.mem_cons, List.not_mem_nil, or_false, not_or] at ht
    rw [hsome, if_neg (mt Token.isOperator_iff.1 ht.1), if_neg (mt Token.isOperator_iff.1 ht.2)]
    exact ⟨expected, false, rfl⟩

/-- Where the next token is known not to be of some of the kinds that are asked for, the other
kinds decide. -/
theorem require_bind_of_head {expected : List TokenKind} {k : Token → Parse α}
    (kinds : List TokenKind) (hkinds : kinds ≠ []) (hsubset : kinds ⊆ expected)
    (hhead : ∀ t ∈ ts.head?, t.kind ∈ expected → t.kind ∈ kinds)
    (h : ∀ t rest, rest.length ≤ ts.length - 1 → t.kind ∈ kinds →
      Reads (k t) rest fun a w end_ => Good a (t :: w) end_) :
    Reads (Parse.require expected >>= k) ts Good := by
  have hnext : (Parse.require expected >>= k) ts = Parse.next expected (fun t rest =>
      if t.kind ∈ kinds then k t rest else .error ⟨expected, some t, rest, false⟩) ts := by
    cases ts with
    | nil => rfl
    | cons t rest =>
        rw [Parse.bind_apply, Parse.require, Parse.next]
        by_cases ht : t.kind ∈ kinds
        · rw [if_pos (by simpa using hsubset ht), if_pos ht]
        · rw [if_neg (by simpa using mt (hhead t rfl) ht), if_neg ht]
  rw [Reads, hnext, ← Reads]
  refine next kinds hkinds ?_ ?_
  · intro t rest hlen ht
    have hk := h t rest hlen ht
    rw [Reads] at hk ⊢
    rw [if_pos ht]
    exact hk
  · intro t rest ht
    exact ⟨expected, false, if_neg ht⟩

theorem require_bind {kinds : List TokenKind} {k : Token → Parse α} (hkinds : kinds ≠ [])
    (h : ∀ t rest, rest.length ≤ ts.length - 1 → t.kind ∈ kinds →
      Reads (k t) rest fun a w end_ => Good a (t :: w) end_) :
    Reads (Parse.require kinds >>= k) ts Good :=
  require_bind_of_head kinds hkinds (List.Subset.refl kinds) (fun _ _ ht => ht) h

theorem requireKind_bind {kind : TokenKind} {k : Token → Parse α}
    (h : ∀ t rest, rest.length ≤ ts.length - 1 → t.kind = kind →
      Reads (k t) rest fun a w end_ => Good a (t :: w) end_) :
    Reads (Parse.require [kind] >>= k) ts Good :=
  require_bind (by simp) fun t rest hlen ht => h t rest hlen (by simpa using ht)

theorem requireOperator_bind {op : Operator} {k : Token → Parse α}
    (h : ∀ t rest, t.kind = .operator op →
      Reads (k t) rest fun a w end_ => Good a (t :: w) end_) :
    Reads (Parse.requireOperator op >>= k) ts Good :=
  requireKind_bind fun t rest _ => h t rest

/-- A token that may be missing. -/
theorem acceptIf_bind {c : Token → Bool} {k : Option Token → Parse α}
    (hsome : ∀ t rest, ts = t :: rest → c t →
      Reads (k (some t)) rest fun a w end_ => Good a (t :: w) end_)
    (hnone : (∀ t ∈ ts.head?, c t = false) → Reads (k none) ts Good) :
    Reads (Parse.acceptIf c >>= k) ts Good := by
  cases ts with
  | nil => exact hnone (by simp)
  | cons t rest =>
      by_cases hc : c t
      · have haccept : Parse.acceptIf c (t :: rest) = .ok (some t, rest) := if_pos hc
        exact cons (Parse.bind_ok haccept) (hsome t rest rfl hc)
      · have haccept : Parse.acceptIf c (t :: rest) = .ok (none, t :: rest) := if_neg hc
        rw [Reads, Parse.bind_ok haccept]
        exact hnone (by simpa using hc)

theorem accept_bind {kind : TokenKind} {k : Option Token → Parse α}
    (hsome : ∀ t rest, ts = t :: rest → t.kind = kind →
      Reads (k (some t)) rest fun a w end_ => Good a (t :: w) end_)
    (hnone : (∀ t ∈ ts.head?, t.kind ≠ kind) → Reads (k none) ts Good) :
    Reads (Parse.accept kind >>= k) ts Good := by
  refine acceptIf_bind ?_ ?_
  · intro t rest hts ht
    exact hsome t rest hts (by simpa [Token.isKind] using ht)
  · intro h
    exact hnone fun t ht => by simpa [Token.isKind] using h t ht

theorem acceptOperator_bind {ops : List Operator} {k : Option Token → Parse α}
    (hsome : ∀ t rest op, t.kind = .operator op → op ∈ ops →
      Reads (k (some t)) rest fun a w end_ => Good a (t :: w) end_)
    (hnone : Reads (k none) ts Good) :
    Reads (Parse.acceptOperator ops >>= k) ts Good := by
  refine acceptIf_bind ?_ fun _ => hnone
  intro t rest _ ht
  cases hkind : t.kind with
  | operator op => exact hsome t rest op hkind (by simpa [hkind, TokenKind.operator?] using ht)
  | _ => simp [hkind, TokenKind.operator?] at ht

theorem peekKind_bind {k : Option TokenKind → Parse α}
    (h : Reads (k (ts.head?.map Token.kind)) ts Good) :
    Reads (Parse.peekKind >>= k) ts Good := by
  rw [Reads, show (Parse.peekKind >>= k) ts = _ from Parse.bind_ok rfl]
  exact h

theorem remaining_bind {k : Nat → Parse α} (h : Reads (k ts.length) ts Good) :
    Reads (Parse.remaining >>= k) ts Good := by
  rw [Reads, show (Parse.remaining >>= k) ts = _ from Parse.bind_ok rfl]
  exact h

theorem ite_bind {c : Prop} [Decidable c] {p p' : Parse β} {k : β → Parse α}
    (h : Reads ((if c then p else p') >>= k) ts Good) :
    Reads (if c then p >>= k else p' >>= k) ts Good := by
  by_cases hc : c
  · rwa [if_pos hc] at h ⊢
  · rwa [if_neg hc] at h ⊢

/-- A failure after a look at the next token, where the tokens before can be completed. -/
theorem take_fail {expected : List TokenKind} (more : List TokenKind)
    (h : Good a (more.map Token.plain) []) :
    Reads (Parse.take >>= fun found => Parse.fail expected found) ts Good := by
  cases ts with
  | nil => exact of_error rfl ⟨[], rfl, fun _ => rfl, a, more, h⟩
  | cons t rest => exact of_error rfl ⟨[], rfl, fun h => absurd h (by simp), a, more, h⟩

/-- A failure for lack of turns, which loops come to only at the end of the tokens. -/
theorem fail_none {expected : List TokenKind} (more : List TokenKind) (hts : ts = [])
    (h : Good a (more.map Token.plain) []) :
    Reads (Parse.fail expected none) ts Good := by
  subst hts
  exact of_error rfl ⟨[], rfl, fun _ => rfl, a, more, h⟩

end Reads

theorem rejects_fail (expected : List TokenKind) (t : Token) (rest : List Token) :
    Rejects (Parse.fail expected (some t) : Parse α) t rest := ⟨expected, false, rfl⟩

theorem Rejects.bind {p : Parse α} {t : Token} {rest : List Token} (h : Rejects p t rest)
    (q : α → Parse β) : Rejects (p >>= q) t rest := by
  obtain ⟨expected, lookedAhead, h⟩ := h
  exact ⟨expected, lookedAhead, by rw [Parse.bind_apply, h]⟩

theorem Rejects.peekKind_bind {k : Option TokenKind → Parse α} {t : Token} {ts : List Token}
    (h : Rejects (k (ts.head?.map Token.kind)) t ts) : Rejects (Parse.peekKind >>= k) t ts := h

/-! ## Rules -/

theorem Rule.parse_of_mem {rule : Rule α} {t : Token} (ht : t.kind ∈ rule.expected) :
    rule.parse t = rule.body t := if_pos (by simpa [Rule.starts] using ht)

theorem Rule.parseLookedAhead_of_mem {rule : Rule α} {t : Token} (ht : t.kind ∈ rule.expected) :
    rule.parseLookedAhead t = rule.body t := if_pos (by simpa [Rule.starts] using ht)

theorem Rule.rejects_parse {rule : Rule α} {t : Token} (rest : List Token)
    (ht : t.kind ∉ rule.expected) : Rejects (rule.parse t) t rest :=
  ⟨rule.expected, false, by rw [Rule.parse, if_neg (by simpa [Rule.starts] using ht)]; rfl⟩

theorem Rule.rejects_parseLookedAhead {rule : Rule α} {t : Token} (rest : List Token)
    (ht : t.kind ∉ rule.expected) : Rejects (rule.parseLookedAhead t) t rest :=
  ⟨rule.expected, true, by rw [Rule.parseLookedAhead, if_neg (by simpa [Rule.starts] using ht)]⟩

theorem Reads.rule_next {rule : Rule α} {ts : List Token}
    {Good : α → List Token → List Token → Prop} (hexpected : rule.expected ≠ [])
    (h : ∀ t rest, t.kind ∈ rule.expected →
      Reads (rule.body t) rest fun a w end_ => Good a (t :: w) end_) :
    Reads rule.next ts Good := by
  refine Reads.next rule.expected hexpected ?_ fun t rest => Rule.rejects_parse rest
  intro t rest _ ht
  rw [Rule.parse_of_mem ht]
  exact h t rest ht

end

end Essl
