import Essl.Preprocessor

/-!
# How tokens are spelled

Scanning spells keywords and operators in the one way there is, and takes nothing for a name that
is a keyword. Directives and macros only hand on such tokens, so the same holds after
preprocessing.
-/

namespace Essl

open Text

/-- A word that can name something: it is no keyword. -/
structure IsName (text : String) : Prop where
  ne_nil : text.toList ≠ []
  word : ∀ c ∈ text.toList, isWordPart c = true
  notKeyword : Keyword.ofText? text = none

namespace Token

/-- The text of the token is a spelling of its kind. The texts of constants do not matter here. -/
def Lexical (t : Token) : Prop :=
  match t.kind with
  | .keyword k => t.text = k.text
  | .operator op => t.text = op.text
  | .identifier => IsName t.text
  | _ => True

theorem Lexical.congr {t u : Token} (h : t.Lexical) (hkind : u.kind = t.kind)
    (htext : u.text = t.text) : u.Lexical := by
  unfold Lexical
  rw [hkind, htext]
  exact h

theorem Lexical.keyword {t : Token} {k : Keyword} (h : t.Lexical) (hk : t.kind = .keyword k) :
    t.text = k.text := by
  unfold Lexical at h
  rwa [hk] at h

theorem Lexical.operator {t : Token} {op : Operator} (h : t.Lexical)
    (hop : t.kind = .operator op) : t.text = op.text := by
  unfold Lexical at h
  rwa [hop] at h

theorem Lexical.identifier {t : Token} (h : t.Lexical) (ht : t.kind = .identifier) :
    IsName t.text := by
  unfold Lexical at h
  rwa [ht] at h

end Token

theorem Keyword.text_of_ofText? {text : String} {k : Keyword} (h : ofText? text = some k) :
    text = k.text := by
  have := List.find?_some h
  simpa using (beq_iff_eq.1 this).symm

/-! ## Scanning -/

namespace Scan

theorem numeral_kind (cs : List Char) :
    (numeral cs).1 = .intConstant ∨ (numeral cs).1 = .floatConstant := by
  unfold numeral
  split
  · exact .inl rfl
  · exact .inl rfl
  · dsimp only
    split
    · exact .inl rfl
    · exact .inr rfl

theorem word_lexical {cs : List Char} (h : startsWord cs = true) {t : Token}
    (hkind : t.kind = (word cs).kind) (htext : t.text = String.ofList (word cs).text) :
    t.Lexical := by
  have hkind' : t.kind = wordKind t.text := by rw [hkind, htext, word]
  unfold wordKind at hkind'
  cases hk : Keyword.ofText? t.text with
  | some k =>
      rw [hk] at hkind'
      unfold Token.Lexical
      rw [hkind']
      exact Keyword.text_of_ofText? hk
  | none =>
      rw [hk] at hkind'
      by_cases hbool : t.text = "true" ∨ t.text = "false"
      · rw [if_pos hbool] at hkind'
        simp [Token.Lexical, hkind']
      · rw [if_neg hbool] at hkind'
        have hlist : t.text.toList = cs.takeWhile isWordPart := by
          rw [htext, String.toList_ofList, word]
        unfold Token.Lexical
        rw [hkind']
        refine ⟨?_, ?_, hk⟩
        · cases cs with
          | nil => simp [startsWord] at h
          | cons c rest =>
              have hc : isWordPart c = true :=
                isWordPart_of_isWordStart (by simpa [startsWord] using h)
              simp [hlist, hc]
        · intro c hc
          rw [hlist] at hc
          exact List.all_eq_true.1 List.all_takeWhile c hc

theorem deliver_lexical {cs : List Char} {lexeme : Lexeme} (h : lexeme? cs = some lexeme)
    (state : State) (code : Code) : (state.deliver code lexeme).token.Lexical := by
  unfold lexeme? at h
  split at h
  · obtain rfl := Option.some.inj h
    unfold Token.Lexical
    rcases numeral_kind cs with hkind | hkind <;> simp [State.deliver, number, hkind]
  · split at h
    · rename_i hword
      obtain rfl := Option.some.inj h
      exact word_lexical hword rfl rfl
    · obtain ⟨op, -, rfl⟩ := Option.map_eq_some_iff.1 h
      rfl

theorem feedFrom_lexical (code : Code) (state : State) (cs : List Char) :
    ∀ d ∈ (feedFrom code state cs).deliveries, d.token.Lexical := by
  fun_induction feedFrom code state cs with
  | case1 => simp
  | case2 state cs gap state' c rest hrest lexeme hlexeme later ih =>
      intro d hd
      rcases List.mem_cons.1 hd with rfl | hd
      · exact deliver_lexical hlexeme _ _
      · exact ih d hd
  | case3 state cs gap state' c rest hrest hlexeme ih => exact ih

end Scan

/-- Every token of the feed is spelled as its kind. -/
def Feed.Lexical (feed : Feed) : Prop := ∀ d ∈ feed.deliveries, d.token.Lexical

theorem Feed.Lexical.tokens {feed : Feed} (h : feed.Lexical) : ∀ t ∈ feed.tokens, t.Lexical := by
  intro t ht
  obtain ⟨d, hd, rfl⟩ := List.mem_map.1 ht
  exact h d hd

theorem Code.scan_lexical (code : Code) : code.scan.Lexical :=
  Scan.feedFrom_lexical code .start code.chars

/-! ## Macros -/

/-- Every replacement list is made of tokens spelled as their kinds. -/
def MacroTable.Lexical (table : MacroTable) : Prop :=
  ∀ m ∈ table.entries, ∀ t ∈ m.body, t.Lexical

namespace MacroTable.Lexical

variable {table : MacroTable}

theorem undefine (h : table.Lexical) (name : String) : (table.undefine name).Lexical :=
  fun m hm => h m (List.mem_filter.1 hm).1

theorem define (h : table.Lexical) {m : MacroDef} (hm : ∀ t ∈ m.body, t.Lexical) :
    (table.define m).Lexical := by
  intro n hn
  rcases List.mem_cons.1 hn with rfl | hn
  · exact hm
  · exact h.undefine m.name n hn

theorem find? (h : table.Lexical) {name : String} {m : MacroDef} (hm : table.find? name = some m) :
    ∀ t ∈ m.body, t.Lexical := h m (List.mem_of_find?_eq_some hm)

end MacroTable.Lexical

/-- Every waiting token is spelled as its kind. -/
def Candidate.AllLexical (cs : List Candidate) : Prop := ∀ c ∈ cs, c.token.Lexical

theorem splitArguments_lexical {cs : List Candidate} (h : Candidate.AllLexical cs) (depth : Nat) :
    ∀ argument ∈ splitArguments depth cs, Candidate.AllLexical argument := by
  induction cs generalizing depth with
  | nil => simp [splitArguments, Candidate.AllLexical]
  | cons c rest ih =>
      have hc : c.token.Lexical := h c List.mem_cons_self
      have hrest : Candidate.AllLexical rest := fun d hd => h d (List.mem_cons_of_mem c hd)
      rw [splitArguments]
      split
      · intro argument hargument
        rcases List.mem_cons.1 hargument with rfl | hargument
        · simp [Candidate.AllLexical]
        · exact ih hrest 0 argument hargument
      · dsimp only
        generalize (if c.token.isOperator .openParen then depth + 1
          else if c.token.isOperator .closeParen then depth - 1 else depth) = inner
        have hinner := ih hrest inner
        split
        · intro argument hargument
          obtain rfl := List.mem_singleton.1 hargument
          intro d hd
          obtain rfl := List.mem_singleton.1 hd
          exact hc
        · rename_i first others hsplit
          rw [hsplit] at hinner
          intro argument hargument
          rcases List.mem_cons.1 hargument with rfl | hargument
          · intro d hd
            rcases List.mem_cons.1 hd with rfl | hd
            · exact hc
            · exact hinner first List.mem_cons_self d hd
          · exact hinner argument (List.mem_cons_of_mem first hargument)

theorem substitute_lexical {body : List Token} {arguments : List (List Candidate)}
    (hbody : ∀ t ∈ body, t.Lexical)
    (harguments : ∀ argument ∈ arguments, Candidate.AllLexical argument)
    (parameters hidden : List String) :
    Candidate.AllLexical (substitute body parameters arguments hidden) := by
  intro c hc
  obtain ⟨t, ht, hc⟩ := List.mem_flatMap.1 hc
  dsimp only at hc
  split at hc
  · rename_i name argument hargument
    split at hargument
    · have hmem := List.mem_of_find?_eq_some hargument
      exact harguments argument (List.of_mem_zip hmem).2 c hc
    · cases hargument
  · obtain rfl := List.mem_singleton.1 hc
    exact hbody t ht

theorem placeAt_lexical {cs : List Candidate} (h : Candidate.AllLexical cs) (name : Token)
    (location : Location) : Candidate.AllLexical (placeAt name location cs) := by
  cases cs with
  | nil => simp [placeAt, Candidate.AllLexical]
  | cons first rest =>
      intro c hc
      rcases List.mem_cons.1 hc with rfl | hc
      · exact (h first List.mem_cons_self).congr rfl rfl
      · obtain ⟨d, hd, rfl⟩ := List.mem_map.1 hc
        exact (h d (List.mem_cons_of_mem first hd)).congr rfl rfl

/-- What a supply delivers and the macros that apply to it are spelled well as long as its state
satisfies `Inv`. -/
structure Supply.Keeps {σ : Type} (S : Supply σ) (Inv : σ → Prop) : Prop where
  token : ∀ {s}, Inv s → ∀ t ∈ (S.next s).1, t.Lexical
  next : ∀ {s}, Inv s → Inv (S.next s).2
  macros : ∀ {s}, Inv s → (S.macros s).Lexical
  report : ∀ {s} (error : FrontError), Inv s → Inv (S.report error s)

namespace Queue

variable {σ : Type} {S : Supply σ} {Inv : σ → Prop}

/-- The waiting tokens are spelled well, and those to come will be. -/
def Lexical (Inv : σ → Prop) (q : Queue σ) : Prop :=
  Candidate.AllLexical q.waiting ∧ Inv q.later

variable {q : Queue σ}

theorem Lexical.pull (hS : S.Keeps Inv) (h : q.Lexical Inv) :
    (∀ c ∈ (q.pull S).1, c.token.Lexical) ∧ (q.pull S).2.Lexical Inv := by
  obtain ⟨hwaiting, hlater⟩ := h
  unfold Queue.pull
  split
  · rename_i c rest heq
    rw [heq] at hwaiting
    refine ⟨?_, fun d hd => hwaiting d (List.mem_cons_of_mem c hd), hlater⟩
    rintro _ ⟨⟩
    exact hwaiting c List.mem_cons_self
  · refine ⟨?_, by simp [Candidate.AllLexical], hS.next hlater⟩
    intro c hc
    obtain ⟨t, ht, rfl⟩ := Option.map_eq_some_iff.1 hc
    exact hS.token hlater t ht

theorem Lexical.push (h : q.Lexical Inv) {cs : List Candidate} (hcs : Candidate.AllLexical cs) :
    (q.push cs).Lexical Inv := by
  refine ⟨?_, h.2⟩
  intro c hc
  rcases List.mem_append.1 hc with hc | hc
  · exact hcs c hc
  · exact h.1 c hc

theorem Lexical.untilClosing (hS : S.Keeps Inv) (depth : Nat) (h : q.Lexical Inv) :
    (∀ found ∈ (q.untilClosing S depth).1, Candidate.AllLexical found.1) ∧
      (q.untilClosing S depth).2.Lexical Inv := by
  fun_induction Queue.untilClosing S depth q with
  | case1 depth q q' hpull =>
      have hq' := (h.pull hS).2
      rw [hpull] at hq'
      exact ⟨by simp, hq'⟩
  | case2 depth q c q' hpull hclosing =>
      have hq' := (h.pull hS).2
      rw [hpull] at hq'
      refine ⟨?_, hq'⟩
      rintro _ ⟨⟩
      simp [Candidate.AllLexical]
  | case3 depth q c q' hpull hclosing depth' found q'' hrest ih =>
      have hpulled := h.pull hS
      rw [hpull] at hpulled
      obtain ⟨hfound, hq''⟩ := ih hpulled.2
      rw [hrest] at hfound hq''
      refine ⟨?_, hq''⟩
      intro more hmore
      obtain ⟨⟨inside, closing⟩, hinside, rfl⟩ := Option.map_eq_some_iff.1 hmore
      intro d hd
      rcases List.mem_cons.1 hd with rfl | hd
      · exact hpulled.1 _ rfl
      · exact hfound _ hinside d hd

theorem Lexical.arguments (hS : S.Keeps Inv) (name : Token) (h : q.Lexical Inv) :
    (∀ found ∈ (q.arguments S name).1, ∀ argument ∈ found.1, Candidate.AllLexical argument) ∧
      (q.arguments S name).2.Lexical Inv := by
  have hclosed := h.untilClosing hS 0
  unfold Queue.arguments
  split
  · rename_i q' hrest
    rw [hrest] at hclosed
    exact ⟨by simp, hclosed.2.1, hS.report _ hclosed.2.2⟩
  · rename_i inside closing q' hrest
    rw [hrest] at hclosed
    refine ⟨?_, hclosed.2⟩
    rintro _ ⟨⟩
    exact splitArguments_lexical (hclosed.1 _ rfl) 0

theorem Lexical.expandInvocation (hS : S.Keeps Inv) (h : q.Lexical Inv) {m : MacroDef}
    (hm : ∀ t ∈ m.body, t.Lexical) (parameters : List String) (name : Candidate) :
    (∀ cs ∈ (q.expandInvocation S m parameters name).1, Candidate.AllLexical cs) ∧
      (q.expandInvocation S m parameters name).2.Lexical Inv := by
  have hpulled := h.pull hS
  unfold Queue.expandInvocation
  split
  · rename_i q' hpull
    rw [hpull] at hpulled
    exact ⟨by simp, hpulled.2⟩
  · rename_i next q' hpull
    rw [hpull] at hpulled
    split
    · have hcollected := hpulled.2.arguments hS name.token
      split
      · rename_i q'' hrest
        rw [hrest] at hcollected
        exact ⟨by simp [Candidate.AllLexical], hcollected.2⟩
      · rename_i arguments closing q'' hrest
        rw [hrest] at hcollected
        dsimp only
        split
        · refine ⟨?_, hcollected.2⟩
          rintro _ ⟨⟩
          apply placeAt_lexical
          apply substitute_lexical hm
          exact hcollected.1 _ rfl
        · exact ⟨by simp [Candidate.AllLexical], hcollected.2.1, hS.report _ hcollected.2.2⟩
    · refine ⟨by simp, hpulled.2.push ?_⟩
      intro c hc
      obtain rfl := List.mem_singleton.1 hc
      exact hpulled.1 _ rfl

theorem Lexical.expand (hS : S.Keeps Inv) (h : q.Lexical Inv) (name : Candidate) :
    (∀ cs ∈ (q.expand S name).1, Candidate.AllLexical cs) ∧ (q.expand S name).2.Lexical Inv := by
  unfold Queue.expand
  split
  · exact ⟨by simp, h⟩
  · split
    · refine ⟨?_, h⟩
      rintro _ ⟨⟩
      intro c hc
      obtain rfl := List.mem_singleton.1 hc
      trivial
    · split
      · exact ⟨by simp, h⟩
      · rename_i m hfind
        have hbody := (hS.macros h.2).find? hfind
        split
        · refine ⟨?_, h⟩
          rintro _ ⟨⟩
          exact placeAt_lexical (substitute_lexical hbody (by simp) _ _) _ _
        · exact h.expandInvocation hS hbody ..

theorem Lexical.settle (hS : S.Keeps Inv) (steps : Nat) (h : q.Lexical Inv) :
    (∀ t, (q.settle S steps).1 = .token t → t.Lexical) ∧ (q.settle S steps).2.Lexical Inv := by
  induction steps generalizing q with
  | zero => exact ⟨by simp [Queue.settle], h⟩
  | succ steps ih =>
      have hpulled := h.pull hS
      rw [Queue.settle]
      split
      · rename_i q' hpull
        rw [hpull] at hpulled
        exact ⟨by simp, hpulled.2⟩
      · rename_i c q' hpull
        rw [hpull] at hpulled
        have hc : ∀ t, Settled.token c.token = .token t → t.Lexical := by
          rintro _ ⟨⟩
          exact hpulled.1 _ rfl
        split
        · have hexpanded := hpulled.2.expand hS c
          split
          · rename_i cs q'' hexpand
            rw [hexpand] at hexpanded
            exact ih (hexpanded.2.push (hexpanded.1 _ rfl))
          · rename_i q'' hexpand
            rw [hexpand] at hexpanded
            exact ⟨hc, hexpanded.2⟩
        · exact ⟨hc, hpulled.2⟩

end Queue

end Essl
