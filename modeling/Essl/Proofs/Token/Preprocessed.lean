import Essl.Proofs.Token.Lexical

/-!
# How preprocessed tokens are spelled

Directives take replacement lists from the lines of the shader and put nothing of their own among
its tokens.
-/

namespace Essl

/-! ## Directives -/

theorem parameterNames?_mem {line : List Token} {names : List String} {body : List Token}
    (h : parameterNames? line = some (names, body)) : ∀ t ∈ body, t ∈ line := by
  fun_induction parameterNames? line generalizing names body with
  | case1 name next rest hname hclosing =>
      simp only [Option.some.injEq, Prod.mk.injEq] at h
      obtain ⟨-, rfl⟩ := h
      simp +contextual
  | case2 name next rest hname hclosing hcomma ih =>
      obtain ⟨⟨names', body'⟩, hrest, heq⟩ := Option.map_eq_some_iff.1 h
      obtain ⟨-, rfl⟩ := Prod.mk.inj heq
      intro t ht
      simp [ih hrest t ht]
  | case3 => cases h
  | case4 => cases h
  | case5 => cases h

theorem parameterList?_mem {line : List Token} {names : List String} {body : List Token}
    (h : parameterList? line = some (names, body)) : ∀ t ∈ body, t ∈ line := by
  cases line with
  | nil => cases h
  | cons t rest =>
      rw [parameterList?] at h
      split at h
      · simp only [Option.some.injEq, Prod.mk.injEq] at h
        obtain ⟨-, rfl⟩ := h
        simp +contextual
      · exact parameterNames?_mem h

namespace Environment

variable (env : Environment) (directive : Token) (line : List Token)

@[simp] theorem macros_report (cause : DirectiveCause) (location : Location) :
    (env.report cause location).macros = env.macros := rfl

@[simp] theorem macros_openSection (active value : Bool) (location : Location) :
    (env.openSection active value location).macros = env.macros := rfl

@[simp] theorem macros_condition : (env.condition directive line).2.macros = env.macros := by
  unfold condition
  split
  rename_i resolved env' hresolved
  have henv : env'.macros = env.macros := by
    split at hresolved <;> (obtain ⟨-, rfl⟩ := Prod.mk.inj hresolved; rfl)
  dsimp only
  split <;> simp [henv]

@[simp] theorem macros_macroName : (env.macroName directive line).2.macros = env.macros := by
  unfold macroName
  split
  · rfl
  · split <;> rfl

@[simp] theorem macros_elif : (env.elif directive line).macros = env.macros := by
  unfold elif
  split
  · rfl
  · dsimp only
    split <;> split <;> simp

@[simp] theorem macros_otherwise : (env.otherwise directive).macros = env.macros := by
  unfold otherwise
  split
  · rfl
  · split <;> rfl

@[simp] theorem macros_endif : (env.endif directive).macros = env.macros := by
  unfold endif
  split <;> rfl

variable {env line}

theorem define_lexical (henv : env.macros.Lexical) (hline : ∀ t ∈ line, t.Lexical) :
    (env.define directive line).macros.Lexical := by
  have hnamed := env.macros_macroName directive line
  unfold define
  split
  · rename_i env' hname
    rw [hname] at hnamed
    rwa [hnamed]
  · rename_i name env' hname
    rw [hname] at hnamed
    have henv' : env'.macros.Lexical := by rwa [hnamed]
    split
    · exact henv'
    · dsimp only
      split
      · exact henv'.define (by simp)
      · rename_i opening rest htail
        have hrest : ∀ t ∈ opening :: rest, t.Lexical :=
          fun t ht => hline t (List.mem_of_mem_tail (htail ▸ ht))
        split
        · split
          · rename_i parameters body hlist
            exact henv'.define fun t ht =>
              hrest t (List.mem_cons_of_mem opening (parameterList?_mem hlist t ht))
          · exact henv'
        · exact henv'.define hrest

theorem undef_lexical (henv : env.macros.Lexical) : (env.undef directive line).macros.Lexical := by
  have hnamed := env.macros_macroName directive line
  unfold undef
  split
  · rename_i env' hname
    rw [hname] at hnamed
    rwa [hnamed]
  · rename_i name env' hname
    rw [hname] at hnamed
    have henv' : env'.macros.Lexical := by rwa [hnamed]
    split
    · exact henv'
    · exact henv'.undefine name.text

theorem directive_lexical (henv : env.macros.Lexical) (hline : ∀ t ∈ line, t.Lexical) :
    (env.directive directive line).macros.Lexical := by
  unfold Environment.directive
  split
  · exact henv
  · rename_i name line
    have hrest : ∀ t ∈ line, t.Lexical := fun t ht => hline t (List.mem_cons_of_mem name ht)
    dsimp only
    split
    · rw [macros_openSection]
      split <;> simpa using henv
    · rw [macros_openSection]
      split
      · have hnamed := env.macros_macroName name line
        split <;> rename_i hname <;> rw [hname] at hnamed <;> rwa [hnamed]
      · exact henv
    · simpa using henv
    · simpa using henv
    · simpa using henv
    · split
      · split
        · exact define_lexical name henv hrest
        · exact undef_lexical name henv
        · exact henv
        · exact henv
        · exact henv
      · exact henv

theorem defineText_lexical (henv : env.macros.Lexical) (name value : String) (origin : Origin) :
    (env.defineText name value origin).macros.Lexical :=
  henv.define (Code.scan_lexical _).tokens

theorem predefined_lexical : predefined.macros.Lexical := by
  apply defineText_lexical
  apply defineText_lexical
  apply defineText_lexical
  simp [initial, MacroTable.Lexical, MacroTable.empty]

end Environment

/-! ## Reading -/

theorem Feed.Lexical.line {feed : Feed} (h : feed.Lexical) :
    (∀ t ∈ feed.line.tokens, t.Lexical) ∧ feed.line.rest.Lexical := by
  have htaken : ∀ t ∈ (feed.deliveries.takeWhile (!·.token.firstInLine)).map Delivery.token,
      t.Lexical := by
    intro t ht
    obtain ⟨d, hd, rfl⟩ := List.mem_map.1 ht
    exact h d ((List.takeWhile_sublist _).mem hd)
  have hdropped : ∀ d ∈ feed.deliveries.dropWhile (!·.token.firstInLine), d.token.Lexical :=
    fun d hd => h d ((List.dropWhile_sublist _).mem hd)
  unfold Feed.line
  dsimp only
  split
  · exact ⟨htaken, by simp [Feed.Lexical, Feed.empty]⟩
  · rename_i next rest heq
    rw [heq] at hdropped
    refine ⟨htaken, ?_⟩
    intro d hd
    rcases List.mem_cons.1 hd with rfl | hd
    · exact hdropped next List.mem_cons_self
    · exact hdropped d (List.mem_cons_of_mem next hd)

namespace Reader

/-- The tokens to come and the replacement lists are spelled well. -/
def Lexical (r : Reader) : Prop := r.feed.Lexical ∧ r.env.macros.Lexical

theorem next_lexical {r : Reader} (h : r.Lexical) :
    (∀ t ∈ r.next.1, t.Lexical) ∧ r.next.2.Lexical := by
  fun_induction Reader.next r with
  | case1 r env heq =>
      exact ⟨by simp, by simp [Feed.Lexical, Feed.empty], h.2⟩
  | case2 r env delivery rest heq feed env' hstarts line env'' ih =>
      have hfeed : feed.Lexical := fun d hd => h.1 d (heq ▸ List.mem_cons_of_mem delivery hd)
      exact ih ⟨hfeed.line.2, Environment.directive_lexical _ h.2 hfeed.line.1⟩
  | case3 r env delivery rest heq feed env' hstarts hactive =>
      refine ⟨?_, fun d hd => h.1 d (heq ▸ List.mem_cons_of_mem delivery hd), h.2⟩
      rintro _ ⟨⟩
      exact h.1 delivery (heq ▸ List.mem_cons_self)
  | case4 r env delivery rest heq feed env' hstarts hactive ih =>
      exact ih ⟨fun d hd => h.1 d (heq ▸ List.mem_cons_of_mem delivery hd), h.2⟩

theorem supply_keeps : supply.Keeps Lexical where
  token h := (next_lexical h).1
  next h := (next_lexical h).2
  macros h := h.2
  report _ h := h

end Reader

namespace Preprocessor

/-- All that is ready or to come is spelled well. -/
def Lexical (p : Preprocessor) : Prop :=
  (∀ t ∈ p.ready, t.Lexical) ∧ p.queue.Lexical Reader.Lexical

variable {p : Preprocessor}

theorem ofFeed_lexical {feed : Feed} (h : feed.Lexical) : (ofFeed feed).Lexical :=
  ⟨by simp [ofFeed], by simp [ofFeed, Candidate.AllLexical], h, Environment.predefined_lexical⟩

theorem Lexical.defineAll (h : p.Lexical) (definitions : List (String × String)) :
    (p.defineAll definitions).Lexical := by
  induction definitions generalizing p with
  | nil => exact h
  | cons d ds ih =>
      apply ih
      exact ⟨h.1, h.2.1, h.2.2.1, Environment.defineText_lexical h.2.2.2 _ _ _⟩

theorem Lexical.next (h : p.Lexical) : (∀ t ∈ p.next.1, t.Lexical) ∧ p.next.2.Lexical := by
  unfold Preprocessor.next
  split
  · rename_i t ready heq
    refine ⟨?_, fun u hu => h.1 u (heq ▸ List.mem_cons_of_mem t hu), h.2⟩
    rintro _ ⟨⟩
    exact h.1 t (heq ▸ List.mem_cons_self)
  · have hsettled := h.2.settle Reader.supply_keeps (p.queue.stepLimit Reader.supply)
    unfold produce Queue.next
    split
    · rename_i t q heq
      rw [heq] at hsettled
      refine ⟨?_, h.1, hsettled.2⟩
      rintro _ ⟨⟩
      exact hsettled.1 t rfl
    · rename_i q heq
      rw [heq] at hsettled
      exact ⟨by simp, h.1, hsettled.2⟩
    · rename_i q heq
      rw [heq] at hsettled
      refine ⟨by simp, h.1, by simp [Candidate.AllLexical], ?_, hsettled.2.2.2⟩
      simp [Feed.Lexical, Feed.empty]

theorem deliver_lexical (count : Nat) (h : p.Lexical) : (deliver count p).Lexical := by
  induction count generalizing p with
  | zero => simp [deliver, Feed.Lexical, Feed.empty]
  | succ count ih =>
      have hnext := h.next
      rw [deliver]
      split
      · rename_i t p' heq
        rw [heq] at hnext
        intro d hd
        rcases List.mem_cons.1 hd with rfl | hd
        · exact hnext.1 t rfl
        · exact ih (p := p'.takeErrors.2) hnext.2 d hd
      · simp [Feed.Lexical]

end Preprocessor

theorem Code.preprocess_lexical (code : Code) (definitions : List (String × String)) :
    (code.preprocess definitions).Lexical := by
  apply Preprocessor.deliver_lexical
  apply Preprocessor.Lexical.defineAll
  exact Preprocessor.ofFeed_lexical code.scan_lexical

/-! ## Tokens of texts -/

/-- Some text has the token in it, as it stands or after preprocessing. -/
def Token.Written (t : Token) : Prop :=
  ∃ code : Code, t ∈ code.scan.tokens ∨
    ∃ definitions : List (String × String), t ∈ (code.preprocess definitions).tokens

theorem Token.Written.lexical {t : Token} (h : t.Written) : t.Lexical := by
  obtain ⟨code, hscan | ⟨definitions, hpreprocess⟩⟩ := h
  · exact code.scan_lexical.tokens t hscan
  · exact (code.preprocess_lexical definitions).tokens t hpreprocess

end Essl
