import Essl.Proofs.Grammar.SyntaxErrors

/-!
# Parsing one shader behind another

No declaration depends on a token behind its own last one. So a shader without syntax errors does
not change what is read behind it, neither the declarations nor the error and its place.
-/

namespace Essl.Grammar

variable {tokens a b rest later : List Token} {t : Token} {d : Declaration}

/-- Turns that are left over do not matter. -/
theorem shaderWithin_eq_parseShader (turns : Nat) (tokens : List Token)
    (h : tokens.length ≤ turns) : shaderWithin turns tokens = parseShader tokens := by
  suffices hturns : ∀ (m n : Nat) (ts : List Token), ts.length ≤ m → ts.length ≤ n →
      shaderWithin m ts = shaderWithin n ts from hturns turns tokens.length tokens h le_rfl
  intro m
  induction m with
  | zero =>
      intro n ts hm _
      rw [List.eq_nil_of_length_eq_zero (Nat.le_zero.1 hm)]
      cases n <;> rfl
  | succ m ih =>
      intro n ts hm hn
      cases ts with
      | nil => cases n <;> rfl
      | cons t rest =>
          cases n with
          | zero => exact absurd hn (Nat.not_succ_le_zero _)
          | succ n =>
              rw [shaderWithin, shaderWithin]
              split
              · rename_i d later hparse
                obtain ⟨w, hrest, -⟩ := declaration_covers hparse
                have hlater : later.length ≤ rest.length := by simp [hrest]
                rw [List.length_cons] at hm hn
                rw [ih n later (by omega) (by omega)]
              · rfl

theorem parseShader_cons_of_ok (h : declarationRule.parse t rest = .ok (d, later)) :
    parseShader (t :: rest) =
      ⟨d :: (parseShader later).declarations, (parseShader later).failure⟩ := by
  obtain ⟨w, hrest, -⟩ := declaration_covers h
  have hlater : later.length ≤ rest.length := by simp [hrest]
  rw [parseShader, List.length_cons, shaderWithin, h]
  simp only [shaderWithin_eq_parseShader rest.length later hlater]

theorem parseShader_cons_of_error {f : SyntaxFailure}
    (h : declarationRule.parse t rest = .error f) : parseShader (t :: rest) = ⟨[], some f⟩ := by
  rw [parseShader, List.length_cons, shaderWithin, h]

/-- A declaration is read from its own tokens, whatever comes behind them. -/
theorem declarationRule_parse_span (h : declarationRule.parse t rest = .ok (d, later)) :
    ∃ w, rest = w ++ later ∧ ∀ b, declarationRule.parse t (w ++ b) = .ok (d, b) := by
  obtain ⟨w, rfl, hd⟩ := declaration_covers h
  have herase : d.erase = d := by
    rw [declarationRule_parse hd.1 hd.2] at h
    exact (Prod.mk.inj (Except.ok.inj h)).1
  exact ⟨w, rfl, fun b => by rw [declarationRule_parse hd.1 hd.2, herase]⟩

theorem parseShader_append (h : (parseShader a).failure = none) (b : List Token) :
    parseShader (a ++ b) =
      ⟨(parseShader a).declarations ++ (parseShader b).declarations, (parseShader b).failure⟩ := by
  induction hn : a.length using Nat.strong_induction_on generalizing a with
  | _ n ih =>
      cases a with
      | nil => rfl
      | cons t rest =>
          cases hparse : declarationRule.parse t rest with
          | error f =>
              rw [parseShader_cons_of_error hparse] at h
              cases h
          | ok result =>
              obtain ⟨d, later⟩ := result
              obtain ⟨w, rfl, hspan⟩ := declarationRule_parse_span hparse
              have hlater : later.length < n := by
                rw [← hn, List.length_cons, List.length_append]
                omega
              rw [parseShader_cons_of_ok hparse] at h ⊢
              have hbehind := ih later.length hlater h rfl
              rw [List.cons_append, List.append_assoc, parseShader_cons_of_ok (hspan (later ++ b)),
                hbehind]
              rfl

/-- Only the empty shader has no declarations. -/
theorem eq_nil_of_parseShader (h : (parseShader tokens).failure = none)
    (hd : (parseShader tokens).declarations = []) : tokens = [] := by
  have hspells := (parseShader_explains_none h).2
  rw [ParsedShader.shader, hd] at hspells
  exact Spells.nil_iff.1 hspells

/-- In front of the error there is a shader without errors, of all the declarations. -/
theorem parseShader_exists_kept (tokens : List Token) :
    ∃ kept remaining, tokens = kept ++ remaining ∧ (parseShader kept).failure = none ∧
      (parseShader tokens).declarations = (parseShader kept).declarations ∧
      (parseShader remaining).declarations = [] := by
  induction hn : tokens.length using Nat.strong_induction_on generalizing tokens with
  | _ n ih =>
      cases tokens with
      | nil => exact ⟨[], [], rfl, rfl, rfl, rfl⟩
      | cons t rest =>
          cases hparse : declarationRule.parse t rest with
          | error f =>
              have herror := parseShader_cons_of_error hparse
              exact ⟨[], t :: rest, rfl, rfl, by rw [herror]; rfl, by rw [herror]⟩
          | ok result =>
              obtain ⟨d, later⟩ := result
              obtain ⟨w, rfl, hspan⟩ := declarationRule_parse_span hparse
              have hlater : later.length < n := by
                rw [← hn, List.length_cons, List.length_append]
                omega
              obtain ⟨kept, remaining, rfl, hkept, hdeclarations, hremaining⟩ :=
                ih later.length hlater later rfl
              refine ⟨t :: (w ++ kept), remaining, by simp, ?_, ?_, hremaining⟩
              · rw [parseShader_cons_of_ok (hspan kept)]
                exact hkept
              · rw [parseShader_cons_of_ok (hspan kept), parseShader_cons_of_ok hparse,
                  hdeclarations]

/-- The declarations that are kept are those of the longest shader in front without an error. -/
theorem parseShader_longest (tokens : List Token) :
    ∃ kept, kept <+: tokens ∧ (parseShader kept).failure = none ∧
      (parseShader tokens).declarations = (parseShader kept).declarations ∧
      ∀ front, front <+: tokens → (parseShader front).failure = none → front <+: kept := by
  obtain ⟨kept, remaining, rfl, hkept, hdeclarations, hremaining⟩ := parseShader_exists_kept tokens
  refine ⟨kept, List.prefix_append _ _, hkept, hdeclarations, fun front hfront hfailure => ?_⟩
  rcases List.prefix_or_prefix_of_prefix hfront (List.prefix_append kept remaining) with h | h
  · exact h
  -- A longer one would have the declarations of what is between, and there are none.
  · obtain ⟨between, rfl⟩ := h
    obtain ⟨behind, hbehind⟩ := hfront
    obtain rfl : between ++ behind = remaining := by simpa using hbehind
    rw [parseShader_append hkept] at hfailure
    rw [parseShader_append hfailure] at hremaining
    have hbetween := eq_nil_of_parseShader hfailure (List.append_eq_nil_iff.1 hremaining).1
    exact ⟨[], by rw [hbetween, List.append_nil, List.append_nil]⟩

end Essl.Grammar

namespace Essl.Parser

open Grammar

/-- A parser of a list of tokens. -/
def ofTokens (tokens : List Token) : Parser := ofFeed (.ofTokens tokens)

/-- After some tokens are taken, the place of the last one of them is known. -/
theorem advance_last (count : Nat) (p : Parser) :
    (p.advance count).last =
      ((p.stream.feed.tokens.take count).getLast?.map Token.location).or p.last := by
  induction count generalizing p with
  | zero => rfl
  | succ count ih =>
      obtain ⟨⟨⟨deliveries, trailing⟩, noticed⟩, last⟩ := p
      rw [Parser.advance, ih]
      cases deliveries with
      | nil => simp [Parser.take, TokenStream.next, Feed.tokens, Feed.empty]
      | cons d more =>
          simp only [Parser.take, TokenStream.next, Feed.tokens, List.map_cons, List.take_succ_cons,
            List.getLast?_cons]
          cases ((more.map Delivery.token).take count).getLast? <;> rfl

theorem peek_last (p : Parser) : p.peek.2.last = p.last := rfl

/-- What is reported of a failure: it is at the token found, or else behind all tokens. -/
def report (tokens : List Token) (f : SyntaxFailure) : FrontError :=
  ⟨.grammar (.expected f.expected (f.found.map Token.text)),
    f.found.elim (tokens.getLast?.elim (.whole "") fun t => t.location.endpoint) Token.location⟩

theorem ofTokens_shader (tokens : List Token) :
    (ofTokens tokens).shader.1 = (parseShader tokens).shader ∧
      (ofTokens tokens).shader.2.1 = (parseShader tokens).failure.toList.map (report tokens) := by
  have hstart := ReadsFrom.start (.ofTokens tokens)
  have hnoticed : ∀ p : Parser, p.ReadsFrom (.ofTokens tokens) → p.stream.noticed = [] := by
    intro p hp
    have herrors := hp.errors
    rw [Feed.errors_ofTokens] at herrors
    exact (List.append_eq_nil_iff.1 herrors).1
  have hfeed : (ofTokens tokens).stream.feed.tokens = tokens := Feed.tokens_ofTokens tokens
  unfold Parser.shader
  rw [hfeed]
  dsimp only
  cases hfailure : (parseShader tokens).failure with
  | none => exact ⟨rfl, hnoticed _ (hstart.advance _).peek⟩
  | some f =>
      refine ⟨rfl, ?_⟩
      have hempty := hnoticed _ (hstart.afterFailure f)
      have hend := (parseShader_stops hfailure).2
      simp only [Option.toList_some, List.map_cons, List.map_nil, TokenStream.takeErrors]
      rw [show ((ofTokens tokens).afterFailure f).stream.noticed = [] from hempty, List.nil_append]
      cases hfound : f.found with
      | some t => simp [report, unexpected, hfound]
      | none =>
          have hlast : ((ofTokens tokens).afterFailure f).last =
              tokens.getLast?.map Token.location := by
            have hsize : (ofTokens tokens).stream.feed.deliveries.length = tokens.length := by
              simp [ofTokens, ofFeed, TokenStream.ofFeed, Feed.ofTokens]
            rw [afterFailure, hfound, hend hfound, hsize]
            simp only [Option.isNone_none, Bool.true_or, if_true, List.length_nil, Nat.sub_zero]
            rw [peek_last, advance_last, hfeed, List.take_length]
            exact Option.or_none
          simp only [report, unexpected, hfound, Option.elim_none, endpoint, hlast]
          cases tokens.getLast? <;> rfl

theorem ofTokens_errors_eq_nil_iff (tokens : List Token) :
    (ofTokens tokens).shader.2.1 = [] ↔ (parseShader tokens).failure = none := by
  rw [(ofTokens_shader tokens).2]
  cases (parseShader tokens).failure <;> simp

/-- Behind a shader without syntax errors the same is read as without it, and the same error is
reported. What is kept of any tokens is the longest shader without errors in front. -/
theorem shader_compositional (a b : List Token) (h : (ofTokens a).shader.2.1 = []) :
    (ofTokens (a ++ b)).shader.1.declarations =
        (ofTokens a).shader.1.declarations ++ (ofTokens b).shader.1.declarations ∧
      (ofTokens (a ++ b)).shader.2.1 = (ofTokens b).shader.2.1 ∧
      ∃ kept, kept <+: a ++ b ∧ (ofTokens kept).shader.2.1 = [] ∧
        (ofTokens (a ++ b)).shader.1 = (ofTokens kept).shader.1 ∧
        ∀ front, front <+: a ++ b → (ofTokens front).shader.2.1 = [] → front <+: kept := by
  have ha := (ofTokens_errors_eq_nil_iff a).1 h
  have happend := parseShader_append ha b
  refine ⟨?_, ?_, ?_⟩
  · rw [(ofTokens_shader (a ++ b)).1, (ofTokens_shader a).1, (ofTokens_shader b).1, happend]
    rfl
  · rw [(ofTokens_shader (a ++ b)).2, (ofTokens_shader b).2, happend]
    cases hb : b.getLast? with
    | none =>
        rw [List.getLast?_eq_none_iff.1 hb]
        rfl
    -- The last token of all is the last one of the second part, which has one.
    | some t =>
        have hlast : (a ++ b).getLast? = b.getLast? := by rw [List.getLast?_append, hb]; rfl
        exact List.map_congr_left fun f _ => by rw [report, report, hlast]
  · obtain ⟨kept, hkept, hfailure, hdeclarations, hlongest⟩ := parseShader_longest (a ++ b)
    refine ⟨kept, hkept, (ofTokens_errors_eq_nil_iff kept).2 hfailure, ?_, ?_⟩
    · rw [(ofTokens_shader (a ++ b)).1, (ofTokens_shader kept).1]
      exact congrArg Shader.mk hdeclarations
    · exact fun front hfront hnone =>
        hlongest front hfront ((ofTokens_errors_eq_nil_iff front).1 hnone)

/-- In `precision highp int; int` the first declaration is kept, and the error is behind the
end. -/
theorem shader_compositional_precision :
    let precision := [Token.plain (.keyword .precision), .plain (.keyword (.qualifier .highp)),
      .plain (.keyword (.type .int)), .plain (.operator .semicolon)]
    let int := [Token.plain (.keyword (.type .int))]
    (ofTokens precision).shader.2.1 = [] ∧
      (ofTokens (precision ++ int)).shader.1.declarations =
        (ofTokens precision).shader.1.declarations ∧
      (ofTokens (precision ++ int)).shader.2.1 = (ofTokens int).shader.2.1 ∧
      (ofTokens int).shader.2.1.length = 1 := by
  intro precision int
  have hnone : (ofTokens precision).shader.2.1 = [] := rfl
  obtain ⟨hdeclarations, herrors, -⟩ := shader_compositional precision int hnone
  have hint : (ofTokens int).shader.1.declarations = [] := rfl
  rw [hint, List.append_nil] at hdeclarations
  exact ⟨hnone, hdeclarations, herrors, rfl⟩

end Essl.Parser
