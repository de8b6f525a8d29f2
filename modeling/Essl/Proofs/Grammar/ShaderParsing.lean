import Essl.Proofs.Grammar.StatementRoundTrip

/-!
# Parsing whole shaders

What the parser takes without a complaint are the words of well-formed shaders, and of a shader it
keeps every word. Where it complains, it does so at the first token that no shader goes on with.
-/

namespace Essl.Grammar

variable {tokens : List Token}

theorem parseShader_explains (tokens : List Token) : (parseShader tokens).Explains tokens :=
  shaderWithin_explains tokens.length tokens (Nat.le_refl _)

/-- The words of a well-formed shader make that shader. -/
theorem parseShader_of_spells {shader : Shader} (h : shader.WellFormed)
    (hw : Spells shader.pieces tokens) : parseShader tokens = ⟨shader.erase.declarations, none⟩ :=
  shaderWithin_apply shader.declarations tokens.length tokens h hw (Nat.le_refl _)

theorem parseShader_explains_none (h : (parseShader tokens).failure = none) :
    (parseShader tokens).shader.WellFormed ∧ Spells (parseShader tokens).shader.pieces tokens := by
  have hexplains := parseShader_explains tokens
  rwa [ParsedShader.Explains, h] at hexplains

theorem declaration_covers {t : Token} {rest later : List Token} {d : Declaration}
    (h : declarationRule.parse t rest = .ok (d, later)) :
    ∃ w, rest = w ++ later ∧ d.Covers (t :: w) := by
  have ht : t.kind ∈ declarationStart := by
    by_contra ht
    obtain ⟨expected, lookedAhead, hreject⟩ : Rejects (declarationRule.parse t) t rest :=
      Rule.rejects_parse rest ht
    rw [hreject] at h
    cases h
  have hbody : declarationRule.body t rest = .ok (d, later) := by
    rwa [show declarationRule.parse t = declarationRule.body t from Rule.parse_of_mem ht] at h
  exact (reads_declarationRule ht).ok hbody

theorem shaderWithin_wellFormed (turns : Nat) (tokens : List Token) :
    (shaderWithin turns tokens).shader.WellFormed := by
  induction turns generalizing tokens with
  | zero => simp [shaderWithin, ParsedShader.shader, Shader.WellFormed]
  | succ turns ih =>
      cases tokens with
      | nil => simp [shaderWithin, ParsedShader.shader, Shader.WellFormed]
      | cons t rest =>
          rw [shaderWithin]
          split
          · rename_i d later hparse
            obtain ⟨w, -, hd⟩ := declaration_covers hparse
            intro d' hd'
            rcases List.mem_cons.1 hd' with rfl | hd'
            · exact hd.1
            · exact ih later d' hd'
          · simp [ParsedShader.shader, Shader.WellFormed]

/-- Every declaration that is read is one that the grammar allows, also in front of an error. -/
theorem parseShader_wellFormed (tokens : List Token) : (parseShader tokens).shader.WellFormed :=
  shaderWithin_wellFormed tokens.length tokens

/-- Shaders are taken apart into all of their words and put together from them: nothing else is a
shader to the parser. -/
theorem parseShader_failure_eq_none_iff :
    (parseShader tokens).failure = none ↔
      ∃ shader : Shader, shader.WellFormed ∧ Spells shader.pieces tokens := by
  constructor
  · exact fun h => ⟨_, parseShader_explains_none h⟩
  · rintro ⟨shader, h, hw⟩
    rw [parseShader_of_spells h hw]

/-! ## No word is lost -/

/-- The tree of a shader without syntax errors has every token of it, in order and once, but for
the separators: commas in lists and the sign before an initial value. Written out with these put
back it is the shader that was read. -/
theorem parseShader_lossless (h : (parseShader tokens).failure = none) :
    Spells (parseShader tokens).shader.pieces tokens ∧
      (parseShader tokens).shader.unparse.map Prod.fst = tokens.map Token.kind ∧
      ((∀ t ∈ tokens, ∀ s : Separator, t.kind = .operator s.op → t.text = s.op.text) →
        (parseShader tokens).shader.unparse = tokens.map fun t => (t.kind, t.text)) := by
  obtain ⟨-, hspells⟩ := parseShader_explains_none h
  refine ⟨hspells, ?_, ?_⟩
  · exact hspells.map_kind
  · exact fun htext => hspells.map_lexeme htext

/-- In `int x = x(x, x);` the sign and the comma are put back. -/
theorem parseShader_lossless_declaration :
    let op := fun op => Token.plain (.operator op)
    let x := Token.plain .identifier
    let tokens := [.plain (.keyword (.type .int)), x, op .assign, x, op .openParen, x, op .comma, x,
      op .closeParen, op .semicolon]
    (parseShader tokens).failure = none ∧
      (parseShader tokens).shader.unparse = tokens.map fun t => (t.kind, t.text) := by
  intro op x tokens
  have hplain : ∀ t ∈ tokens, t = Token.plain t.kind := by simp [tokens, op, x]
  have hfailure : (parseShader tokens).failure = none := rfl
  refine ⟨hfailure, (parseShader_lossless hfailure).2.2 ?_⟩
  intro t ht s hs
  rw [hplain t ht, hs]
  rfl

/-! ## Where syntax errors are found -/

/-- A syntax error is found at one of the tokens, or behind all of them. -/
theorem parseShader_stops {f : SyntaxFailure} (h : (parseShader tokens).failure = some f) :
    (∃ accepted, tokens = accepted ++ (f.found.toList ++ f.rest)) ∧
      (f.found = none → f.rest = []) := by
  have hexplains := parseShader_explains tokens
  rw [ParsedShader.Explains, h] at hexplains
  obtain ⟨accepted, htokens, hend, -⟩ := hexplains
  exact ⟨⟨accepted, htokens⟩, hend⟩

/-- The tokens in front of the one that a syntax error is found at, or all tokens if it is found at
the end, are the start of a shader without syntax errors. -/
theorem parseShader_viable_prefix {f : SyntaxFailure} (h : (parseShader tokens).failure = some f) :
    ∃ accepted, tokens = accepted ++ (f.found.toList ++ f.rest) ∧ (f.found = none → f.rest = []) ∧
      ∃ continuation, (parseShader (accepted ++ continuation)).failure = none := by
  have hexplains := parseShader_explains tokens
  rw [ParsedShader.Explains, h] at hexplains
  obtain ⟨accepted, htokens, hend, shader, more, hshader, hspells⟩ := hexplains
  refine ⟨accepted, htokens, hend, more.map Token.plain, ?_⟩
  rw [parseShader_of_spells hshader hspells]

/-- After `invariant x` a comma or a semicolon must come. -/
theorem parseShader_viable_prefix_invariant :
    let invariant := Token.plain (.keyword (.qualifier .invariant))
    let x := Token.plain .identifier
    let tokens := [invariant, x, x]
    (parseShader tokens).failure = some ⟨[.operator .comma, .operator .semicolon], x, [], false⟩ ∧
      ∃ accepted, tokens = accepted ++ [x] ∧
        ∃ continuation, (parseShader (accepted ++ continuation)).failure = none := by
  intro invariant x tokens
  have hfailure : (parseShader tokens).failure =
      some ⟨[.operator .comma, .operator .semicolon], x, [], false⟩ := rfl
  obtain ⟨accepted, htokens, -, hcontinuation⟩ := parseShader_viable_prefix hfailure
  exact ⟨hfailure, accepted, htokens, hcontinuation⟩

end Essl.Grammar
