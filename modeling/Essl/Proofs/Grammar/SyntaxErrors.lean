import Essl.Parser
import Essl.Proofs.Grammar.ShaderParsing
import Essl.Proofs.Token.Places

/-!
# Errors of parsing

Parsing reports what it notices of the errors in a feed, which are the first ones, and then at most
one error of its own. That one is at a token or behind the last token taken.
-/

namespace Essl.Parser

open Grammar

/-- The parser is part of the way through a feed. -/
structure ReadsFrom (feed : Feed) (p : Parser) : Prop where
  errors : p.stream.noticed ++ p.stream.feed.errors = feed.errors
  tokens : p.stream.feed.tokens ⊆ feed.tokens
  last : ∀ l ∈ p.last, l.JoinedFrom feed.tokens

variable {feed : Feed} {p : Parser}

namespace ReadsFrom

theorem start (feed : Feed) : (ofFeed feed).ReadsFrom feed :=
  ⟨rfl, List.Subset.refl _, by simp [ofFeed]⟩

theorem take (h : p.ReadsFrom feed) : p.take.2.ReadsFrom feed := by
  obtain ⟨⟨⟨deliveries, trailing⟩, noticed⟩, last⟩ := p
  obtain ⟨herrors, htokens, hlast⟩ := h
  cases deliveries with
  | nil => exact ⟨by simpa [Parser.take, TokenStream.next, Feed.errors, Feed.empty] using herrors,
      List.nil_subset _, hlast⟩
  | cons d rest =>
      have hd : d.token ∈ feed.tokens := htokens List.mem_cons_self
      refine ⟨?_, fun t ht => htokens (List.mem_cons_of_mem _ ht), ?_⟩
      · rw [Feed.errors_cons] at herrors
        simpa [Parser.take, TokenStream.next] using herrors
      · rintro _ ⟨⟩
        exact .token hd

theorem peek (h : p.ReadsFrom feed) : p.peek.2.ReadsFrom feed := by
  obtain ⟨⟨⟨deliveries, trailing⟩, noticed⟩, last⟩ := p
  obtain ⟨herrors, htokens, hlast⟩ := h
  cases deliveries with
  | nil => exact ⟨by simpa [Parser.peek, TokenStream.peek, Feed.errors, Feed.empty] using herrors,
      List.nil_subset _, hlast⟩
  | cons d rest =>
      refine ⟨?_, htokens, hlast⟩
      rw [Feed.errors_cons] at herrors
      simpa [Parser.peek, TokenStream.peek, Feed.errors_cons] using herrors

theorem advance (h : p.ReadsFrom feed) (count : Nat) : (p.advance count).ReadsFrom feed := by
  induction count generalizing p with
  | zero => exact h
  | succ count ih => exact ih h.take

theorem afterFailure (h : p.ReadsFrom feed) (failure : SyntaxFailure) :
    (p.afterFailure failure).ReadsFrom feed := by
  unfold Parser.afterFailure
  dsimp only
  split
  · exact (h.advance _).peek
  · exact h.advance _

/-- An error of the parser itself is at a token, or behind the last one taken, if there is one. -/
theorem unexpected (h : p.ReadsFrom feed) (expected : List TokenKind) {found : Option Token}
    (hfound : ∀ t ∈ found, t ∈ feed.tokens) :
    let error := p.unexpected expected found
    (∃ c, error.cause = .grammar c) ∧
      (error.location.MadeFrom feed.tokens ∨ error.location = .whole "") := by
  refine ⟨⟨_, rfl⟩, ?_⟩
  cases found with
  | some t => exact .inl (.inl (.token (hfound t rfl)))
  | none =>
      cases hlast : p.last with
      | none =>
          refine .inr ?_
          simp [Parser.unexpected, endpoint, hlast]
      | some l =>
          refine .inl (.inr ⟨l, h.last l hlast, ?_⟩)
          simp [Parser.unexpected, endpoint, hlast]

end ReadsFrom

/-- What a shader is parsed to, and the errors that are reported with it. -/
theorem shader_errors (feed : Feed) :
    (ofFeed feed).shader.1 = (parseShader feed.tokens).shader ∧
      ∃ noticed own : List FrontError, (ofFeed feed).shader.2.1 = noticed ++ own ∧
        noticed <+: feed.errors ∧ ∀ e ∈ own, (∃ c, e.cause = .grammar c) ∧
          (e.location.MadeFrom feed.tokens ∨ e.location = .whole "") := by
  have hstart := ReadsFrom.start feed
  have hnoticed : ∀ p : Parser, p.ReadsFrom feed → p.stream.noticed <+: feed.errors :=
    fun p hp => ⟨_, hp.errors⟩
  unfold Parser.shader
  dsimp only
  split
  · exact ⟨rfl, _, [], (List.append_nil _).symm, hnoticed _ (hstart.advance _).peek, by simp⟩
  · rename_i failure hfailure
    have hp := hstart.afterFailure failure
    obtain ⟨⟨accepted, htokens⟩, -⟩ := parseShader_stops hfailure
    refine ⟨rfl, _, _, rfl, hnoticed _ hp, List.forall_mem_singleton.2 ?_⟩
    refine hp.unexpected failure.expected fun t ht => ?_
    have htokens : feed.tokens = accepted ++ (failure.found.toList ++ failure.rest) := htokens
    rw [htokens]
    simp [Option.mem_def.1 ht]

end Essl.Parser
