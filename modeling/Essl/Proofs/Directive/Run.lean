import Essl.Proofs.Directive.Selection
import Essl.Proofs.Macro.Supplied

/-!
# Conditional compilation

Whatever a preprocessor is asked for, it reads its feed one delivery after the other, and at every
point in between the flags of the open sections say what their histories say. So at most one group
of each section counts.
-/

namespace Essl

namespace Environment

/-- Adds errors. -/
def note (env : Environment) (errors : List FrontError) : Environment :=
  { env with errors := env.errors ++ errors }

end Environment

namespace Reader

/-- A point that the reading of a feed passes, with the histories of the sections open there.
Between two deliveries macros can be defined, and errors added and taken. -/
inductive Reaches (feed : Feed) : Reader → List History → Prop where
  | start : Reaches feed ⟨feed, .predefined⟩ []
  /-- A directive is carried out. -/
  | directive {r : Reader} {histories : List History} {hash : Delivery} {rest : List Delivery}
      {line : Line} {env : Environment} :
      Reaches feed r histories → r.feed.deliveries = hash :: rest →
      startsDirective hash.token = true → Feed.line ⟨rest, r.feed.trailing⟩ = line →
      (r.env.note hash.errors).note line.errors = env →
      Reaches feed ⟨line.rest, env.directive hash.token line.tokens⟩
        (History.follow env hash.token line.tokens histories)
  /-- Any other token is handed on or dropped. -/
  | token {r : Reader} {histories : List History} {delivery : Delivery} {rest : List Delivery} :
      Reaches feed r histories → r.feed.deliveries = delivery :: rest →
      startsDirective delivery.token = false →
      Reaches feed ⟨⟨rest, r.feed.trailing⟩, r.env.note delivery.errors⟩ histories
  /-- The end closes all sections. -/
  | finish {r : Reader} {histories : List History} :
      Reaches feed r histories → r.feed.deliveries = [] →
      Reaches feed ⟨.empty, finish (r.env.note r.feed.trailing)⟩ []
  | outside {r : Reader} {histories : List History} (macros : MacroTable)
      (errors : List FrontError) :
      Reaches feed r histories → Reaches feed ⟨r.feed, ⟨macros, r.env.sections, errors⟩⟩ histories
  /-- What is left is given up. -/
  | abandon {r : Reader} {histories : List History} :
      Reaches feed r histories → Reaches feed ⟨.empty, r.env⟩ histories

variable {feed : Feed}

theorem Reaches.mirrored {r : Reader} {histories : List History} (h : Reaches feed r histories) :
    Mirrored r.env.sections histories := by
  induction h with
  | start => exact .nil
  | directive _ _ _ _ henv ih =>
      apply Mirrored.directive
      rw [← henv]
      exact ih
  | token _ _ _ ih => exact ih
  | finish => exact .nil
  | outside _ _ _ ih => exact ih
  | abandon _ ih => exact ih

theorem Reaches.next {r : Reader} (h : ∃ histories, Reaches feed r histories) :
    ∃ histories, Reaches feed r.next.2 histories := by
  obtain ⟨histories, h⟩ := h
  fun_induction Reader.next r generalizing histories with
  | case1 r env heq => exact ⟨[], h.finish heq⟩
  | case2 r env delivery rest heq feed env' hstarts line env'' ih =>
      exact ih _ (h.directive heq hstarts rfl rfl)
  | case3 r env delivery rest heq feed env' hstarts hactive =>
      exact ⟨histories, h.token heq (by simpa using hstarts)⟩
  | case4 r env delivery rest heq feed env' hstarts hactive ih =>
      exact ih _ (h.token heq (by simpa using hstarts))

theorem supply_preserves : supply.Preserves fun r => ∃ histories, Reaches feed r histories where
  next h := Reaches.next h
  report error h := by
    obtain ⟨histories, h⟩ := h
    exact ⟨histories, h.outside _ _⟩

end Reader

namespace Preprocessor

/-- What can be asked of a preprocessor. -/
inductive Request where
  | next
  | peek
  | eof
  | unconsume (token : Token)
  | takeErrors
  | define (name value : String)

/-- The preprocessor after a request. -/
def serve (p : Preprocessor) : Request → Preprocessor
  | .next => p.next.2
  | .peek => p.peek.2
  | .eof => p.eof.2
  | .unconsume token => p.unconsume token
  | .takeErrors => p.takeErrors.2
  | .define name value => p.define name value

section

variable {Inv : Reader → Prop} {p : Preprocessor} (hS : Reader.supply.Preserves Inv)
variable (habandon : ∀ {r : Reader}, Inv r → Inv ⟨.empty, r.env⟩)

include hS habandon

/-- Looking for a token keeps what reading keeps and what giving up does not end. -/
theorem produce_preserves (h : Inv p.queue.later) : Inv p.produce.2.queue.later := by
  have hsettled := Queue.settle_preserves hS (p.queue.stepLimit Reader.supply) h
  unfold Preprocessor.produce Queue.next
  split <;> rename_i hsettle <;> rw [hsettle] at hsettled
  · exact hsettled
  · exact hsettled
  · exact habandon hsettled

theorem next_preserves (h : Inv p.queue.later) : Inv p.next.2.queue.later := by
  unfold Preprocessor.next
  split
  · exact h
  · exact produce_preserves hS habandon h

theorem peek_preserves (h : Inv p.queue.later) : Inv p.peek.2.queue.later := by
  have hproduced := produce_preserves hS habandon h
  unfold Preprocessor.peek
  split
  · exact h
  · split <;> rename_i hproduce <;> rw [hproduce] at hproduced <;> exact hproduced

end

/-- Where a preprocessor has got to is a point that the reading of its feed passes. -/
def Reaches (feed : Feed) (p : Preprocessor) : Prop :=
  ∃ histories, Reader.Reaches feed p.queue.later histories

variable {feed : Feed} {p : Preprocessor}

theorem Reaches.next (h : p.Reaches feed) : p.next.2.Reaches feed :=
  next_preserves Reader.supply_preserves (fun ⟨histories, h⟩ => ⟨histories, h.abandon⟩) h

theorem Reaches.peek (h : p.Reaches feed) : p.peek.2.Reaches feed :=
  peek_preserves Reader.supply_preserves (fun ⟨histories, h⟩ => ⟨histories, h.abandon⟩) h

theorem Reaches.serve (h : p.Reaches feed) (request : Request) :
    (p.serve request).Reaches feed := by
  cases request with
  | next => exact h.next
  | peek => exact h.peek
  | eof => exact h.peek
  | unconsume token => exact h
  | takeErrors =>
      obtain ⟨histories, h⟩ := h
      exact ⟨histories, h.outside _ _⟩
  | define name value =>
      obtain ⟨histories, h⟩ := h
      exact ⟨histories, h.outside _ _⟩

theorem Reaches.serve_all (h : p.Reaches feed) (requests : List Request) :
    (requests.foldl Preprocessor.serve p).Reaches feed := by
  induction requests generalizing p with
  | nil => exact h
  | cons request requests ih => exact ih (h.serve request)

/-- Whatever a preprocessor is asked for, it only gets to points of the reading of its feed. At
each of them tokens count if every open section does. Of a section that was opened where tokens
did not count, no group counts and no condition is evaluated. Of any other, the first group counts
of which the condition is true or, if there is none, the first one after `#else`; no other group
does, and no condition after it is evaluated. -/
theorem selects_one_group (feed : Feed) :
    (∀ requests : List Request, ∃ histories,
      Reader.Reaches feed (requests.foldl serve (ofFeed feed)).queue.later histories) ∧
    ∀ r histories, Reader.Reaches feed r histories →
      (r.env.isActive = true ↔ ∀ s ∈ r.env.sections, s.active = true) ∧
      r.env.sections.map Section.active = histories.map History.active ∧
      (∀ h ∈ histories, h.live = false → ∀ g ∈ h.groups,
        g.active = false ∧ g.isEvaluated = false) ∧
      (∀ h ∈ histories, h.live = true → ∀ before g after, h.groups = before ++ g :: after →
        (g.active = true ↔
          (g.isTrue = true ∧ ∀ u ∈ before, u.isTrue = false) ∨
            (g.isElse = true ∧ (∀ u ∈ before, u.isElse = false) ∧
              ∀ u ∈ h.groups, u.isTrue = false)) ∧
        (g.isEvaluated = true → ∀ u ∈ before, u.active = false)) ∧
      ∀ hash name line, (Directive.ofName name.text).HasCondition →
        (r.env.value? name line = none ↔ r.env.Ignores hash name) := by
  constructor
  · intro requests
    have hstart : (ofFeed feed).Reaches feed := ⟨[], .start⟩
    exact hstart.serve_all requests
  · intro r histories hreaches
    have hmirrored := hreaches.mirrored
    refine ⟨?_, hmirrored.map_active, ?_, ?_, ?_⟩
    · rw [hmirrored.isActive, List.all_eq_true]
    · intro h hh hlive g hg
      have hregular := hmirrored.regular hh
      rw [hlive] at hregular
      exact hregular.not_active hg
    · intro h hh hlive before g after hgroups
      have hregular := hmirrored.regular hh
      rw [hlive, hgroups] at hregular
      rw [hgroups]
      exact ⟨hregular.active_iff_first, fun hevaluated => (hregular.isEvaluated_iff.1 hevaluated).1⟩
    · intro hash name line hcondition
      exact Environment.value?_eq_none_iff hash line hcondition

/-- With `#elif` after `#else`, the group after `#else` is the one that counts. -/
theorem selects_one_group_else_first :
    let word (text : String) : Token := ⟨.identifier, text, default, false, false⟩
    let hash : Token := ⟨.operator .hash, "#", default, true, false⟩
    let feed := Feed.ofTokens
      [hash, word "ifdef", word "A", hash, word "else", hash, word "elif", word "A"]
    let history : History := ⟨true,
      [⟨.condition (some false), false⟩, ⟨.otherwise, true⟩, ⟨.condition none, false⟩]⟩
    ∃ r, Reader.Reaches feed r [history] ∧
      (r.env.isActive = true ↔ ∀ s ∈ r.env.sections, s.active = true) := by
  intro word hash feed history
  have hif := Reader.Reaches.directive (@Reader.Reaches.start feed) rfl rfl rfl rfl
  have helse := hif.directive rfl rfl rfl rfl
  have helif : Reader.Reaches feed _ [history] := helse.directive rfl rfl rfl rfl
  exact ⟨_, helif, ((selects_one_group feed).2 _ _ helif).1⟩

end Preprocessor

end Essl
