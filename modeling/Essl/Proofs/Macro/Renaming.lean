import Essl.Macro.Expansion
import Essl.Proofs.Token.Renaming

/-!
# Expansion in other texts

Expansion joins locations and counts lines, and so the texts that locations lie in can be replaced
before it or after it. Where the tokens of replacement lists are from does not matter at all.
-/

namespace Essl

/-! ## Macros -/

/-- A definition without the places of its tokens. -/
def MacroDef.bare (d : MacroDef) : MacroDef :=
  { d with body := d.body.map Token.bare, declaredAt := none }

namespace MacroTable

def bare (table : MacroTable) : MacroTable := ⟨table.entries.map MacroDef.bare⟩

variable {table table' : MacroTable}

theorem find?_bare (table : MacroTable) (name : String) :
    table.bare.find? name = (table.find? name).map MacroDef.bare := by
  simp [bare, find?, List.find?_map, Function.comp_def, MacroDef.bare]

theorem undefine_bare (table : MacroTable) (name : String) :
    (table.undefine name).bare = table.bare.undefine name := by
  simp [bare, undefine, List.filter_map, Function.comp_def, MacroDef.bare]

theorem define_bare (table : MacroTable) (d : MacroDef) :
    (table.define d).bare = table.bare.define d.bare := by
  have h := congrArg entries (table.undefine_bare d.name)
  simp [define, bare] at h ⊢
  exact h

theorem bodySize_bare (table : MacroTable) : table.bare.bodySize = table.bodySize := by
  simp [bare, bodySize, List.flatMap_map, MacroDef.bare, List.length_flatMap]

theorem sizes_of_bare (h : table'.bare = table.bare) :
    table'.bodySize = table.bodySize ∧ table'.entries.length = table.entries.length := by
  refine ⟨by rw [← bodySize_bare, h, bodySize_bare], ?_⟩
  simpa [bare] using congrArg (fun t : MacroTable => t.entries.length) h

end MacroTable

variable (ρ : Code.Renaming)

/-! ## Replacement -/

def Candidate.rename (c : Candidate) : Candidate := { c with token := c.token.rename ρ }

@[simp] theorem Candidate.token_rename (c : Candidate) :
    (c.rename ρ).token = c.token.rename ρ := rfl

@[simp] theorem Candidate.hidden_rename (c : Candidate) : (c.rename ρ).hidden = c.hidden := rfl

theorem splitArguments_rename (depth : Nat) (cs : List Candidate) :
    splitArguments depth (cs.map (·.rename ρ)) =
      (splitArguments depth cs).map (List.map (·.rename ρ)) := by
  induction cs generalizing depth with
  | nil => rfl
  | cons c rest ih =>
      rw [List.map_cons, splitArguments, splitArguments, Candidate.token_rename,
        Token.isOperator_rename]
      by_cases hcomma : (c.token.isOperator .comma && depth == 0) = true
      · simp [hcomma, ih]
      · rw [if_neg hcomma, if_neg hcomma]
        dsimp only
        rw [ih]
        generalize (if c.token.isOperator .openParen then depth + 1
          else if c.token.isOperator .closeParen then depth - 1 else depth) = inner
        cases splitArguments inner rest <;> rfl

/-- A candidate at another place. -/
def Candidate.moveTo (location : Location) (c : Candidate) : Candidate :=
  { c with token := { c.token with location } }

/-- Tokens without their places are the same at any place. -/
theorem Token.placed_of_bare {t t' : Token} (h : t'.bare = t.bare) (location : Location) :
    { t' with location } = { t with location } := by
  obtain ⟨kind, text, place, firstInLine, afterSpace⟩ := t
  obtain ⟨kind', text', place', firstInLine', afterSpace'⟩ := t'
  obtain ⟨rfl, rfl, -, rfl, rfl⟩ := Token.mk.inj h
  rfl

/-- The parameter that a token of a replacement list is, with the argument for it. -/
theorem find?_argument_rename (p : String → Bool) (parameters : List String)
    (arguments : List (List Candidate)) :
    (parameters.zip (arguments.map (List.map (·.rename ρ)))).find? (fun pair => p pair.1) =
      ((parameters.zip arguments).find? (fun pair => p pair.1)).map
        fun pair => (pair.1, pair.2.map (·.rename ρ)) := by
  rw [List.zip_map_right, List.find?_map]
  rfl

theorem substitute_rename {body body' : List Token}
    (hbody : body'.map Token.bare = body.map Token.bare) (parameters : List String)
    (arguments : List (List Candidate)) (hidden : List String) (location : Location) :
    (substitute body' parameters (arguments.map (List.map (·.rename ρ))) hidden).map
        (Candidate.moveTo (location.rename ρ)) =
      ((substitute body parameters arguments hidden).map (Candidate.moveTo location)).map
        (·.rename ρ) := by
  induction body generalizing body' with
  | nil =>
      obtain rfl := List.map_eq_nil_iff.1 hbody
      rfl
  | cons t body ih =>
      obtain ⟨t', rest, rfl, hfirst, hrest⟩ := List.map_eq_cons_iff.1 hbody
      have hplaced := Token.placed_of_bare hfirst (location.rename ρ)
      obtain ⟨hkind, htext, -⟩ := Token.mk.inj hplaced
      have hlater := ih hrest
      simp only [substitute, List.flatMap_cons, List.map_append] at hlater ⊢
      rw [hlater, hkind, htext]
      congr 1
      by_cases hname : t.kind = .identifier
      · rw [if_pos hname, if_pos hname, find?_argument_rename ρ (· == t.text)]
        cases (parameters.zip arguments).find? (fun pair => pair.1 == t.text) with
        | none => simp [Candidate.moveTo, Candidate.rename, hplaced, Token.rename]
        | some pair => simp [Candidate.moveTo, Candidate.rename, Token.rename]
      · simp [hname, Candidate.moveTo, Candidate.rename, hplaced, Token.rename]

theorem placeAt_eq (name : Token) (location : Location) (cs : List Candidate) :
    placeAt name location cs =
      match cs.map (Candidate.moveTo location) with
      | [] => []
      | first :: rest =>
        { first with token := { first.token with
            firstInLine := name.firstInLine, afterSpace := name.afterSpace } } :: rest := rfl

theorem placeAt_rename (name : Token) {location : Location} {cs cs' : List Candidate}
    (h : cs'.map (Candidate.moveTo (location.rename ρ)) =
      (cs.map (Candidate.moveTo location)).map (·.rename ρ)) :
    placeAt (name.rename ρ) (location.rename ρ) cs' =
      (placeAt name location cs).map (·.rename ρ) := by
  rw [placeAt_eq, h, placeAt_eq]
  cases cs <;> rfl

theorem lineNumber_rename (name : Token) :
    lineNumber (name.rename ρ) = (lineNumber name).rename ρ := by
  simp [lineNumber, Token.rename, Location.line_rename]

theorem argumentsFit_rename (parameters : List String) (arguments : List (List Candidate)) :
    argumentsFit parameters (arguments.map (List.map (·.rename ρ))) =
      argumentsFit parameters arguments := by
  simp [argumentsFit, List.all_map, Function.comp_def]

/-! ## Supplies -/

/-- A second supply goes along with a first one: it gives the same in the other texts, and has the
same macros. -/
structure Supply.Follows {σ τ : Type} (S : Supply σ) (S' : Supply τ) (R : σ → τ → Prop) :
    Prop where
  next : ∀ {s s'}, R s s' →
    (S'.next s').1 = (S.next s).1.map (·.rename ρ) ∧ R (S.next s).2 (S'.next s').2
  macros : ∀ {s s'}, R s s' → (S'.macros s').bare = (S.macros s).bare
  report : ∀ {s s'} (error : FrontError), R s s' →
    R (S.report error s) (S'.report (error.rename ρ) s')

/-- What comes next, in the other texts. -/
def Settled.rename : Settled → Settled
  | token t => token (t.rename ρ)
  | finished => finished
  | gaveUp => gaveUp

theorem Settled.eq_token_of_rename {settled : Settled} {t : Token}
    (h : settled.rename ρ = .token t) : ∃ t₀, settled = .token t₀ ∧ t₀.rename ρ = t := by
  cases settled with
  | token t₀ => exact ⟨t₀, rfl, Settled.token.inj h⟩
  | finished => cases h
  | gaveUp => cases h

theorem Settled.eq_finished_of_rename {settled : Settled} (h : settled.rename ρ = .finished) :
    settled = .finished := by
  cases settled with
  | token t₀ => cases h
  | finished => rfl
  | gaveUp => cases h

namespace Queue

variable {σ τ : Type} {S : Supply σ} {S' : Supply τ} {R : σ → τ → Prop}

/-- The same tokens wait in front of supplies of which one goes along with the other. -/
structure Follows (R : σ → τ → Prop) (q : Queue σ) (q' : Queue τ) : Prop where
  waiting : q'.waiting = q.waiting.map (·.rename ρ)
  later : R q.later q'.later

variable {ρ} {q : Queue σ} {q' : Queue τ}

theorem Follows.push (hq : Follows ρ R q q') (cs : List Candidate) :
    Follows ρ R (q.push cs) (q'.push (cs.map (·.rename ρ))) where
  waiting := by simp [Queue.push, hq.waiting]
  later := hq.later

variable (hS : S.Follows ρ S' R)

include hS

theorem report_follows (hq : Follows ρ R q q') (cause : DirectiveCause) (location : Location) :
    Follows ρ R (q.report S cause location) (q'.report S' cause (location.rename ρ)) where
  waiting := hq.waiting
  later := hS.report ⟨.directive cause, location⟩ hq.later

theorem pull_follows (hq : Follows ρ R q q') :
    ∃ rest', q'.pull S' = ((q.pull S).1.map (·.rename ρ), rest') ∧
      Follows ρ R (q.pull S).2 rest' := by
  obtain ⟨waiting, later⟩ := q
  obtain ⟨waiting', later'⟩ := q'
  obtain ⟨rfl, hlater⟩ := hq
  cases waiting with
  | nil =>
      obtain ⟨hfirst, hrest⟩ := hS.next hlater
      refine ⟨⟨[], (S'.next later').2⟩, ?_, rfl, hrest⟩
      simp [pull, hfirst, Function.comp_def, Candidate.ofToken, Candidate.rename]
  | cons c rest => exact ⟨_, rfl, rfl, hlater⟩

theorem untilClosing_follows (hq : Follows ρ R q q') (depth : Nat) :
    ∃ rest', q'.untilClosing S' depth = ((q.untilClosing S depth).1.map fun found =>
        (found.1.map (·.rename ρ), found.2.rename ρ), rest') ∧
      Follows ρ R (q.untilClosing S depth).2 rest' := by
  fun_induction Queue.untilClosing S depth q generalizing q' with
  | case1 depth q rest hpull =>
      obtain ⟨rest', hpull', hrest⟩ := pull_follows hS hq
      rw [hpull] at hpull' hrest
      exact ⟨rest', by rw [untilClosing, hpull']; rfl, hrest⟩
  | case2 depth q c rest hpull hclosing =>
      obtain ⟨rest', hpull', hrest⟩ := pull_follows hS hq
      rw [hpull] at hpull' hrest
      refine ⟨rest', ?_, hrest⟩
      rw [untilClosing, hpull']
      simp [hclosing]
  | case3 depth q c rest hpull hclosing depth' found last hlast =>
      rename_i ih
      obtain ⟨rest', hpull', hrest⟩ := pull_follows hS hq
      rw [hpull] at hpull' hrest
      obtain ⟨last', hlast', hfollows⟩ := ih hrest
      rw [hlast] at hlast' hfollows
      refine ⟨last', ?_, hfollows⟩
      have hinside : untilClosing S' (if (c.rename ρ).token.isOperator .openParen then depth + 1
          else if (c.rename ρ).token.isOperator .closeParen then depth - 1 else depth) rest' =
          (found.map fun found => (found.1.map (·.rename ρ), found.2.rename ρ), last') := by
        simp only [depth', dite_eq_ite] at hlast'
        exact hlast'
      have hclosing' : ¬((c.rename ρ).token.isOperator .closeParen && depth == 0) = true := hclosing
      rw [untilClosing, hpull']
      dsimp only [Option.map_some]
      rw [if_neg hclosing', hinside]
      cases found <;> rfl

theorem arguments_follows (hq : Follows ρ R q q') (name : Token) :
    ∃ rest', q'.arguments S' (name.rename ρ) = ((q.arguments S name).1.map fun found =>
        (found.1.map (List.map (·.rename ρ)), found.2.rename ρ), rest') ∧
      Follows ρ R (q.arguments S name).2 rest' := by
  obtain ⟨rest', hrest', hrest⟩ := untilClosing_follows hS hq 0
  unfold arguments
  rw [hrest']
  generalize q.untilClosing S 0 = read at hrest ⊢
  rcases read with ⟨_ | ⟨inside, closing⟩, rest⟩
  · exact ⟨_, rfl, report_follows hS hrest _ _⟩
  · dsimp only [Option.map_some]
    rw [splitArguments_rename]
    exact ⟨rest', rfl, hrest⟩

theorem expandInvocation_follows (hq : Follows ρ R q q') {m m' : MacroDef} (hm : m'.bare = m.bare)
    (parameters : List String) (name : Candidate) :
    ∃ rest', q'.expandInvocation S' m' parameters (name.rename ρ) =
        ((q.expandInvocation S m parameters name).1.map (List.map (·.rename ρ)), rest') ∧
      Follows ρ R (q.expandInvocation S m parameters name).2 rest' := by
  obtain ⟨hname, -, hbody, -⟩ := MacroDef.mk.inj hm
  obtain ⟨rest', hpull', hrest⟩ := pull_follows hS hq
  unfold expandInvocation
  rw [hpull', hname]
  generalize q.pull S = pulled at hrest ⊢
  rcases pulled with ⟨_ | next, rest⟩
  · exact ⟨rest', rfl, hrest⟩
  · dsimp only [Option.map_some]
    by_cases hopening : next.token.isOperator .openParen = true
    · obtain ⟨last', hlast', hlast⟩ := arguments_follows hS hrest name.token
      have hopening' : (next.rename ρ).token.isOperator .openParen = true := hopening
      rw [if_pos hopening, if_pos hopening', Candidate.token_rename, hlast']
      generalize rest.arguments S name.token = collected at hlast ⊢
      rcases collected with ⟨_ | ⟨arguments, closing⟩, last⟩
      · exact ⟨last', rfl, hlast⟩
      · dsimp only [Option.map_some, Candidate.hidden_rename, Candidate.token_rename,
          Token.location_rename]
        rw [argumentsFit_rename, Location.join_rename, List.length_map]
        by_cases hfit : argumentsFit parameters arguments = true
        · rw [if_pos hfit, if_pos hfit]
          refine ⟨last', ?_, hlast⟩
          rw [placeAt_rename ρ name.token (substitute_rename ρ hbody ..)]
          rfl
        · rw [if_neg hfit, if_neg hfit]
          exact ⟨_, rfl, report_follows hS hlast _ _⟩
    · have hopening' : ¬(next.rename ρ).token.isOperator .openParen = true := hopening
      rw [if_neg hopening, if_neg hopening']
      exact ⟨_, rfl, hrest.push [next]⟩

theorem expand_follows (hq : Follows ρ R q q') (name : Candidate) :
    ∃ rest', q'.expand S' (name.rename ρ) =
        ((q.expand S name).1.map (List.map (·.rename ρ)), rest') ∧
      Follows ρ R (q.expand S name).2 rest' := by
  unfold expand
  by_cases hhidden : name.token.text ∈ name.hidden
  · have hhidden' : (name.rename ρ).token.text ∈ (name.rename ρ).hidden := hhidden
    rw [if_pos hhidden, if_pos hhidden']
    exact ⟨q', rfl, hq⟩
  · have hhidden' : (name.rename ρ).token.text ∉ (name.rename ρ).hidden := hhidden
    rw [if_neg hhidden, if_neg hhidden']
    by_cases hline : name.token.text = "__LINE__"
    · have hline' : (name.rename ρ).token.text = "__LINE__" := hline
      rw [if_pos hline, if_pos hline', Candidate.token_rename, lineNumber_rename]
      exact ⟨q', rfl, hq⟩
    · have hline' : (name.rename ρ).token.text ≠ "__LINE__" := hline
      have hmacros := congrArg (MacroTable.find? · name.token.text) (hS.macros hq.later)
      simp only [MacroTable.find?_bare] at hmacros
      rw [if_neg hline, if_neg hline', Candidate.token_rename, Token.text_rename]
      generalize (S'.macros q'.later).find? name.token.text = found' at hmacros ⊢
      generalize (S.macros q.later).find? name.token.text = found at hmacros ⊢
      cases found with
      | none =>
          obtain rfl := Option.map_eq_none_iff.1 hmacros
          exact ⟨q', rfl, hq⟩
      | some m =>
          obtain ⟨m', rfl, hm⟩ := Option.map_eq_some_iff.1 hmacros
          obtain ⟨hname, hparameters, hbody, -⟩ := MacroDef.mk.inj hm
          dsimp only at hparameters ⊢
          rw [hparameters]
          cases m.parameters with
          | none =>
              have hplaced := placeAt_rename ρ name.token
                (substitute_rename ρ hbody [] [] (name.hidden ++ [m.name]) name.token.location)
              refine ⟨q', ?_, hq⟩
              rw [hname]
              exact congrArg (some · , q') hplaced
          | some parameters => exact expandInvocation_follows hS hq hm parameters name

theorem settle_follows (hq : Follows ρ R q q') (steps : Nat) :
    ∃ rest', q'.settle S' steps = ((q.settle S steps).1.rename ρ, rest') ∧
      Follows ρ R (q.settle S steps).2 rest' := by
  induction steps generalizing q q' with
  | zero => exact ⟨q', rfl, hq⟩
  | succ steps ih =>
      obtain ⟨rest', hpull', hrest⟩ := pull_follows hS hq
      rw [settle, settle, hpull']
      generalize q.pull S = pulled at hrest ⊢
      rcases pulled with ⟨_ | c, rest⟩
      · exact ⟨rest', rfl, hrest⟩
      · dsimp only [Option.map_some]
        by_cases hname : c.token.kind = .identifier
        · have hname' : (c.rename ρ).token.kind = .identifier := hname
          obtain ⟨last', hexpand', hlast⟩ := expand_follows hS hrest c
          rw [if_pos hname, if_pos hname', hexpand']
          generalize rest.expand S c = expanded at hlast ⊢
          rcases expanded with ⟨_ | cs, last⟩
          · exact ⟨last', rfl, hlast⟩
          · exact ih (hlast.push cs)
        · have hname' : (c.rename ρ).token.kind ≠ .identifier := hname
          rw [if_neg hname, if_neg hname']
          exact ⟨rest', rfl, hrest⟩

omit hS in
/-- The steps allowed depend on how much there is, not on where it is from. -/
theorem stepLimit_le (hmacros : (S'.macros q'.later).bare = (S.macros q.later).bare)
    (hsize : q'.size S' ≤ q.size S) : q'.stepLimit S' ≤ q.stepLimit S := by
  obtain ⟨hbody, hentries⟩ := MacroTable.sizes_of_bare hmacros
  unfold stepLimit
  dsimp only
  rw [hbody, hentries]
  exact max_le_max (Nat.mul_le_mul_right _ (Nat.succ_le_succ hsize)) le_rfl

theorem stepLimit_follows (hq : Follows ρ R q q') (hsize : S'.size q'.later = S.size q.later) :
    q'.stepLimit S' = q.stepLimit S := by
  have hmacros := hS.macros hq.later
  have hsame : q'.size S' = q.size S := by simp [size, hq.waiting, hsize]
  exact le_antisymm (stepLimit_le hmacros hsame.le) (stepLimit_le hmacros.symm hsame.ge)

omit hS in
/-- More steps change nothing where expansion does not give up. -/
theorem settle_of_le {steps more : Nat} (hle : steps ≤ more) (h : (q.settle S steps).1 ≠ .gaveUp) :
    q.settle S more = q.settle S steps := by
  induction steps generalizing q more with
  | zero => exact absurd rfl h
  | succ steps ih =>
      obtain ⟨more, rfl⟩ := Nat.exists_eq_add_of_le' (Nat.one_le_of_lt hle)
      rw [settle] at h
      rw [settle, settle]
      rcases hpull : q.pull S with ⟨_ | c, rest⟩
      · rfl
      · simp only [hpull] at h ⊢
        by_cases hname : c.token.kind = .identifier
        · rw [if_pos hname] at h
          rw [if_pos hname, if_pos hname]
          rcases hexpand : rest.expand S c with ⟨_ | cs, last⟩
          · rfl
          · simp only [hexpand] at h ⊢
            exact ih (Nat.le_of_succ_le_succ hle) h
        · rw [if_neg hname, if_neg hname]

/-- What comes next is the same, unless it is too far away for the queue that may be shorter. -/
theorem next_follows (hsize : ∀ {s s'}, R s s' → S'.size s' ≤ S.size s) (hq : Follows ρ R q q')
    (h : (q'.next S').1 ≠ .gaveUp) :
    ∃ rest', q'.next S' = ((q.next S).1.rename ρ, rest') ∧ Follows ρ R (q.next S).2 rest' := by
  have hwaiting : q'.size S' ≤ q.size S := by simpa [size, hq.waiting] using hsize hq.later
  obtain ⟨rest', hsettle', hrest⟩ := settle_follows hS hq (q'.stepLimit S')
  have hgoes : (q.settle S (q'.stepLimit S')).1 ≠ .gaveUp := by
    intro hgave
    rw [next, hsettle', hgave] at h
    exact h rfl
  rw [next, next, settle_of_le (stepLimit_le (hS.macros hq.later) hwaiting) hgoes]
  exact ⟨rest', hsettle', hrest⟩

theorem takeTokens_follows (hsize : ∀ {s s'}, R s s' → S'.size s' = S.size s)
    (hq : Follows ρ R q q') (count : Nat) :
    ∃ rest', q'.takeTokens S' count = ((q.takeTokens S count).1.map (·.rename ρ), rest') ∧
      Follows ρ R (q.takeTokens S count).2 rest' := by
  induction count generalizing q q' with
  | zero => exact ⟨q', rfl, hq⟩
  | succ count ih =>
      obtain ⟨rest', hsettle', hrest⟩ := settle_follows hS hq (q.stepLimit S)
      rw [takeTokens, takeTokens, next, next, stepLimit_follows hS hq (hsize hq.later), hsettle']
      generalize q.settle S (q.stepLimit S) = settled at hrest ⊢
      rcases settled with ⟨t | _ | _, rest⟩
      · obtain ⟨last', hlast', hlast⟩ := ih hrest
        refine ⟨last', ?_, hlast⟩
        dsimp only [Settled.rename]
        rw [hlast']
        rfl
      · exact ⟨rest', rfl, hrest⟩
      · exact ⟨rest', rfl, hrest⟩

end Queue

/-! ## Directive lines -/

/-- The same macros, and the same errors in the other texts. -/
def lineFollows (s s' : MacroTable × List FrontError) : Prop :=
  s'.1.bare = s.1.bare ∧ s'.2 = s.2.map (·.rename ρ)

theorem lineSupply_follows : lineSupply.Follows ρ lineSupply (lineFollows ρ) where
  next h := ⟨rfl, h⟩
  macros h := h.1
  report error h := ⟨h.1, by simp [lineSupply, h.2]⟩

theorem expandLine_rename {table table' : MacroTable} (h : table'.bare = table.bare)
    (line : List Token) :
    expandLine table' (line.map (·.rename ρ)) =
      ((expandLine table line).1.map (·.rename ρ), (expandLine table line).2.map (·.rename ρ)) := by
  let q : Queue (MacroTable × List FrontError) := ⟨line.map Candidate.ofToken, (table, [])⟩
  let q' : Queue (MacroTable × List FrontError) :=
    ⟨(line.map (·.rename ρ)).map Candidate.ofToken, (table', [])⟩
  have hq : q.Follows ρ (lineFollows ρ) q' := by
    refine ⟨?_, h, rfl⟩
    simp [q, q', Function.comp_def, Candidate.ofToken, Candidate.rename]
  have hlimit : q'.stepLimit lineSupply = q.stepLimit lineSupply :=
    Queue.stepLimit_follows (lineSupply_follows ρ) hq rfl
  obtain ⟨rest', htaken, hrest⟩ := Queue.takeTokens_follows (lineSupply_follows ρ)
    (fun _ => rfl) hq (q.stepLimit lineSupply)
  unfold expandLine
  change (let taken := q'.takeTokens lineSupply (q'.stepLimit lineSupply)
    (taken.1, taken.2.later.2)) = _
  rw [hlimit, htaken]
  exact Prod.ext rfl hrest.later.2

end Essl
