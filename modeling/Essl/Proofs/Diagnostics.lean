import Essl.Compilation
import Essl.Proofs.Grammar.SyntaxErrors
import Essl.Proofs.Token.Delivered
import Essl.Proofs.Typing.Guarantees
import Essl.Proofs.Typing.ShaderPlacing

/-!
# Diagnostics

What compiling a shader reports is located between characters, except that a component of a
swizzle is looked for at the place of its selector: where the selector comes from a macro, the
place is that of the invocation, whose characters are others.

Errors of the front end come in the order of the text, apart from those of a directive, in front of
which the next token is read. Problems of meaning come in the order of the parts of the shader.
-/

namespace Essl

open Grammar Text

/-! ## Places of diagnostics -/

namespace Diagnostic

/-- The component of a swizzle that the diagnostic is about, if it is about one. -/
def component? : Diagnostic → Option Char
  | front _ => none
  | semantic e => e.cause.component?

/-- The earlier declaration that the diagnostic goes back to. -/
def previous : Diagnostic → Option Location
  | front _ => none
  | semantic e => e.cause.previous

/-- The error of the front end, if it is one. -/
def front? : Diagnostic → Option FrontError
  | front e => some e
  | semantic _ => none

/-- The problem of meaning, if it is one. -/
def semantic? : Diagnostic → Option SemanticError
  | front _ => none
  | semantic e => some e

/-- The diagnostic is located between characters. For a component of a swizzle this is known where
the selector stands in the text as it is spelled; else it is at least inside of the selector. -/
structure Placed (tokens : List Token) (d : Diagnostic) : Prop where
  previous : ∀ l ∈ d.previous, l.Exact
  within : d.location.start ≤ d.location.stop ∧ d.location.stop ≤ d.location.code.size
  exact : d.component? = none → d.location.Exact
  component : ∀ c ∈ d.component?, ∃ selector ∈ tokens, selector.location.Exact ∧
    (∃ before after, selector.text.toList = before ++ c :: after ∧
      d.location = selector.location.slice (byteLength before) c.utf8Size) ∧
    (selector.text = selector.location.text → d.location.Exact ∧ d.location.text.toList = [c])

end Diagnostic

section

variable {code : Code} {tokens names part : List Token} {parts : List (List Token)}

theorem Diagnostic.placed_front {e : FrontError} (h : e.location.Exact) :
    (Diagnostic.front e).Placed tokens where
  previous := by rintro _ ⟨⟩
  within := ⟨h.le, h.stop_le_size⟩
  exact _ := h
  component := by rintro _ ⟨⟩

theorem SemanticError.PointsAt.placed {e : SemanticError} (h : e.PointsAt tokens part)
    (hpart : part ⊆ tokens) (hexact : ∀ t ∈ tokens, t.location.ExactIn code) :
    (Diagnostic.semantic e).Placed tokens := by
  have hplace : e.cause.component? = none → e.location.Exact :=
    fun hnone => ((h.place hnone).exactIn fun t ht => hexact t (hpart ht)).exact
  refine ⟨fun l hl => ?_, ?_, hplace, fun c hc => ?_⟩
  · obtain ⟨t, ht, rfl⟩ := h.previous l hl
    exact (hexact t ht).exact
  · cases hcomponent : e.cause.component? with
    | none => exact ⟨(hplace hcomponent).le, (hplace hcomponent).stop_le_size⟩
    | some c =>
        obtain ⟨selector, hselector, before, after, -, hlocation⟩ := h.component c hcomponent
        have hexact := (hexact selector (hpart hselector)).exact
        obtain ⟨hcode, -, hle, hstop⟩ :=
          Location.slice_inside hexact.le (byteLength before) c.utf8Size
        rw [Diagnostic.location, hlocation, hcode]
        exact ⟨hle, hstop.trans hexact.stop_le_size⟩
  · obtain ⟨selector, hselector, before, after, htext, hlocation⟩ := h.component c hc
    have hexact := (hexact selector (hpart hselector)).exact
    refine ⟨selector, hpart hselector, hexact, ⟨before, after, htext, hlocation⟩, ?_⟩
    intro hspelled
    have hsplit : selector.location.text.toList = before ++ ([c] ++ after) := hspelled ▸ htext
    rw [Diagnostic.location, hlocation]
    exact hexact.slice hsplit

theorem FoundIn.exists_part {problems : List SemanticError} (h : FoundIn names parts problems) :
    ∀ e ∈ problems, ∃ part ∈ parts, e.PointsAt names part := by
  obtain ⟨groups, rfl, hgroups⟩ := h
  intro e he
  obtain ⟨group, hgroup, he⟩ := List.mem_flatten.1 he
  obtain ⟨part, hpart, hpoints⟩ := List.exists_of_forall₂_mem hgroups hgroup
  exact ⟨part, hpart, hpoints e he⟩

/-! ## Problems in order -/

/-- A problem does not start before the first token of its part does. -/
theorem SemanticError.PointsAt.exists_start {e : SemanticError} (h : e.PointsAt names part)
    (hexact : ∀ t ∈ part, t.location.ExactIn code) :
    ∃ t ∈ part, t.location.start ≤ e.location.start := by
  cases hcomponent : e.cause.component? with
  | none =>
      obtain ⟨t, ht, hstart⟩ := (h.place hcomponent).exists_start hexact
      exact ⟨t, ht, hstart.le⟩
  | some c =>
      obtain ⟨selector, hselector, before, after, -, hlocation⟩ := h.component c hcomponent
      refine ⟨selector, hselector, ?_⟩
      rw [hlocation]
      exact (Location.slice_inside (hexact selector hselector).exact.le _ _).2.1

/-- Problems with a part of a shader do not start behind those with later parts. A component of a
swizzle may, since its place need not be that of a token. -/
def GroupsOrdered (groups : List (List SemanticError)) : Prop :=
  groups.Pairwise fun group later => ∀ e ∈ group, e.cause.component? = none → ∀ f ∈ later,
    e.location.start ≤ f.location.start

/-- Errors of the front end and problems with the parts of a shader come in order. -/
structure DiagnosticOrder (code : Code) (tokens : List Token) (parts : List (List Token))
    (front : List FrontError) (groups : List (List SemanticError)) : Prop where
  errors : front.Pairwise fun e f => e.location.code = code → f.location.code = code →
    e.Precedes code f
  sublist : parts.flatten.Sublist tokens
  found : List.Forall₂ (fun part group => ∀ e ∈ group, SemanticError.PointsAt tokens part e) parts
    groups
  ordered : GroupsOrdered groups

theorem groupsOrdered_of_parts {groups : List (List SemanticError)}
    (hfound : List.Forall₂ (fun part group => ∀ e ∈ group, SemanticError.PointsAt names part e)
      parts groups)
    (hexact : ∀ part ∈ parts, ∀ t ∈ part, t.location.ExactIn code)
    (hordered : parts.Pairwise fun p q => ∀ t ∈ p, ∀ u ∈ q, t.location.start ≤ u.location.start) :
    GroupsOrdered groups := by
  induction hfound with
  | nil => exact .nil
  | @cons part group parts groups hpart hfound ih =>
      obtain ⟨hexactPart, hexact⟩ := List.forall_mem_cons.1 hexact
      obtain ⟨hfirst, hrest⟩ := List.pairwise_cons.1 hordered
      refine List.pairwise_cons.2 ⟨fun later hlater e he hplain f hf => ?_, ih hexact hrest⟩
      obtain ⟨other, hother, hpoints⟩ := List.exists_of_forall₂_mem hfound hlater
      obtain ⟨t, ht, hstart⟩ := ((hpart e he).place hplain).exists_start hexactPart
      obtain ⟨u, hu, hle⟩ := (hpoints f hf).exists_start (hexact other hother)
      rw [← hstart]
      exact (hfirst other hother t ht u hu).trans hle

end

/-! ## Compilation -/

theorem FrontError.precedes_of_grammar {code : Code} {e f : FrontError} {c : GrammarCause}
    (hf : f.cause = .grammar c) : e.Precedes code f := by
  refine ⟨?_, fun c' hc' => ?_⟩
  · rintro ⟨c', hc'⟩
    cases hf.symm.trans hc'
  · cases hf.symm.trans hc'

namespace Code

variable (code : Code) (defines : List (String × String)) (stage : Stage) (order : FunctionOrder)

/-- What preprocessing delivers as a shader. -/
def parsed : Shader := (parseShader (code.preprocess defines).tokens).shader

/-- The diagnostics are the errors of the front end and then the problems with the shader. -/
theorem compile_diagnostics : ∃ noticed own : List FrontError,
    (code.compile defines stage order).diagnostics = (noticed ++ own).map .front ++
      ((code.parsed defines).analyze stage order).problems.map .semantic ∧
    noticed <+: (code.preprocess defines).errors ∧
    ∀ e ∈ own, (∃ c, e.cause = .grammar c) ∧
      (e.location.MadeFrom (code.preprocess defines).tokens ∨ e.location = .whole "") := by
  obtain ⟨hshader, noticed, own, herrors, hnoticed, hown⟩ :=
    Parser.shader_errors (code.preprocess defines)
  refine ⟨noticed, own, ?_, hnoticed, hown⟩
  rw [compile, parsed, ← hshader, ← herrors]

theorem parsed_problems : FoundIn (code.preprocess defines).tokens (code.parsed defines).parts
    ((code.parsed defines).analyze stage order).problems := by
  have hwritten : ∀ t ∈ (code.preprocess defines).tokens, t.Written :=
    fun t ht => ⟨code, .inr ⟨defines, ht⟩⟩
  exact Shader.analyze_parts (parseShader_regular hwritten) (parts_sublist _).subset stage order

/-- Every diagnostic is located between characters, a component of a swizzle at least where its
selector stands in the text as it is spelled. -/
theorem compile_placed : ∀ d ∈ (code.compile defines stage order).diagnostics,
    d.Placed (code.preprocess defines).tokens := by
  obtain ⟨noticed, own, hdiagnostics, ⟨unnoticed, hnoticed⟩, hown⟩ :=
    code.compile_diagnostics defines stage order
  have hfeed : (code.preprocess defines).Delivered code (fun _ => False) [] 0 :=
    code.preprocess_delivered defines fun _ h => h.elim
  intro d hd
  rw [hdiagnostics, List.mem_append, List.mem_map, List.mem_map] at hd
  rcases hd with ⟨e, he, rfl⟩ | ⟨e, he, rfl⟩
  · apply Diagnostic.placed_front
    rcases List.mem_append.1 he with he | he
    · refine hfeed.exact e ?_
      rw [List.nil_append, ← hnoticed]
      exact List.mem_append_left _ he
    · rcases (hown e he).2 with hmade | hwhole
      · exact (hmade.exactIn hfeed.located).exact
      · rw [hwhole]
        exact Location.exact_whole ""
  · obtain ⟨part, hpart, hpoints⟩ := (code.parsed_problems defines stage order).exists_part e he
    refine hpoints.placed (fun t ht => ?_) hfeed.located
    exact (parts_sublist _).subset (List.mem_flatten.2 ⟨part, hpart, ht⟩)

/-- A component in a selector that stands in the text. -/
theorem compile_placed_selector :
    let code := ofString "vec2 v; float f = v.xq;" .unknown
    ∃ d ∈ (code.compile [] .vertex).diagnostics, d.component? = some 'q' ∧
      d.Placed (code.preprocess []).tokens := by
  intro code
  have hcomponent : (code.compile [] .vertex).diagnostics.map Diagnostic.component? =
      [some 'q'] := by decide +kernel
  obtain ⟨d, hd, hq⟩ := List.map_eq_singleton_iff.1 hcomponent
  have hmem : d ∈ (code.compile [] .vertex).diagnostics := hd ▸ List.mem_singleton_self d
  exact ⟨d, hmem, hq, code.compile_placed [] .vertex .newestFirst d hmem⟩

/-- The selector is the invocation of a macro of as many bytes as the selector it stands for, but
its second byte is inside of a character. -/
theorem compile_misplaces_component :
    let code := ofString "#define é xq\nvec2 v; float f = v.é;" .unknown
    ∃ d ∈ (code.compile [] .vertex).diagnostics,
      d.component? = some 'q' ∧ d.location.text = "" ∧ ¬ d.location.Exact := by
  intro code
  have hplaced : (code.compile [] .vertex).diagnostics.map (fun d =>
      (d.component?, d.location.text, d.location.start, d.location.stop)) =
        [(some 'q', "", 35, 36)] := by decide +kernel
  obtain ⟨d, hd, hq⟩ := List.map_eq_singleton_iff.1 hplaced
  simp only [Prod.mk.injEq] at hq
  obtain ⟨hq, htext, hstart, hstop⟩ := hq
  refine ⟨d, hd ▸ List.mem_singleton_self d, hq, htext, fun hexact => ?_⟩
  have hlength := hexact.byteLength_text
  rw [htext, hstart, hstop] at hlength
  cases hlength

/-- In one phase errors come in the order of the text: those of the front end that are located in
it as far as `Precedes` says so, and problems of meaning with different parts of the shader. -/
theorem compile_ordered (hdefines : ∀ d ∈ defines, Code.ofString d.2 (.define d.1) ≠ code) :
    ∃ (front : List FrontError) (groups : List (List SemanticError)),
      (code.compile defines stage order).diagnostics =
        front.map .front ++ groups.flatten.map .semantic ∧
      DiagnosticOrder code (code.preprocess defines).tokens (code.parsed defines).parts front
        groups := by
  obtain ⟨noticed, own, hdiagnostics, ⟨unnoticed, hnoticed⟩, hown⟩ :=
    code.compile_diagnostics defines stage order
  obtain ⟨groups, hgroups, hfound⟩ := code.parsed_problems defines stage order
  have hfeed : (code.preprocess defines).Delivered code (·.location.code = code) [] 0 := by
    refine code.preprocess_delivered defines fun e he d hd hcode => ?_
    exact hdefines d hd (hcode.symm.trans he)
  have hparts := parts_sublist (code.preprocess defines).tokens
  have hexact : ∀ part ∈ (code.parsed defines).parts, ∀ t ∈ part, t.location.ExactIn code :=
    fun part hpart t ht =>
      hfeed.located t (hparts.subset (List.mem_flatten.2 ⟨part, hpart, ht⟩))
  have hordered := (List.pairwise_flatten.1 (hfeed.inOrder.sublist hparts)).2
  refine ⟨noticed ++ own, groups, ?_, ?_, hparts, hfound,
    groupsOrdered_of_parts hfound hexact hordered⟩
  · rw [hdiagnostics, hgroups]
  · have herrors := hfeed.ordered
    rw [List.nil_append, ← hnoticed] at herrors
    refine List.pairwise_append.2 ⟨(List.pairwise_append.1 herrors).1, ?_, fun e _ f hf _ _ => ?_⟩
    · refine List.pairwise_of_forall_mem_list fun e _ f hf _ _ => ?_
      obtain ⟨c, hc⟩ := (hown f hf).1
      exact FrontError.precedes_of_grammar hc
    · obtain ⟨c, hc⟩ := (hown f hf).1
      exact FrontError.precedes_of_grammar hc

/-- With a definition whose value is other text. -/
theorem compile_ordered_definition :
    let code := ofString "#foo\nint a = b;" .unknown
    (∀ d ∈ [("N", "1")], ofString d.2 (.define d.1) ≠ code) ∧
    ∃ (front : List FrontError) (groups : List (List SemanticError)),
      (code.compile [("N", "1")] .vertex).diagnostics =
        front.map .front ++ groups.flatten.map .semantic ∧
      DiagnosticOrder code (code.preprocess [("N", "1")]).tokens (code.parsed [("N", "1")]).parts
        front groups := by
  intro code
  have hdefines : ∀ d ∈ [("N", "1")], ofString d.2 (.define d.1) ≠ code := by decide +kernel
  exact ⟨hdefines, code.compile_ordered _ .vertex .newestFirst hdefines⟩

/-- A target is looked at after what is assigned to it, and a directive is carried out after the
next token is read. -/
theorem compile_disorders :
    let problems := ((ofString "const int a = 1; void f() { a = b; }" .unknown).compile []
      .vertex).diagnostics.filterMap Diagnostic.semantic?
    let errors := ((ofString "#foo\n@" .unknown).compile [] .vertex).diagnostics.filterMap
      Diagnostic.front?
    problems.map (fun e => (e.cause, e.location.start)) =
        [(.undeclaredIdentifier "b", 32), (.readOnlyAssignment "a", 28)] ∧
      ¬ problems.Pairwise (·.location.start ≤ ·.location.start) ∧
      errors.map (fun e => (e.cause, e.location.start)) =
        [(.lexical (.invalidCharacter '@'), 5), (.directive (.unknownDirective "foo"), 1)] ∧
      (∀ e ∈ errors, e.location.code = ofString "#foo\n@" .unknown) ∧ ¬ Ordered errors := by
  intro problems errors
  unfold Ordered
  refine ⟨?_, ?_, ?_, ?_, ?_⟩ <;> decide +kernel

end Code

end Essl
