import Essl.Proofs.Token.Places
import Essl.Proofs.Typing.Declared
import Mathlib.Data.List.Forall2

/-!
# What problems point at

A problem is about a place in the part of the shader that is typed: a place that is joined from
those of tokens, or one component in the selector of a swizzle. An earlier declaration is pointed
at by its name. Parts are typed one after another, and so are the problems with them noted.
-/

namespace Essl

open Text

/-! ## Problems -/

/-- The component of a swizzle that a problem is about, if it is about one. -/
def SemanticCause.component? : SemanticCause → Option Char
  | invalidSwizzleComponent c | mixedSwizzleSets c | swizzleOutOfBounds c _ => some c
  | _ => none

/-- The location, if there is one, is that of some of the tokens. -/
def NamedBy (names : List Token) (l : Option Location) : Prop :=
  ∀ x ∈ l, ∃ t ∈ names, t.location = x

/-- What a problem with a part of a shader points at: a place that is joined from those of tokens of
the part, or those bytes at the place of a selector that a component has in the text of it. An
earlier declaration is where one of the names is. -/
structure SemanticError.PointsAt (names part : List Token) (e : SemanticError) : Prop where
  place : e.cause.component? = none → e.location.JoinedFrom part
  component : ∀ c ∈ e.cause.component?, ∃ selector ∈ part, ∃ before after,
    selector.text.toList = before ++ c :: after ∧
      e.location = selector.location.slice (byteLength before) c.utf8Size
  previous : NamedBy names e.cause.previous

/-- The problems are those with each part, one part after the other. -/
def FoundIn (names : List Token) (parts : List (List Token)) (problems : List SemanticError) :
    Prop :=
  ∃ groups, problems = groups.flatten ∧
    List.Forall₂ (fun part group => ∀ e ∈ group, SemanticError.PointsAt names part e) parts groups

section

variable {names part : List Token} {parts more : List (List Token)} {l : Location}
  {cause : SemanticCause} {ps qs : List SemanticError}

/-- A problem at tokens. -/
theorem SemanticError.PointsAt.about (hl : l.JoinedFrom part)
    (hcomponent : cause.component? = none) (hprevious : NamedBy names cause.previous) :
    PointsAt names part ⟨cause, l⟩ where
  place _ := hl
  component := by
    rw [hcomponent]
    rintro _ ⟨⟩
  previous := hprevious

/-- A problem at tokens that goes back to no declaration. -/
theorem SemanticError.PointsAt.plain (hl : l.JoinedFrom part)
    (hcomponent : cause.component? = none) (hprevious : cause.previous = none) :
    PointsAt names part ⟨cause, l⟩ := by
  refine .about hl hcomponent ?_
  rw [hprevious]
  rintro _ ⟨⟩

namespace FoundIn

theorem nil : FoundIn names [] [] := ⟨[], rfl, .nil⟩

theorem one (h : ∀ e ∈ ps, e.PointsAt names part) : FoundIn names [part] ps :=
  ⟨[ps], by simp, .cons h .nil⟩

/-- Of a part there need not be any problems. -/
theorem skip (h : FoundIn names more qs) : FoundIn names (part :: more) qs := by
  obtain ⟨groups, rfl, hgroups⟩ := h
  exact ⟨[] :: groups, rfl, .cons (fun _ he => absurd he List.not_mem_nil) hgroups⟩

/-- More problems with the first part. -/
theorem cons (hp : ∀ e ∈ ps, e.PointsAt names part) (hq : FoundIn names (part :: more) qs) :
    FoundIn names (part :: more) (ps ++ qs) := by
  obtain ⟨groups, rfl, hgroups⟩ := hq
  cases hgroups with
  | @cons _ group _ groups hgroup hgroups =>
      refine ⟨(ps ++ group) :: groups, by simp, .cons ?_ hgroups⟩
      exact List.forall_mem_append.2 ⟨hp, hgroup⟩

theorem append (hp : FoundIn names parts ps) (hq : FoundIn names more qs) :
    FoundIn names (parts ++ more) (ps ++ qs) := by
  obtain ⟨groups, rfl, hgroups⟩ := hp
  obtain ⟨others, rfl, hothers⟩ := hq
  exact ⟨groups ++ others, List.flatten_append.symm, List.rel_append hgroups hothers⟩

end FoundIn

end

/-! ## Values with problems -/

variable {α β : Type} {R : SemanticError → Prop}

/-- The problems have a property each, and the value has one. -/
def Noted.Finds (R : SemanticError → Prop) (x : Noted α) (P : α → Prop) : Prop :=
  (∀ e ∈ x.problems, R e) ∧ P x.value

namespace Noted.Finds

variable {P : α → Prop} {Q : β → Prop} {x : Noted α} {f : α → Noted β} {cause : SemanticCause}
  {location : Location}

theorem pure {a : α} (h : P a) : Finds R (pure a) P := ⟨fun _ he => absurd he List.not_mem_nil, h⟩

theorem bind (hx : x.Finds R P) (hf : ∀ a, P a → (f a).Finds R Q) : (x >>= f).Finds R Q :=
  have hrest := hf x.value hx.2
  ⟨List.forall_mem_append.2 ⟨hx.1, hrest.1⟩, hrest.2⟩

theorem report (h : R ⟨cause, location⟩) : (report cause location).Finds R fun _ => True :=
  ⟨List.forall_mem_singleton.2 h, trivial⟩

theorem reported {a : α} (h : R ⟨cause, location⟩) (ha : P a) :
    Finds R (do Essl.report cause location; Pure.pure a) P :=
  (report h).bind fun _ _ => pure ha

/-- A check in front of something else, if there is a reason for it. -/
theorem first_if {p : Prop} [Decidable p] {x : Noted Unit} {f : Unit → Noted β}
    (hx : x.Finds R fun _ => True) (hf : ∀ u, (f u).Finds R Q) :
    Finds R (if p then x >>= f else f ()) Q := by
  split
  · exact hx.bind fun u _ => hf u
  · exact hf ()

end Noted.Finds

/-! ## Actions -/

/-- In a context with some invariant the action keeps it, notes a list of problems with a property
and gives something with a property. -/
def Finds (N : List SemanticError → Prop) (I : Context → Prop) (x : Check α) (P : α → Prop) :
    Prop :=
  ∀ c, I c → N (x c).problems ∧ P (x c).value.1 ∧ I (x c).value.2

/-- The action notes problems that have a property each. -/
abbrev FindsEach (R : SemanticError → Prop) (I : Context → Prop) (x : Check α) (P : α → Prop) :
    Prop :=
  Finds (fun problems => ∀ e ∈ problems, R e) I x P

/-- The action notes problems with parts of the shader, one part after the other. -/
abbrev FindsParts (names : List Token) (parts : List (List Token)) (I : Context → Prop)
    (x : Check α) : Prop :=
  Finds (FoundIn names parts) I x fun _ => True

variable {N M : List SemanticError → Prop} {I J : Context → Prop} {P : α → Prop} {Q : β → Prop}
  {x : Check α} {f : α → Check β} {names part : List Token} {parts more : List (List Token)}

namespace Finds

/-- One action after another, where lists of problems can be joined. -/
theorem bind_of {L : List SemanticError → Prop} (hjoin : ∀ ps qs, N ps → M qs → L (ps ++ qs))
    (hx : Finds N I x P) (hf : ∀ a, P a → Finds M I (f a) Q) : Finds L I (x >>= f) Q := by
  intro c hI
  obtain ⟨hproblems, ha, hI⟩ := hx c hI
  obtain ⟨hrest, hb, hI⟩ := hf _ ha _ hI
  exact ⟨hjoin _ _ hproblems hrest, hb, hI⟩

/-- The context that is looked at has the invariant. -/
theorem get_bind {f : Context → Check β} (hf : ∀ c, I c → Finds N I (f c) Q) :
    Finds N I (get >>= f) Q :=
  fun c hI => hf c hI c hI

/-- Between two changes of the context another invariant holds. -/
theorem between {enter leave : Context → Context} (henter : ∀ c, I c → J (enter c))
    (hx : Finds N J x P) (hleave : ∀ c, J c → I (leave c)) :
    Finds N I (do modify enter; let a ← x; modify leave; Pure.pure a) P := by
  intro c hI
  obtain ⟨hproblems, ha, hJ⟩ := hx (enter c) (henter c hI)
  have heq : ((do modify enter; let a ← x; modify leave; Pure.pure a : Check α) c).problems =
      (x (enter c)).problems ++ [] := rfl
  rw [heq, List.append_nil]
  exact ⟨hproblems, ha, hleave _ hJ⟩

end Finds

namespace FindsEach

theorem pure {a : α} (h : P a) : FindsEach R I (pure a) P :=
  fun _ hI => ⟨fun _ he => absurd he List.not_mem_nil, h, hI⟩

theorem bind (hx : FindsEach R I x P) (hf : ∀ a, P a → FindsEach R I (f a) Q) :
    FindsEach R I (x >>= f) Q :=
  Finds.bind_of (fun _ _ hp hq => List.forall_mem_append.2 ⟨hp, hq⟩) hx hf

theorem lift {x : Noted α} (hx : x.Finds R P) : FindsEach R I (liftM x : Check α) P := by
  intro c hI
  have heq : ((liftM x : Check α) c).problems = x.problems ++ [] := rfl
  rw [heq, List.append_nil]
  exact ⟨hx.1, hx.2, hI⟩

theorem first_if {p : Prop} [Decidable p] {x : Check Unit} {f : Unit → Check β}
    (hx : FindsEach R I x fun _ => True) (hf : ∀ u, FindsEach R I (f u) Q) :
    FindsEach R I (if p then x >>= f else f ()) Q := by
  split
  · exact hx.bind fun u _ => hf u
  · exact hf ()

theorem put {c : Context} (hc : I c) : FindsEach R I (set c : Check Unit) fun _ => True :=
  fun _ _ => ⟨fun _ he => absurd he List.not_mem_nil, trivial, hc⟩

theorem change {g : Context → Context} (hg : ∀ c, I c → I (g c)) :
    FindsEach R I (modify g : Check Unit) fun _ => True :=
  fun c hI => ⟨fun _ he => absurd he List.not_mem_nil, trivial, hg c hI⟩

end FindsEach

namespace FindsParts

theorem pure {a : α} : FindsParts names [] I (pure a) :=
  fun _ hI => ⟨.nil, trivial, hI⟩

theorem lift {x : Noted α} (hx : FoundIn names parts x.problems) :
    FindsParts names parts I (liftM x : Check α) := by
  intro c hI
  have heq : ((liftM x : Check α) c).problems = x.problems ++ [] := rfl
  rw [heq, List.append_nil]
  exact ⟨hx, trivial, hI⟩

/-- One part. -/
theorem one (hx : FindsEach (SemanticError.PointsAt names part) I x P) :
    FindsParts names [part] I x := by
  intro c hI
  obtain ⟨hproblems, -, hI⟩ := hx c hI
  exact ⟨.one hproblems, trivial, hI⟩

/-- Parts, and then more parts. -/
theorem andThen (hx : FindsParts names parts I x) (hf : ∀ a, FindsParts names more I (f a)) :
    FindsParts names (parts ++ more) I (x >>= f) :=
  Finds.bind_of (fun _ _ => FoundIn.append) hx fun a _ => hf a

/-- The last parts. -/
theorem last (hx : FindsParts names parts I x) (hf : ∀ a, FindsParts names [] I (f a)) :
    FindsParts names parts I (x >>= f) := by
  have h := hx.andThen hf
  rwa [List.append_nil] at h

/-- One part, and then more parts. -/
theorem next (hx : FindsEach (SemanticError.PointsAt names part) I x P)
    (hf : ∀ a, P a → FindsParts names more I (f a)) :
    FindsParts names (part :: more) I (x >>= f) :=
  Finds.bind_of (fun _ _ hp hq => (FoundIn.one hp).append hq) hx hf

/-- Something in front in the same part. -/
theorem within (hx : FindsEach (SemanticError.PointsAt names part) I x P)
    (hf : ∀ a, P a → FindsParts names (part :: more) I (f a)) :
    FindsParts names (part :: more) I (x >>= f) :=
  Finds.bind_of (fun _ _ => FoundIn.cons) hx hf

/-- One part, if there is a reason for it, and then more parts. -/
theorem next_if {p : Prop} [Decidable p] {x : Check Unit} {f : Unit → Check β}
    (hx : FindsEach (SemanticError.PointsAt names part) I x fun _ => True)
    (hf : ∀ u, FindsParts names more I (f u)) :
    FindsParts names (part :: more) I (if p then x >>= f else f ()) := by
  split
  · exact next hx fun u _ => hf u
  · intro c hI
    obtain ⟨hproblems, -, hI⟩ := hf () c hI
    exact ⟨hproblems.skip, trivial, hI⟩

end FindsParts

/-! ## Declarations in scope -/

/-- The names that functions in scope are declared by are among the tokens. -/
def Function.NamedIn (names : List Token) (f : Function) : Prop := NamedBy names f.declaredAt

/-- The names that symbols in scope are declared by are among the tokens. -/
def Symbol.NamedIn (names : List Token) (symbol : Symbol) : Prop :=
  NamedBy names symbol.declaredAt

/-- What is in scope is declared by names among the tokens. -/
abbrev Context.NamedIn (names : List Token) (c : Context) : Prop :=
  c.All (Symbol.NamedIn names) (Function.NamedIn names)

theorem Context.NamedIn.declared? {c : Context} (hc : c.NamedIn names) {name : String}
    {symbol : Symbol} (h : c.scopes.current.declared? c.order.arrange name = some symbol) :
    symbol.NamedIn names :=
  (Scopes.All.current hc).declares (fun _ hf => hf) (Scope.declares_of_declared? c.order.perm h)

namespace Finds

theorem inScopeIn {S : Symbol → Prop} {F : Function → Prop} (kind : ScopeKind)
    (hx : Finds N (Context.All S F) x P) : Finds N (Context.All S F) (inScope kind x) P :=
  between (fun _ hc => Scopes.All.push hc kind) hx fun _ hc => Scopes.All.pop hc

theorem inLoopIn {S : Symbol → Prop} {F : Function → Prop}
    (hx : Finds N (Context.All S F) x P) : Finds N (Context.All S F) (inLoop x) P :=
  between (fun _ hc => hc) hx fun _ hc => hc

theorem inFunctionIn {S : Symbol → Prop} {F : Function → Prop} (returnType : Option Ty)
    (hx : Finds N (Context.All S F) x P) :
    Finds N (Context.All S F) (inFunction returnType x) P := by
  apply get_bind
  intro c _
  exact between (fun _ hc => hc) (hx.inScopeIn .function) fun _ hc => hc

end Finds

end Essl
