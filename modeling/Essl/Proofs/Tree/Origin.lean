import Essl.Proofs.Grammar.Regular
import Essl.Proofs.Token.Places
import Essl.Tree.Span

/-!
# Where the places in a tree come from

A tree keeps tokens that it is read from, and the places in it are those of tokens that it keeps,
or joined from them.
-/

namespace Essl

/-! ## Tokens that are kept -/

/-- The token that a tree keeps in the place of a piece. -/
def Piece.token? : Piece → Option Token
  | kept token => some token
  | separator _ => none

/-- The tokens that a tree keeps. -/
def keptTokens (pieces : List Piece) : List Token := pieces.filterMap Piece.token?

section

variable {ps qs : List Piece} {t : Token} {ts : List Token}

@[simp] theorem keptTokens_nil : keptTokens [] = [] := rfl

@[simp] theorem keptTokens_kept : keptTokens (.kept t :: ps) = t :: keptTokens ps := rfl

@[simp] theorem keptTokens_separator {s : Separator} :
    keptTokens (.separator s :: ps) = keptTokens ps := rfl

@[simp] theorem keptTokens_append : keptTokens (ps ++ qs) = keptTokens ps ++ keptTokens qs :=
  List.filterMap_append

@[simp] theorem keptTokens_map_kept : keptTokens (ts.map .kept) = ts := by
  induction ts with
  | nil => rfl
  | cons t ts ih => rw [List.map_cons, keptTokens_kept, ih]

theorem keptTokens_commaBefore (pss : List (List Piece)) :
    keptTokens (commaBefore pss) = pss.flatMap keptTokens := by
  induction pss with
  | nil => rfl
  | cons ps pss ih => simp [commaBefore, ih]

@[simp] theorem keptTokens_commaBetween (pss : List (List Piece)) :
    keptTokens (commaBetween pss) = pss.flatMap keptTokens := by
  cases pss with
  | nil => rfl
  | cons ps pss => simp [commaBetween, keptTokens_commaBefore]

/-- A tree keeps tokens that it is read from, in their order. -/
theorem Spells.keptTokens_sublist (h : Spells ps ts) : (keptTokens ps).Sublist ts := by
  unfold Spells at h
  induction h with
  | nil => exact .slnil
  | @cons piece t ps ts hpiece _ ih =>
      cases piece with
      | kept u =>
          obtain rfl : t = u := hpiece
          exact ih.cons_cons t
      | separator s => exact ih.cons t

end

/-! ## Places in expressions -/

section

variable (ts : List Token)

namespace Expr

mutual

/-- The tokens that the places in an expression come from are among those given. -/
def MadeOf : Expr → Prop
  | .assignment _ left op right | .binary _ left op right =>
    left.MadeOf ∧ op ∈ ts ∧ right.MadeOf
  | .ternary _ condition _ whenTrue _ whenFalse =>
    condition.MadeOf ∧ whenTrue.MadeOf ∧ whenFalse.MadeOf
  | .unary _ op operand => op ∈ ts ∧ operand.MadeOf
  | .step _ operand op => operand.MadeOf ∧ op ∈ ts
  | .literal _ token => token ∈ ts
  | .group _ opening inner closing => opening ∈ ts ∧ inner.MadeOf ∧ closing ∈ ts
  | .variable _ name => name ∈ ts
  | .call _ callee _ _ arguments closing => callee ∈ ts ∧ EachMadeOf arguments ∧ closing ∈ ts
  | .arrayCall _ callee _ size _ _ _ arguments closing =>
    callee ∈ ts ∧ size.MadeOf ∧ EachMadeOf arguments ∧ closing ∈ ts
  | .field _ operand _ selector => operand.MadeOf ∧ selector ∈ ts
  | .index _ operand _ position closing => operand.MadeOf ∧ position.MadeOf ∧ closing ∈ ts
  | .list _ exprs => exprs ≠ [] ∧ EachMadeOf exprs

def EachMadeOf : List Expr → Prop
  | [] => True
  | e :: es => e.MadeOf ∧ EachMadeOf es

end

end Expr

/-! ## Places in declarations -/

/-- The places in an array size come from the tokens. -/
structure ArraySize.MadeOf (s : ArraySize) : Prop where
  size : s.size.MadeOf ts
  closing : s.closing ∈ ts

/-- The places in a declarator come from the tokens. -/
structure Declarator.MadeOf (d : Declarator) : Prop where
  name : d.name ∈ ts
  size : ∀ s ∈ d.size, s.MadeOf ts
  initializer : ∀ e ∈ d.initializer, e.MadeOf ts

/-- Qualifiers are among the tokens. -/
def TypeQualifiers.MadeOf (q : TypeQualifiers) : Prop := q.storage ++ q.precision.toList ⊆ ts

mutual

/-- The places in a type specifier come from the tokens. -/
def TypeSpec.MadeOf : TypeSpec → Prop
  | .named q name _ => q.MadeOf ts ∧ name ∈ ts
  | .struct q keyword name _ fields closing _ _ =>
    q.MadeOf ts ∧ keyword ∈ ts ∧ name.toList ⊆ ts ∧ FieldSpec.EachMadeOf fields ∧ closing ∈ ts

def FieldSpec.EachMadeOf : List FieldSpec → Prop
  | [] => True
  | ⟨type, names, _⟩ :: rest =>
    type.MadeOf ∧ (∀ d ∈ names, d.MadeOf ts) ∧ FieldSpec.EachMadeOf rest

end

/-- The places in a parameter come from the tokens. -/
structure ParameterSpec.MadeOf (p : ParameterSpec) : Prop where
  typeSpec : p.typeSpec.MadeOf ts
  name : p.name.toList ⊆ ts
  size : ∀ s ∈ p.size, s.MadeOf ts

/-- The places in a function header come from the tokens. -/
structure FunctionHeader.MadeOf (h : FunctionHeader) : Prop where
  returnType : h.returnType.MadeOf ts
  name : h.name ∈ ts
  parameters : ∀ p ∈ h.parameters, p.MadeOf ts

/-- The places in a condition come from the tokens. -/
def Condition.MadeOf : Condition → Prop
  | .expression e => e.MadeOf ts
  | .declaration typeSpec d => typeSpec.MadeOf ts ∧ d.MadeOf ts

end

/-! ## Locations -/

variable {ts : List Token}

namespace Expr

mutual

theorem MadeOf.location : ∀ {e : Expr}, e.MadeOf ts → e.location.JoinedFrom ts
  | .assignment .., ⟨hleft, _, hright⟩ | .binary .., ⟨hleft, _, hright⟩ =>
      .join hleft.location hright.location
  | .ternary .., ⟨hcondition, _, hfalse⟩ => .join hcondition.location hfalse.location
  | .unary .., ⟨hop, hoperand⟩ => .join (.token hop) hoperand.location
  | .step .., ⟨hoperand, hop⟩ => .join hoperand.location (.token hop)
  | .literal .., htoken => .token htoken
  | .group .., ⟨hopening, _, hclosing⟩ => .join (.token hopening) (.token hclosing)
  | .variable .., hname => .token hname
  | .call .., ⟨hcallee, _, hclosing⟩ => .join (.token hcallee) (.token hclosing)
  | .arrayCall .., ⟨hcallee, _, _, hclosing⟩ => .join (.token hcallee) (.token hclosing)
  | .field .., ⟨hoperand, hselector⟩ => .join hoperand.location (.token hselector)
  | .index .., ⟨hoperand, _, hclosing⟩ => .join hoperand.location (.token hclosing)
  | .list _ [], ⟨hne, _⟩ => absurd rfl hne
  | .list _ (_ :: _), ⟨_, hfirst, hrest⟩ => hrest.locationOfRest hfirst.location

theorem EachMadeOf.locationOfRest : ∀ {es : List Expr} {start : Location}, EachMadeOf ts es →
    start.JoinedFrom ts → (Expr.locationOfRest start es).JoinedFrom ts
  | [], _, _, hstart => hstart
  | [_], _, ⟨hlast, _⟩, hstart => .join hstart hlast.location
  | _ :: next :: rest, _, ⟨_, hrest⟩, hstart => by
      have hrest : EachMadeOf ts (next :: rest) := hrest
      exact hrest.locationOfRest hstart

end

theorem eachMadeOf_iff {es : List Expr} : EachMadeOf ts es ↔ ∀ e ∈ es, e.MadeOf ts := by
  induction es with
  | nil => simp [EachMadeOf]
  | cons e es ih => simp [EachMadeOf, ih]

end Expr

theorem Declarator.MadeOf.location {d : Declarator} (h : d.MadeOf ts) :
    d.location.JoinedFrom ts := by
  unfold Declarator.location
  split
  · rename_i e he
    exact .join (.token h.name) (h.initializer e he).location
  · rename_i size _ hsize
    exact .join (.token h.name) (.token (h.size size hsize).closing)
  · exact .token h.name

theorem TypeQualifiers.MadeOf.first? {q : TypeQualifiers} (h : q.MadeOf ts) :
    ∀ t ∈ q.first?, t ∈ ts := by
  intro t ht
  apply h
  unfold TypeQualifiers.first? at ht
  cases hstorage : q.storage with
  | nil =>
      rw [hstorage] at ht
      simpa using ht
  | cons word words =>
      rw [hstorage] at ht
      obtain rfl : word = t := by simpa using ht
      exact List.mem_append_left _ List.mem_cons_self

theorem TypeSpec.MadeOf.location {s : TypeSpec} (h : s.MadeOf ts) : s.location.JoinedFrom ts := by
  cases s with
  | named q name type =>
      obtain ⟨hq, hname⟩ := h
      simp only [TypeSpec.location]
      cases hfirst : q.first? with
      | none => exact .token hname
      | some first => exact .join (.token (hq.first? first hfirst)) (.token hname)
  | struct q keyword name opening fields closing defined type =>
      obtain ⟨hq, hkeyword, -, -, hclosing⟩ := h
      refine .join ?_ (.token hclosing)
      cases hfirst : q.first? with
      | none => exact .token hkeyword
      | some first => exact .token (hq.first? first hfirst)

theorem TypeSpec.MadeOf.storage {s : TypeSpec} (h : s.MadeOf ts) : s.qualifiers.storage ⊆ ts := by
  cases s <;> exact (List.append_subset.1 h.1).1

/-! ## Regular trees -/

namespace Expr

mutual

/-- The places in an expression come from the tokens that it keeps. -/
theorem madeOf_of_regular : ∀ e : Expr, AllNodes Node.Regular e.nodes →
    keptTokens e.pieces ⊆ ts → e.MadeOf ts
  | .assignment _ left op right, h, hts | .binary _ left op right, h, hts => by
      simp only [nodes, allNodes_cons, allNodes_append] at h
      simp only [pieces, keptTokens_append, keptTokens_kept, List.append_subset,
        List.cons_subset] at hts
      exact ⟨left.madeOf_of_regular h.2.1 hts.1, hts.2.1, right.madeOf_of_regular h.2.2 hts.2.2⟩
  | .ternary _ condition question whenTrue colon whenFalse, h, hts => by
      simp only [nodes, allNodes_cons, allNodes_append] at h
      obtain ⟨-, ⟨hcondition, htrue⟩, hfalse⟩ := h
      simp only [pieces, keptTokens_append, keptTokens_kept, List.append_subset,
        List.cons_subset] at hts
      obtain ⟨hts, -, htstrue, -, htsfalse⟩ := hts
      exact ⟨condition.madeOf_of_regular hcondition hts, whenTrue.madeOf_of_regular htrue htstrue,
        whenFalse.madeOf_of_regular hfalse htsfalse⟩
  | .unary _ op operand, h, hts => by
      simp only [nodes, allNodes_cons] at h
      simp only [pieces, keptTokens_kept, List.cons_subset] at hts
      exact ⟨hts.1, operand.madeOf_of_regular h.2 hts.2⟩
  | .step _ operand op, h, hts => by
      simp only [nodes, allNodes_cons] at h
      simp only [pieces, keptTokens_append, keptTokens_kept, List.append_subset,
        List.cons_subset] at hts
      exact ⟨operand.madeOf_of_regular h.2 hts.1, hts.2.1⟩
  | .literal _ token, _, hts | .variable _ token, _, hts =>
      hts List.mem_cons_self
  | .group _ opening inner closing, h, hts => by
      simp only [nodes, allNodes_cons] at h
      simp only [pieces, keptTokens_append, keptTokens_kept, List.append_subset,
        List.cons_subset] at hts
      exact ⟨hts.1, inner.madeOf_of_regular h.2 hts.2.1, hts.2.2.1⟩
  | .call _ callee opening void arguments closing, h, hts => by
      simp only [nodes, allNodes_cons] at h
      simp only [pieces, keptTokens_append, keptTokens_kept, keptTokens_commaBetween,
        List.append_subset, List.cons_subset] at hts
      obtain ⟨hcallee, -, -, harguments, hclosing, -⟩ := hts
      exact ⟨hcallee, eachMadeOf_of_regular arguments h.2 harguments, hclosing⟩
  | .arrayCall _ callee bracket size bracketEnd opening void arguments closing, h, hts => by
      simp only [nodes, allNodes_cons, allNodes_append] at h
      simp only [pieces, keptTokens_append, keptTokens_kept, keptTokens_commaBetween,
        List.append_subset, List.cons_subset] at hts
      obtain ⟨hcallee, -, hsize, -, -, -, harguments, hclosing, -⟩ := hts
      exact ⟨hcallee, size.madeOf_of_regular h.2.1 hsize,
        eachMadeOf_of_regular arguments h.2.2 harguments, hclosing⟩
  | .field _ operand dot selector, h, hts => by
      simp only [nodes, allNodes_cons] at h
      simp only [pieces, keptTokens_append, keptTokens_kept, List.append_subset,
        List.cons_subset] at hts
      exact ⟨operand.madeOf_of_regular h.2 hts.1, hts.2.2.1⟩
  | .index _ operand opening position closing, h, hts => by
      simp only [nodes, allNodes_cons, allNodes_append] at h
      simp only [pieces, keptTokens_append, keptTokens_kept, List.append_subset,
        List.cons_subset] at hts
      obtain ⟨hoperand, -, hposition, hclosing, -⟩ := hts
      exact ⟨operand.madeOf_of_regular h.2.1 hoperand,
        position.madeOf_of_regular h.2.2 hposition, hclosing⟩
  | .list _ exprs, h, hts => by
      simp only [nodes, allNodes_cons] at h
      simp only [pieces, keptTokens_commaBetween] at hts
      exact ⟨h.1, eachMadeOf_of_regular exprs h.2 hts⟩

theorem eachMadeOf_of_regular : ∀ es : List Expr, AllNodes Node.Regular (nodesOfEach es) →
    (piecesOfEach es).flatMap keptTokens ⊆ ts → EachMadeOf ts es
  | [], _, _ => trivial
  | e :: es, h, hts => by
      simp only [nodesOfEach, allNodes_append] at h
      simp only [piecesOfEach, List.flatMap_cons, List.append_subset] at hts
      exact ⟨e.madeOf_of_regular h.1 hts.1, eachMadeOf_of_regular es h.2 hts.2⟩

end

end Expr

theorem sizeMadeOf_of_regular {size : Option ArraySize}
    (h : AllNodes Node.Regular (sizeNodes size)) (hts : keptTokens (sizePieces size) ⊆ ts) :
    ∀ s ∈ size, s.MadeOf ts := by
  rintro s rfl
  simp only [sizePieces, keptTokens_append, keptTokens_kept, List.append_subset,
    List.cons_subset] at hts
  exact ⟨s.size.madeOf_of_regular h hts.2.1, hts.2.2.1⟩

theorem Declarator.madeOf_of_regular {d : Declarator} (h : AllNodes Node.Regular d.inside)
    (hts : keptTokens d.pieces ⊆ ts) : d.MadeOf ts := by
  simp only [inside, allNodes_append, allNodes_optionalNodes] at h
  simp only [pieces, keptTokens_append, keptTokens_kept, List.append_subset,
    List.cons_subset] at hts
  obtain ⟨hname, hsize, hinitializer⟩ := hts
  refine ⟨hname, sizeMadeOf_of_regular h.1 hsize, fun e he => ?_⟩
  rw [Option.mem_def.1 he] at hinitializer
  exact e.madeOf_of_regular (h.2 e he) hinitializer

theorem TypeQualifiers.madeOf_of_pieces {q : TypeQualifiers} (hts : keptTokens q.pieces ⊆ ts) :
    q.MadeOf ts := by
  simp only [pieces, keptTokens_append, keptTokens_map_kept] at hts
  exact hts

mutual

theorem TypeSpec.madeOf_of_regular : ∀ s : TypeSpec, AllNodes Node.Regular s.nodes →
    keptTokens s.qualifiers.pieces ⊆ ts → keptTokens s.core ⊆ ts → s.MadeOf ts
  | .named q name _, _, hq, hts => ⟨q.madeOf_of_pieces hq, hts List.mem_cons_self⟩
  | .struct q keyword name opening fields closing _ _, h, hq, hts => by
      simp only [TypeSpec.nodes, allNodes_cons] at h
      simp only [TypeSpec.core, keptTokens_append, keptTokens_kept, keptTokens_map_kept,
        List.append_subset, List.cons_subset] at hts
      obtain ⟨hkeyword, hname, -, hfields, hclosing, -⟩ := hts
      exact ⟨q.madeOf_of_pieces hq, hkeyword, hname,
        FieldSpec.eachMadeOf_of_regular fields h.2 hfields, hclosing⟩

theorem FieldSpec.eachMadeOf_of_regular : ∀ fields : List FieldSpec,
    AllNodes Node.Regular (FieldSpec.nodesOfAll fields) →
      keptTokens (FieldSpec.piecesOfAll fields) ⊆ ts → FieldSpec.EachMadeOf ts fields
  | [], _, _ => trivial
  | ⟨type, names, semicolon⟩ :: rest, h, hts => by
      simp only [FieldSpec.nodesOfAll, allNodes_append, allNodes_flatMap] at h
      obtain ⟨⟨htype, hnames⟩, hrest⟩ := h
      simp only [FieldSpec.piecesOfAll, keptTokens_append, keptTokens_kept,
        keptTokens_commaBetween, List.flatMap_map, List.append_subset, List.cons_subset] at hts
      obtain ⟨hqualifiers, hcore, htsnames, -, htsrest⟩ := hts
      refine ⟨type.madeOf_of_regular htype hqualifiers hcore, fun d hd => ?_,
        FieldSpec.eachMadeOf_of_regular rest hrest htsrest⟩
      refine d.madeOf_of_regular (allNodes_cons.1 (hnames d hd)).2 fun t ht => ?_
      exact htsnames (List.mem_flatMap.2 ⟨d, hd, ht⟩)

end

theorem TypeSpec.madeOf_of_pieces {s : TypeSpec} (h : AllNodes Node.Regular s.nodes)
    (hts : keptTokens s.pieces ⊆ ts) : s.MadeOf ts := by
  simp only [pieces, keptTokens_append, List.append_subset] at hts
  exact s.madeOf_of_regular h hts.1 hts.2

theorem ParameterSpec.madeOf_of_regular {p : ParameterSpec} (h : AllNodes Node.Regular p.nodes)
    (hts : keptTokens p.pieces ⊆ ts) : p.MadeOf ts := by
  simp only [nodes, allNodes_cons, allNodes_append] at h
  simp only [pieces, keptTokens_append, keptTokens_map_kept, List.append_subset] at hts
  obtain ⟨-, htypeSpec, hname, hsize⟩ := hts
  exact ⟨TypeSpec.madeOf_of_pieces h.2.1 htypeSpec, hname, sizeMadeOf_of_regular h.2.2 hsize⟩

theorem FunctionHeader.madeOf_of_regular {header : FunctionHeader}
    (h : AllNodes Node.Regular header.nodes) (hts : keptTokens header.pieces ⊆ ts) :
    header.MadeOf ts := by
  simp only [nodes, allNodes_cons, allNodes_append, allNodes_flatMap] at h
  simp only [pieces, keptTokens_append, keptTokens_kept, keptTokens_commaBetween,
    List.flatMap_map, List.append_subset, List.cons_subset] at hts
  obtain ⟨hreturn, hname, -, hparameters, -⟩ := hts
  refine ⟨TypeSpec.madeOf_of_pieces h.2.1 hreturn, hname, fun p hp => ?_⟩
  exact p.madeOf_of_regular (h.2.2 p hp) fun t ht => hparameters (List.mem_flatMap.2 ⟨p, hp, ht⟩)

theorem Condition.madeOf_of_regular {c : Condition} (h : AllNodes Node.Regular c.nodes)
    (hts : keptTokens c.pieces ⊆ ts) : c.MadeOf ts := by
  cases c with
  | expression e => exact e.madeOf_of_regular (allNodes_cons.1 h).2 hts
  | declaration s d =>
      simp only [nodes, Declarator.nodes, allNodes_cons, allNodes_append] at h
      simp only [pieces, keptTokens_append, List.append_subset] at hts
      exact ⟨TypeSpec.madeOf_of_pieces h.2.1 hts.1, d.madeOf_of_regular h.2.2.2 hts.2⟩

end Essl
