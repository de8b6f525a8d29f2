import Essl.Proofs.Token.Lexical
import Essl.Symbol
import Mathlib.Data.List.Basic

/-!
# What the text of a type tells

Signatures are made of the texts of types. The text of a type has everything of the type in it but
the definitions of structs, of which it only has the names. So two lists of types with one
signature are alike up to the definitions that the names of structs stand for.
-/

namespace Essl

open Text

/-- A list is cut at the first place where an element stands. -/
theorem List.eq_of_append_cons_eq {α : Type} {x y u v : List α} {a : α} (hx : a ∉ x) (hy : a ∉ y)
    (h : x ++ a :: u = y ++ a :: v) : x = y ∧ u = v := by
  rcases List.append_eq_append_iff.1 h with ⟨w, hw, htail⟩ | ⟨w, hw, htail⟩
  · cases w with
    | nil => simpa [eq_comm] using And.intro hw htail
    | cons b w =>
        rw [hw, (List.cons.inj htail).1] at hy
        simp at hy
  · cases w with
    | nil => simpa [eq_comm] using And.intro hw htail
    | cons b w =>
        rw [hw, (List.cons.inj htail).1] at hx
        simp at hx

theorem IsName.not_mem {name : String} (h : IsName name) {c : Char} (hc : isWordPart c = false) :
    c ∉ name.toList := by
  intro hmem
  rw [h.word c hmem] at hc
  cases hc

theorem IsName.ne_primitive {name : String} (h : IsName name) (p : Primitive) :
    name ≠ p.name := by
  rintro rfl
  have hkeyword : Keyword.ofText? p.name = some (.type p) := Keyword.ofText?_text (.type p)
  rw [h.notKeyword] at hkeyword
  cases hkeyword

theorem Primitive.name_inj {p q : Primitive} (h : p.name = q.name) : p = q := by
  have hp := Keyword.ofText?_text (.type p)
  have hq := Keyword.ofText?_text (.type q)
  change Keyword.ofText? p.name = _ at hp
  change Keyword.ofText? q.name = _ at hq
  rw [h, hq] at hp
  injection hp with hp
  injection hp with hp
  exact hp.symm

theorem Primitive.isAlphanum_of_mem_name {p : Primitive} {c : Char} (h : c ∈ p.name.toList) :
    c.isAlphanum := by
  have hall : p.name.toList.all Char.isAlphanum := by
    cases p with
    | scalar element => cases element <;> decide
    | vector element size => cases element <;> cases size <;> decide
    | matrix size => cases size <;> decide
    | _ => decide
  exact List.all_eq_true.1 hall c h

/-! ## Texts -/

/-- The name of a struct, if it has one, is a word that can name something. -/
def StructDef.Named (s : StructDef) : Prop := ∀ name ∈ s.name, IsName name

/-- So are the names of the structs that the text of the type has in it. -/
def Ty.Named : Ty → Prop
  | .primitive _ => True
  | .array element _ => element.Named
  | .struct s => s.Named

/-- A character that no name has in it. -/
def IsMark (c : Char) : Prop :=
  isWordPart c = false ∧ c.isAlphanum = false ∧ c ∉ "<anonymous struct>".toList

/-- The text of a struct is taken neither for several texts nor for that of another type. -/
structure StructDef.Distinctive (s : StructDef) : Prop where
  ne_nil : s.text.toList ≠ []
  not_mem : ∀ {c}, IsMark c → c ∉ s.text.toList
  ne_primitive : ∀ p : Primitive, p.name ≠ s.text

/-- The struct that the type is an array of, or is itself. -/
def Ty.struct? : Ty → Option StructDef
  | .primitive _ => none
  | .array element _ => element.struct?
  | .struct s => some s

/-- So is the text of the struct that the text of the type has in it. -/
def Ty.Distinctive (t : Ty) : Prop := ∀ s ∈ t.struct?, s.Distinctive

theorem StructDef.distinctive_of_name {s : StructDef} {name : String} (h : s.name = some name)
    (hne : name.toList ≠ []) (hword : ∀ c ∈ name.toList, isWordPart c = true)
    (hprimitive : ∀ p : Primitive, p.name ≠ name) : s.Distinctive := by
  have htext : s.text = name := by rw [text, h, Option.getD_some]
  refine ⟨by rwa [htext], fun hc hmem => ?_, by rwa [htext]⟩
  rw [htext] at hmem
  exact Bool.noConfusion (hc.1.symm.trans (hword _ hmem))

theorem StructDef.Named.distinctive {s : StructDef} (h : s.Named) : s.Distinctive := by
  cases hname : s.name with
  | none =>
      have htext : s.text = "<anonymous struct>" := by rw [text, hname, Option.getD_none]
      have hprimitive : ∀ p ∈ Primitive.all, p.name ≠ "<anonymous struct>" := by decide
      refine ⟨by rw [htext]; decide, fun hc => by rw [htext]; exact hc.2.2, fun p => ?_⟩
      rw [htext]
      exact hprimitive p (Primitive.mem_all p)
  | some name =>
      have hname' := h name hname
      exact distinctive_of_name hname hname'.ne_nil hname'.word fun p =>
        (hname'.ne_primitive p).symm

theorem Ty.Named.distinctive : ∀ {t : Ty}, t.Named → t.Distinctive
  | .primitive _, _ => fun _ hs => nomatch hs
  | .array element _, h => Named.distinctive (t := element) h
  | .struct _, h => fun _ hs => Option.some.inj hs ▸ StructDef.Named.distinctive h

theorem Primitive.not_mem_name (p : Primitive) {c : Char} (hc : IsMark c) : c ∉ p.name.toList := by
  intro hmem
  have := isAlphanum_of_mem_name hmem
  rw [hc.2.1] at this
  cases this

theorem Nat.not_mem_repr (n : Nat) {c : Char} (hc : c.isDigit = false) :
    c ∉ (toString n).toList := by
  intro hmem
  have hdigits : (toString n).toList = Nat.toDigits 10 n := Nat.toList_repr
  rw [hdigits] at hmem
  have := Nat.isDigit_of_mem_toDigits (by omega) (by omega) hmem
  rw [hc] at this
  cases this

namespace Ty

theorem text_array (element : Ty) (length : Nat) :
    (array element length).text.toList =
      element.text.toList ++ '[' :: ((toString length).toList ++ [']']) := by
  simp [text, String.toList_append]

theorem comma_not_mem_text : ∀ {t : Ty}, t.Distinctive → ',' ∉ t.text.toList
  | .primitive p, _ => p.not_mem_name (by unfold IsMark; decide)
  | .array element length, h => by
      have helement := comma_not_mem_text (t := element) h
      have hlength := Nat.not_mem_repr length (c := ',') rfl
      simp only [text_array, List.mem_append, List.mem_cons, not_or]
      exact ⟨helement, by decide, hlength, by decide⟩
  | .struct s, h => (h s rfl).not_mem (by unfold IsMark; decide)

theorem text_ne_empty : ∀ {t : Ty}, t.Distinctive → t.text.toList ≠ []
  | .primitive p, _ => by
      have hall : ∀ p ∈ Primitive.all, p.name.toList ≠ [] := by decide
      exact hall p (Primitive.mem_all p)
  | .array .., _ => by simp [text_array]
  | .struct s, h => (h s rfl).ne_nil

/-- The same type, but that a struct may be another one of the same name. -/
inductive Alike : Ty → Ty → Prop where
  | primitive (p : Primitive) : Alike (.primitive p) (.primitive p)
  | array {a b : Ty} (length : Nat) : Alike a b → Alike (.array a length) (.array b length)
  | struct {s t : StructDef} : s.text = t.text → Alike (.struct s) (.struct t)

theorem Alike.refl : ∀ t : Ty, Alike t t
  | .primitive p => .primitive p
  | .array element length => .array length (Alike.refl element)
  | .struct _ => .struct rfl

/-- Types that are alike are the same one if their structs are told apart by their texts. -/
theorem Alike.eq {a b : Ty} (h : Alike a b)
    (hstructs : ∀ s ∈ a.struct?, ∀ t ∈ b.struct?, s.text = t.text → s = t) : a = b := by
  induction h with
  | primitive p => rfl
  | array length _ ih => rw [ih hstructs]
  | struct htext => rw [hstructs _ rfl _ rfl htext]

theorem eq_of_forall₂_alike {as bs : List Ty} (h : List.Forall₂ Alike as bs)
    (hstructs : ∀ a ∈ as, ∀ b ∈ bs, ∀ s ∈ a.struct?, ∀ t ∈ b.struct?, s.text = t.text → s = t) :
    as = bs := by
  induction h with
  | nil => rfl
  | cons hfirst _ ih =>
      rw [hfirst.eq (hstructs _ List.mem_cons_self _ List.mem_cons_self),
        ih fun a ha b hb => hstructs a (List.mem_cons_of_mem _ ha) b (List.mem_cons_of_mem _ hb)]

private theorem bracket_mem_array (element : Ty) (length : Nat) :
    ']' ∈ (array element length).text.toList := by
  simp [text_array]

private theorem bracket_not_mem_primitive (p : Primitive) :
    ']' ∉ (primitive p).text.toList := p.not_mem_name (by unfold IsMark; decide)

private theorem bracket_not_mem_struct {s : StructDef} (h : s.Distinctive) :
    ']' ∉ (struct s).text.toList := h.not_mem (by unfold IsMark; decide)

/-- The element and the length can be read off the text of an array. -/
private theorem array_text_inj {a b : Ty} {m n : Nat} (h : (array a m).text = (array b n).text) :
    a.text = b.text ∧ m = n := by
  have hlist := congrArg (List.reverse ∘ String.toList) h
  simp only [Function.comp_apply, text_array, List.reverse_append, List.reverse_cons,
    List.append_assoc, List.nil_append, List.reverse_nil, List.singleton_append] at hlist
  have hdigits : ∀ k : Nat, '[' ∉ ']' :: (toString k).toList.reverse := by
    intro k
    have hk := Nat.not_mem_repr k (c := '[') rfl
    simp only [List.mem_cons, List.mem_reverse, not_or]
    exact ⟨by decide, hk⟩
  obtain ⟨hlength, helement⟩ := List.eq_of_append_cons_eq (hdigits m) (hdigits n) hlist
  constructor
  · exact String.toList_inj.1 (List.reverse_injective helement)
  · have hlist : Nat.toDigits 10 m = Nat.toDigits 10 n := by
      rw [← Nat.toList_repr, ← Nat.toList_repr]
      exact List.reverse_injective (List.cons.inj hlength).2
    rw [← Nat.ofDigitChars_ten_toDigits (n := m), hlist, Nat.ofDigitChars_ten_toDigits]

theorem alike_of_text : ∀ {a b : Ty}, a.Distinctive → b.Distinctive → a.text = b.text → Alike a b
  | .primitive p, .primitive q, _, _, h => by
      obtain rfl := Primitive.name_inj h
      exact .primitive p
  | .array a m, .array b n, ha, hb, h => by
      obtain ⟨htext, rfl⟩ := array_text_inj h
      exact .array m (alike_of_text ha hb htext)
  | .struct _, .struct _, _, _, h => .struct h
  | .primitive p, .array b n, _, _, h =>
      absurd (h ▸ bracket_mem_array b n) (bracket_not_mem_primitive p)
  | .array a m, .primitive q, _, _, h =>
      absurd (h ▸ bracket_mem_array a m) (bracket_not_mem_primitive q)
  | .struct _, .array b n, ha, _, h =>
      absurd (h ▸ bracket_mem_array b n) (bracket_not_mem_struct (ha _ rfl))
  | .array a m, .struct _, _, hb, h =>
      absurd (h ▸ bracket_mem_array a m) (bracket_not_mem_struct (hb _ rfl))
  | .primitive p, .struct _, _, hb, h => absurd h ((hb _ rfl).ne_primitive p)
  | .struct _, .primitive p, ha, _, h => absurd h.symm ((ha _ rfl).ne_primitive p)

end Ty

/-! ## Signatures -/

/-- A signature starts with the name of the function. -/
theorem name_of_signature {m n : String} {ss ts : List String} (hm : '(' ∉ m.toList)
    (hn : '(' ∉ n.toList) (h : signature m ss = signature n ts) : m = n := by
  have hlist := congrArg String.toList h
  simp only [signature, String.toList_append, List.append_assoc] at hlist
  exact String.toList_inj.1 (List.eq_of_append_cons_eq hm hn hlist).1

theorem signature_inj {m n : String} {ss ts : List String} (hm : '(' ∉ m.toList)
    (hn : '(' ∉ n.toList) (hs : ∀ s ∈ ss, s.toList ≠ [] ∧ ',' ∉ s.toList)
    (ht : ∀ t ∈ ts, t.toList ≠ [] ∧ ',' ∉ t.toList) (h : signature m ss = signature n ts) :
    m = n ∧ ss = ts := by
  refine ⟨name_of_signature hm hn h, ?_⟩
  have hlist := congrArg String.toList h
  simp only [signature, String.toList_append, String.toList_intercalate, List.append_assoc] at hlist
  have hrest := (List.eq_of_append_cons_eq hm hn hlist).2
  have htypes : [','].intercalate (ss.map String.toList) =
      [','].intercalate (ts.map String.toList) := List.append_cancel_right hrest
  have hpieces : ∀ {us : List String}, (∀ u ∈ us, u.toList ≠ [] ∧ ',' ∉ u.toList) → us ≠ [] →
      ([','].intercalate (us.map String.toList)).splitOn ',' = us.map String.toList := by
    intro us hus hne
    apply List.splitOn_intercalate
    · intro l hl
      obtain ⟨u, hu, rfl⟩ := List.mem_map.1 hl
      exact (hus u hu).2
    · simpa using hne
  have hempty : ∀ {us : List String}, (∀ u ∈ us, u.toList ≠ [] ∧ ',' ∉ u.toList) →
      [','].intercalate (us.map String.toList) = [] → us = [] := by
    intro us hus hnil
    by_contra hne
    have hpieces := hpieces hus hne
    rw [hnil] at hpieces
    obtain ⟨u, us, rfl⟩ := List.exists_cons_of_ne_nil hne
    rw [List.map_cons, List.splitOn_nil] at hpieces
    exact (hus u List.mem_cons_self).1 (List.cons.inj hpieces).1.symm
  by_cases hss : ss = []
  · subst hss
    exact (hempty ht (by rw [← htypes]; rfl)).symm
  · by_cases hts : ts = []
    · subst hts
      exact hempty hs (by rw [htypes]; rfl)
    · apply List.map_injective_iff.2 fun _ _ heq => String.toList_inj.1 heq
      rw [← hpieces hs hss, htypes, hpieces ht hts]

/-- Types with one signature are alike, one by one. -/
theorem alike_of_signature {m n : String} {as bs : List Ty} (hm : '(' ∉ m.toList)
    (hn : '(' ∉ n.toList) (has : ∀ a ∈ as, a.Distinctive)
    (hbs : ∀ b ∈ bs, b.Distinctive)
    (h : signature m (as.map Ty.text) = signature n (bs.map Ty.text)) :
    m = n ∧ List.Forall₂ Ty.Alike as bs := by
  have hplain : ∀ {ts : List Ty}, (∀ t ∈ ts, t.Distinctive) →
      ∀ s ∈ ts.map Ty.text, s.toList ≠ [] ∧ ',' ∉ s.toList := by
    intro ts hts s hs
    obtain ⟨t, ht, rfl⟩ := List.mem_map.1 hs
    exact ⟨Ty.text_ne_empty (hts t ht), Ty.comma_not_mem_text (hts t ht)⟩
  obtain ⟨hname, htexts⟩ := signature_inj hm hn (hplain has) (hplain hbs) h
  refine ⟨hname, ?_⟩
  clear h hplain
  induction as generalizing bs with
  | nil =>
      obtain rfl := List.map_eq_nil_iff.1 htexts.symm
      exact .nil
  | cons a as ih =>
      obtain ⟨b, bs, rfl, htext, hrest⟩ := List.map_eq_cons_iff.1 htexts.symm
      refine .cons ?_ ?_
      · exact Ty.alike_of_text (has a List.mem_cons_self) (hbs b List.mem_cons_self) htext.symm
      · exact ih (fun t ht => has t (List.mem_cons_of_mem a ht))
          (fun t ht => hbs t (List.mem_cons_of_mem b ht)) hrest.symm

end Essl
