import Essl.Proofs.Type.Text
import Mathlib.Data.Set.Function

/-!
# What signatures tell apart

Overloads are found by their signatures. As long as no two structs share a name, and none has the
name of a built-in type, a signature belongs to one function name and one list of types.
-/

namespace Essl

open Text

/-- A word of the form that names have. Keywords are of this form as well. -/
structure IsIdentifier (name : String) : Prop where
  starts : Scan.startsWord name.toList = true
  word : ∀ c ∈ name.toList, isWordPart c = true

theorem IsIdentifier.ne_nil {name : String} (h : IsIdentifier name) : name.toList ≠ [] := by
  intro hnil
  have hstarts := h.starts
  rw [hnil] at hstarts
  cases hstarts

theorem Primitive.name_ne_of_ofName? {name : String} (h : ofName? name = none) (p : Primitive) :
    p.name ≠ name := by
  rw [ofName?, List.find?_eq_none] at h
  simpa using h p (mem_all p)

/-- The structs that the texts of types have in them. -/
def structsOf (ts : List Ty) : List StructDef := ts.filterMap Ty.struct?

theorem mem_structsOf {ts : List Ty} {t : Ty} (ht : t ∈ ts) {s : StructDef} (hs : s ∈ t.struct?) :
    s ∈ structsOf ts := List.mem_filterMap.2 ⟨t, ht, hs⟩

/-- Functions with one signature have one name and parameters of the same types. -/
theorem signature_injective {m n : String} {as bs : List Ty} (hm : '(' ∉ m.toList)
    (hn : '(' ∉ n.toList)
    (hnames : ∀ s ∈ structsOf (as ++ bs),
      ∃ name, s.name = some name ∧ IsIdentifier name ∧ Primitive.ofName? name = none)
    (hdistinct : Set.InjOn StructDef.name {s | s ∈ structsOf (as ++ bs)})
    (h : signature m (as.map Ty.text) = signature n (bs.map Ty.text)) : m = n ∧ as = bs := by
  have hdistinctive : ∀ t ∈ as ++ bs, t.Distinctive := by
    intro t ht s hs
    obtain ⟨name, hname, hidentifier, hprimitive⟩ := hnames s (mem_structsOf ht hs)
    exact StructDef.distinctive_of_name hname hidentifier.ne_nil hidentifier.word
      (Primitive.name_ne_of_ofName? hprimitive)
  obtain ⟨hmn, halike⟩ := alike_of_signature hm hn
    (fun a ha => hdistinctive a (List.mem_append_left bs ha))
    (fun b hb => hdistinctive b (List.mem_append_right as hb)) h
  refine ⟨hmn, Ty.eq_of_forall₂_alike halike fun a ha b hb s hs t ht htext => ?_⟩
  have hsmem := mem_structsOf (List.mem_append_left bs ha) hs
  have htmem := mem_structsOf (List.mem_append_right as hb) ht
  obtain ⟨first, hfirst, -⟩ := hnames s hsmem
  obtain ⟨second, hsecond, -⟩ := hnames t htmem
  apply hdistinct hsmem htmem
  rw [StructDef.text, StructDef.text, hfirst, hsecond] at htext
  rw [hfirst, hsecond, show first = second from htext]

theorem signature_injective_arrays :
    let s : StructDef := ⟨0, some "S", [], .whole "S"⟩
    let t : StructDef := ⟨1, some "S2", [], .whole "S2"⟩
    let as : List Ty := [.array (.array (.struct s) 2) 12, .struct t]
    let bs : List Ty := [.array (.struct s) 2, .struct t].modifyHead (.array · 12)
    signature "f" (as.map Ty.text) = "f(S[2][12],S2)" ∧
      signature "f" (as.map Ty.text) = signature "f" (bs.map Ty.text) ∧ "f" = "f" ∧ as = bs := by
  intro s t as bs
  have hnames : ∀ r ∈ [s, t, s, t],
      ∃ name, r.name = some name ∧ IsIdentifier name ∧ Primitive.ofName? name = none := by
    simp only [List.mem_cons, List.not_mem_nil, or_false]
    rintro r (rfl | rfl | rfl | rfl) <;>
      exact ⟨_, rfl, ⟨by decide, List.all_eq_true.1 (by decide)⟩, by decide⟩
  have hdistinct : Set.InjOn StructDef.name {r | r ∈ [s, t, s, t]} := by
    simp only [List.mem_cons, List.not_mem_nil, or_false]
    rintro r (rfl | rfl | rfl | rfl) q (rfl | rfl | rfl | rfl) h <;> simp_all [s, t]
  exact ⟨by decide, rfl, signature_injective (by decide) (by decide) hnames hdistinct rfl⟩

end Essl
