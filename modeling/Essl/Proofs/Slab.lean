import Essl.Slab

/-!
# Slots in a list

Slots in a list behave as slots are to.
-/

namespace Essl.Slots

variable {α : Type} (slots : Slots α) (a : α)

theorem insert_of_nil (h : slots.vacant = []) :
    (slots.insert a).1 = slots.entries.length ∧
      (slots.insert a).2.entries = slots.entries ++ [some a] ∧ (slots.insert a).2.vacant = [] := by
  unfold insert
  split
  · exact ⟨rfl, rfl, rfl⟩
  · rename_i hcons
    cases h.symm.trans hcons

theorem insert_of_cons {key : Nat} {rest : List Nat} (h : slots.vacant = key :: rest) :
    (slots.insert a).1 = key ∧ (slots.insert a).2.entries = slots.entries.set key (some a) ∧
      (slots.insert a).2.vacant = rest := by
  unfold insert
  split
  · rename_i hnil
    cases h.symm.trans hnil
  · rename_i hcons
    cases h.symm.trans hcons
    exact ⟨rfl, rfl, rfl⟩

variable {slots}

theorem lt_of_isSome {key : Nat} (h : (slots.entries[key]?.join).isSome) :
    key < slots.entries.length := by
  refine Classical.byContradiction fun hge => ?_
  rw [List.getElem?_eq_none (Nat.le_of_not_lt hge)] at h
  cases h

/-- What is in the slots with one more. -/
theorem join_getElem?_concat (entries : List (Option α)) (value : Option α) (other : Nat) :
    (entries ++ [value])[other]?.join =
      if other = entries.length then value else entries[other]?.join := by
  rcases Nat.lt_trichotomy other entries.length with hlt | rfl | hgt
  · rw [List.getElem?_append_left hlt, if_neg (Nat.ne_of_lt hlt)]
  · simp
  · have hbeyond : (entries ++ [value])[other]? = none :=
      List.getElem?_eq_none (List.length_append ▸ hgt)
    rw [hbeyond, List.getElem?_eq_none (Nat.le_of_lt hgt), if_neg (Nat.ne_of_gt hgt)]

/-- What is in the slots once one of them is filled or vacated. -/
theorem join_getElem?_set {key : Nat} (h : key < slots.entries.length) (value : Option α)
    (other : Nat) : (slots.entries.set key value)[other]?.join =
      if other = key then value else slots.entries[other]?.join := by
  rw [List.getElem?_set]
  by_cases heq : other = key
  · subst heq
    simp [h]
  · rw [if_neg (Ne.symm heq), if_neg heq]

theorem remove_of_lt {key : Nat} (h : key < slots.entries.length) :
    (slots.remove key).entries = slots.entries.set key none ∧
      (slots.remove key).vacant = key :: slots.vacant := by
  rw [remove, dif_pos h]
  exact ⟨rfl, rfl⟩

theorem slab_lawful (α : Type) : (slab α).Lawful where
  size_empty := rfl
  vacant_empty := rfl
  get?_empty _ := rfl
  key_insert slots a := by
    change (slots.insert a).1 = slots.vacant.headD slots.entries.length
    cases h : slots.vacant with
    | nil => exact (slots.insert_of_nil a h).1
    | cons key rest => exact (slots.insert_of_cons a h).1
  size_insert slots a := by
    change (slots.insert a).2.entries.length =
      if slots.vacant = [] then slots.entries.length + 1 else slots.entries.length
    cases h : slots.vacant with
    | nil => simp [(slots.insert_of_nil a h).2.1]
    | cons key rest => simp [(slots.insert_of_cons a h).2.1]
  vacant_insert slots a := by
    change (slots.insert a).2.vacant = slots.vacant.tail
    cases h : slots.vacant with
    | nil => exact (slots.insert_of_nil a h).2.2
    | cons key rest => exact (slots.insert_of_cons a h).2.2
  get?_insert slots a key := by
    change (slots.insert a).2.entries[key]?.join =
      if key = (slots.insert a).1 then some a else slots.entries[key]?.join
    cases h : slots.vacant with
    | nil =>
        obtain ⟨hkey, hentries, -⟩ := slots.insert_of_nil a h
        rw [hkey, hentries]
        exact join_getElem?_concat _ _ _
    | cons first rest =>
        obtain ⟨hkey, hentries, -⟩ := slots.insert_of_cons a h
        rw [hkey, hentries]
        exact join_getElem?_set (slots.vacant_lt first (h ▸ List.mem_cons_self)) _ _
  size_remove slots key h := by
    change (slots.remove key).entries.length = slots.entries.length
    rw [(remove_of_lt (lt_of_isSome h)).1, List.length_set]
  vacant_remove slots key h := (remove_of_lt (lt_of_isSome h)).2
  get?_remove slots key h other := by
    change (slots.remove key).entries[other]?.join = _
    rw [(remove_of_lt (lt_of_isSome h)).1]
    exact join_getElem?_set (lt_of_isSome h) _ _
  size_replace slots key a _ := List.length_set
  vacant_replace _ _ _ _ := rfl
  get?_replace slots key a h other := join_getElem?_set (lt_of_isSome h) _ _

end Essl.Slots
