/-!
# Slots

Values in numbered slots, of which vacant ones are used again.
-/

namespace Essl

/-- Numbered slots, some of them vacant. -/
structure Slab (τ α : Type) where
  empty : τ
  /-- How many slots there are. -/
  size : τ → Nat
  /-- The vacant slots in the order in which they are used again. -/
  vacant : τ → List Nat
  get? : τ → Nat → Option α
  /-- Fills a vacant slot or a new one. -/
  insert : τ → α → Nat × τ
  remove : τ → Nat → τ
  replace : τ → Nat → α → τ

/-- A new slot gets the next number, and the slot vacated last is used again first. Other slots
keep what they have. -/
structure Slab.Lawful {τ α : Type} (S : Slab τ α) : Prop where
  size_empty : S.size S.empty = 0
  vacant_empty : S.vacant S.empty = []
  get?_empty : ∀ key, S.get? S.empty key = none
  key_insert : ∀ slots a, (S.insert slots a).1 = (S.vacant slots).headD (S.size slots)
  size_insert : ∀ slots a, S.size (S.insert slots a).2 =
    if S.vacant slots = [] then S.size slots + 1 else S.size slots
  vacant_insert : ∀ slots a, S.vacant (S.insert slots a).2 = (S.vacant slots).tail
  get?_insert : ∀ slots a key, S.get? (S.insert slots a).2 key =
    if key = (S.insert slots a).1 then some a else S.get? slots key
  size_remove : ∀ slots key, (S.get? slots key).isSome → S.size (S.remove slots key) = S.size slots
  vacant_remove : ∀ slots key, (S.get? slots key).isSome →
    S.vacant (S.remove slots key) = key :: S.vacant slots
  get?_remove : ∀ slots key, (S.get? slots key).isSome → ∀ other,
    S.get? (S.remove slots key) other = if other = key then none else S.get? slots other
  size_replace : ∀ slots key a, (S.get? slots key).isSome →
    S.size (S.replace slots key a) = S.size slots
  vacant_replace : ∀ slots key a, (S.get? slots key).isSome →
    S.vacant (S.replace slots key a) = S.vacant slots
  get?_replace : ∀ slots key a, (S.get? slots key).isSome → ∀ other,
    S.get? (S.replace slots key a) other = if other = key then some a else S.get? slots other

/-! ## Slots in a list -/

/-- Slots, and which of them to use again. -/
structure Slots (α : Type) where
  entries : List (Option α)
  vacant : List Nat
  vacant_lt : ∀ key ∈ vacant, key < entries.length

namespace Slots

variable {α : Type}

def insert (slots : Slots α) (a : α) : Nat × Slots α :=
  match h : slots.vacant with
  | [] => (slots.entries.length, ⟨slots.entries ++ [some a], [], nofun⟩)
  | key :: rest =>
    (key, ⟨slots.entries.set key (some a), rest, fun other hother => by
      rw [List.length_set]
      exact slots.vacant_lt other (h ▸ List.mem_cons_of_mem _ hother)⟩)

def remove (slots : Slots α) (key : Nat) : Slots α :=
  if h : key < slots.entries.length then
    ⟨slots.entries.set key none, key :: slots.vacant, by
      simpa [h] using slots.vacant_lt⟩
  else slots

def replace (slots : Slots α) (key : Nat) (a : α) : Slots α :=
  ⟨slots.entries.set key (some a), slots.vacant, by simpa using slots.vacant_lt⟩

/-- Slots in a list are numbered by their positions. -/
def slab (α : Type) : Slab (Slots α) α where
  empty := ⟨[], [], nofun⟩
  size slots := slots.entries.length
  vacant := vacant
  get? slots key := slots.entries[key]?.join
  insert := insert
  remove := remove
  replace := replace

end Slots

end Essl
