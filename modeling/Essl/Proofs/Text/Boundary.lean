import Essl.Proofs.Token.Partition
import Mathlib.Order.MinMax

/-!
# Locations of whole characters

A location that starts and ends between characters covers a piece of its text, and its text is
that piece. Joining such locations and going to the end of one gives such locations again. A slice
need not be one: its offsets count the bytes of some other text, which may have been expanded from
what stands at the location.
-/

namespace Essl

open Text

namespace Text

/-- Of two beginnings of a text the one with fewer bytes is a beginning of the other one. -/
theorem exists_append_of_byteLength_le {a b c d : List Char} (h : a ++ b = c ++ d)
    (hle : byteLength a ≤ byteLength c) : ∃ inside, c = a ++ inside ∧ b = inside ++ d := by
  rcases List.append_eq_append_iff.1 h with ⟨inside, hc, hb⟩ | ⟨rest, rfl, rfl⟩
  · exact ⟨inside, hc, hb⟩
  · have hrest : rest = [] := by
      by_contra hne
      have hpos := byteLength_pos hne
      rw [byteLength_append] at hle
      omega
    subst hrest
    exact ⟨[], by simp, rfl⟩

end Text

/-! ## Boundaries -/

/-- A character of the text starts at the offset, or the text ends there. -/
def Code.IsBoundary (code : Code) (offset : Nat) : Prop :=
  ∃ before after, code.chars = before ++ after ∧ byteLength before = offset

namespace Code

variable {code : Code}

theorem isBoundary_append {before after : List Char} (h : code.chars = before ++ after) :
    code.IsBoundary (byteLength before) := ⟨before, after, h, rfl⟩

theorem IsBoundary.le_size {offset : Nat} (h : code.IsBoundary offset) : offset ≤ code.size := by
  obtain ⟨before, after, hchars, rfl⟩ := h
  rw [size, hchars, byteLength_append]
  exact Nat.le_add_right _ _

end Code

/-! ## Exact locations -/

namespace Location

/-- The location starts and ends at boundaries of its text. -/
structure Exact (l : Location) : Prop where
  start : l.code.IsBoundary l.start
  stop : l.code.IsBoundary l.stop
  le : l.start ≤ l.stop

theorem exact_of_append {code : Code} {before inside after : List Char}
    (h : code.chars = before ++ (inside ++ after)) :
    Exact ⟨code, byteLength before, byteLength before + byteLength inside⟩ where
  start := Code.isBoundary_append h
  stop := by
    rw [← byteLength_append]
    exact Code.isBoundary_append (by rw [h, List.append_assoc])
  le := Nat.le_add_right _ _

variable {l m : Location}

namespace Exact

theorem stop_le_size (h : l.Exact) : l.stop ≤ l.code.size := h.stop.le_size

/-- The text of an exact location is the piece of its code that it covers. -/
theorem exists_split (h : l.Exact) : ∃ before after,
    l.code.chars = before ++ (l.text.toList ++ after) ∧ byteLength before = l.start ∧
      byteLength before + byteLength l.text.toList = l.stop := by
  obtain ⟨before, rest, hstart, hbefore⟩ := h.start
  obtain ⟨upTo, after, hstop, hupTo⟩ := h.stop
  obtain ⟨inside, rfl, rfl⟩ := exists_append_of_byteLength_le (hstart.symm.trans hstop)
    (hbefore.trans_le (h.le.trans hupTo.ge))
  have hsum : byteLength before + byteLength inside = l.stop := by
    rw [← hupTo, byteLength_append]
  have htext : l.text.toList = inside := by
    rw [text, hstart, ← hbefore, ← hsum, sliceBytes_middle, String.toList_ofList]
    rfl
  rw [htext]
  exact ⟨before, after, hstart, hbefore, hsum⟩

theorem byteLength_text (h : l.Exact) : l.start + byteLength l.text.toList = l.stop := by
  obtain ⟨before, after, -, hstart, hstop⟩ := h.exists_split
  rw [← hstart, hstop]

theorem join (hl : l.Exact) (hm : m.Exact) : (l.join m).Exact := by
  unfold Location.join
  split
  · rename_i hcode
    refine ⟨?_, ?_, (min_le_left _ _).trans (hl.le.trans (le_max_left _ _))⟩
    · rcases min_choice l.start m.start with h | h <;> simp only [h]
      · exact hl.start
      · rw [hcode]
        exact hm.start
    · rcases max_choice l.stop m.stop with h | h <;> simp only [h]
      · exact hl.stop
      · rw [hcode]
        exact hm.stop
  · exact hl

theorem endpoint (h : l.Exact) : l.endpoint.Exact := ⟨h.stop, h.stop, Nat.le_refl _⟩

end Exact

theorem exact_whole (value : String) : (whole value).Exact where
  start := ⟨[], value.toList, rfl, rfl⟩
  stop := ⟨value.toList, [], (List.append_nil _).symm, rfl⟩
  le := Nat.zero_le _

/-! ## Slices -/

/-- A slice stays inside of the location. -/
theorem slice_inside (h : l.start ≤ l.stop) (offset size : Nat) :
    (l.slice offset size).code = l.code ∧ l.start ≤ (l.slice offset size).start ∧
      (l.slice offset size).start ≤ (l.slice offset size).stop ∧
        (l.slice offset size).stop ≤ l.stop := by
  refine ⟨rfl, ?_⟩
  dsimp only [slice]
  omega

/-- A slice along the text of the location itself covers the characters that were meant. -/
theorem Exact.slice (h : l.Exact) {before inside after : List Char}
    (htext : l.text.toList = before ++ (inside ++ after)) :
    (l.slice (byteLength before) (byteLength inside)).Exact ∧
      (l.slice (byteLength before) (byteLength inside)).text.toList = inside := by
  obtain ⟨front, back, hchars, hfront, hstop⟩ := h.exists_split
  have hsplit : l.code.chars = (front ++ before) ++ (inside ++ (after ++ back)) := by
    rw [hchars, htext]
    simp only [List.append_assoc]
  have hslice : l.slice (byteLength before) (byteLength inside) =
      ⟨l.code, byteLength (front ++ before),
        byteLength (front ++ before) + byteLength inside⟩ := by
    rw [htext] at hstop
    simp only [byteLength_append] at hstop
    simp only [Location.slice, byteLength_append, Location.mk.injEq, true_and]
    omega
  rw [hslice]
  refine ⟨exact_of_append hsplit, ?_⟩
  rw [text, hsplit, sliceBytes_middle, String.toList_ofList]
  rfl

end Location

end Essl
