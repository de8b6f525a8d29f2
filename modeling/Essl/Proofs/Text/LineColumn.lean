import Essl.Proofs.Text.Boundary
import Mathlib.Data.List.DropRight
import Mathlib.Data.Prod.Lex
import Mathlib.Order.Bounds.Basic

/-!
# Lines and columns

An index has the line and column of the last boundary that is not behind it. Lines count the line
breaks in front of a boundary and columns the characters since the last of them, so both together
grow from one boundary to the next and tell boundaries apart, until line numbers run out.
-/

namespace Essl

open Text

namespace Text

/-! ## Whole characters -/

theorem takeUpTo_isPrefix (size : Nat) (cs : List Char) : takeUpTo size cs <+: cs := by
  induction cs generalizing size with
  | nil => exact List.nil_prefix
  | cons c rest ih =>
      rw [takeUpTo]
      split
      · exact (List.prefix_cons_inj c).2 (ih _)
      · exact List.nil_prefix

theorem byteLength_takeUpTo_le (size : Nat) (cs : List Char) :
    byteLength (takeUpTo size cs) ≤ size := by
  induction cs generalizing size with
  | nil => exact Nat.zero_le size
  | cons c rest ih =>
      rw [takeUpTo]
      split
      · have hrest := ih (size - c.utf8Size)
        rw [byteLength_cons]
        omega
      · exact Nat.zero_le size

theorem isPrefix_takeUpTo {before : List Char} (after : List Char) {size : Nat}
    (h : byteLength before ≤ size) : before <+: takeUpTo size (before ++ after) := by
  induction before generalizing size with
  | nil => exact List.nil_prefix
  | cons c before ih =>
      rw [byteLength_cons] at h
      rw [List.cons_append, takeUpTo, if_pos (by omega)]
      exact (List.prefix_cons_inj c).2 (ih (by omega))

theorem byteLength_le_of_isPrefix {a b : List Char} (h : a <+: b) :
    byteLength a ≤ byteLength b := by
  obtain ⟨rest, rfl⟩ := h
  rw [byteLength_append]
  exact Nat.le_add_right _ _

theorem takeUpTo_byteLength (before after : List Char) :
    takeUpTo (byteLength before) (before ++ after) = before := by
  obtain ⟨more, hmore⟩ := isPrefix_takeUpTo after (Nat.le_refl (byteLength before))
  have hsize := byteLength_takeUpTo_le (byteLength before) (before ++ after)
  rw [← hmore, byteLength_append] at hsize
  have hnil : more = [] := by
    by_contra hne
    have := byteLength_pos hne
    omega
  rw [← hmore, hnil, List.append_nil]

/-! ## Last lines -/

theorem lastLine_append (a b : List Char) :
    lastLine (a ++ b) = if '\n' ∈ b then lastLine b else lastLine a ++ b := by
  induction a with
  | nil =>
      split
      · rfl
      · rename_i hb
        exact lastLine_of_not_mem hb
  | cons c a ih =>
      rw [List.cons_append, lastLine, ih]
      by_cases hb : '\n' ∈ b
      · simp [hb]
      · by_cases ha : '\n' ∈ c :: a
        · have hmem : '\n' ∈ c :: (a ++ b) := List.mem_append_left b ha
          rw [if_pos hmem, if_neg hb, if_neg hb, lastLine, if_pos ha]
        · have hmem : '\n' ∉ c :: (a ++ b) := fun h =>
            (List.mem_append.1 (List.cons_append ▸ h)).elim ha hb
          rw [if_neg hmem, if_neg hb, lastLine, if_neg ha, List.cons_append]

/-- The last line has all the characters since the last line break. -/
theorem lastLine_eq_rtakeWhile (cs : List Char) : lastLine cs = cs.rtakeWhile (· != '\n') := by
  induction cs using List.reverseRecOn with
  | nil => rfl
  | append_singleton cs c ih =>
      rw [lastLine_append, List.rtakeWhile_concat]
      by_cases hc : c = '\n'
      · subst hc
        rfl
      · have hmem : '\n' ∉ [c] := by simpa using Ne.symm hc
        rw [if_neg hmem, if_pos (by simpa using hc), ih]

end Text

namespace Code

variable {code : Code}

/-! ## Rounding down -/

/-- Where the last character starts that starts at the index or in front of it, or the end. -/
def floor (code : Code) (index : Nat) : Nat := byteLength (takeUpTo index code.chars)

theorem isGreatest_floor (code : Code) (index : Nat) :
    IsGreatest {b | code.IsBoundary b ∧ b ≤ min index code.size} (code.floor index) := by
  obtain ⟨after, hafter⟩ := takeUpTo_isPrefix index code.chars
  have hfloor : code.IsBoundary (code.floor index) := isBoundary_append hafter.symm
  refine ⟨⟨hfloor, le_min (byteLength_takeUpTo_le index code.chars) hfloor.le_size⟩, ?_⟩
  rintro _ ⟨⟨before, after, hchars, rfl⟩, hle⟩
  rw [floor, hchars]
  exact byteLength_le_of_isPrefix (isPrefix_takeUpTo after (le_min_iff.1 hle).1)

theorem lineColumn_floor (code : Code) (index : Nat) :
    code.lineColumn (code.floor index) = code.lineColumn index := by
  obtain ⟨after, hafter⟩ := takeUpTo_isPrefix index code.chars
  have hagain := takeUpTo_byteLength (takeUpTo index code.chars) after
  rw [hafter] at hagain
  rw [lineColumn_eq, lineColumn_eq, floor, hagain]

/-! ## Boundaries -/

/-- Line numbers go as far as the line at the index. -/
def LineFits (code : Code) (index : Nat) : Prop :=
  code.firstLine + (takeUpTo index code.chars).count '\n' < UInt64.size

theorem lineFits_append {before after : List Char} (h : code.chars = before ++ after) :
    code.LineFits (byteLength before) ↔ code.firstLine + before.count '\n' < UInt64.size := by
  rw [LineFits, h, takeUpTo_byteLength]

theorem lineColumn_append {before after : List Char} (h : code.chars = before ++ after) :
    code.lineColumn (byteLength before) =
      ((code.firstLine + before.count '\n') % UInt64.size, (lastLine before).length + 1) := by
  rw [lineColumn_eq, h, takeUpTo_byteLength]

theorem line_append {before after : List Char} (h : code.chars = before ++ after)
    (hfits : code.LineFits (byteLength before)) :
    (code.lineColumn (byteLength before)).1 = code.firstLine + before.count '\n' := by
  rw [lineColumn_append h, Nat.mod_eq_of_lt ((lineFits_append h).1 hfits)]

theorem strictMonoOn_lineColumn (code : Code) :
    StrictMonoOn (fun b => toLex (code.lineColumn b))
      {b | code.IsBoundary b ∧ code.LineFits b} := by
  rintro i ⟨hi, hiFits⟩ j ⟨hj, hjFits⟩ h
  obtain ⟨before, rest, hbefore, rfl⟩ := hi
  obtain ⟨upTo, after, hupTo, rfl⟩ := hj
  obtain ⟨inside, rfl, -⟩ := exists_append_of_byteLength_le (hbefore.symm.trans hupTo) h.le
  change toLex (code.lineColumn _) < toLex (code.lineColumn _)
  rw [Prod.Lex.toLex_lt_toLex, line_append hbefore hiFits, line_append hupTo hjFits,
    lineColumn_append hbefore, lineColumn_append hupTo, List.count_append, lastLine_append]
  -- A line break in between starts a later line, otherwise the same line goes on.
  by_cases hbreak : '\n' ∈ inside
  · have hcount := List.count_pos_iff.2 hbreak
    left
    omega
  · have hcount : inside.count '\n' = 0 := List.count_eq_zero.2 hbreak
    have hpos : 0 < inside.length := by
      rw [List.length_pos_iff]
      rintro rfl
      simp at h
    right
    rw [if_neg hbreak, hcount, List.length_append]
    dsimp only
    omega

/-- Lines and columns of any indices are those of boundaries. At boundaries columns count the
characters behind the last line break, and as far as line numbers go, lines count line breaks, both
together grow with the boundary, and no two boundaries have the same ones. -/
theorem lineColumn_exact (code : Code) :
    (∀ index, ∃ b, IsGreatest {b | code.IsBoundary b ∧ b ≤ min index code.size} b ∧
      code.lineColumn index = code.lineColumn b) ∧
    (∀ before after, code.chars = before ++ after →
      (code.lineColumn (byteLength before)).2 = 1 + (before.rtakeWhile (· != '\n')).length ∧
      (code.firstLine + before.count '\n' < UInt64.size →
        (code.lineColumn (byteLength before)).1 = code.firstLine + before.count '\n')) ∧
    StrictMonoOn (fun b => toLex (code.lineColumn b))
      {b | code.IsBoundary b ∧ code.LineFits b} ∧
    Set.InjOn code.lineColumn {b | code.IsBoundary b ∧ code.LineFits b} := by
  have hgrow := code.strictMonoOn_lineColumn
  refine ⟨fun index => ?_, fun before after h => ⟨?_, fun hfits => ?_⟩, hgrow,
    fun i hi j hj heq => ?_⟩
  · exact ⟨code.floor index, code.isGreatest_floor index, (code.lineColumn_floor index).symm⟩
  · rw [lineColumn_append h, lastLine_eq_rtakeWhile, Nat.add_comm 1]
  · exact line_append h ((lineFits_append h).2 hfits)
  · exact hgrow.injOn hi hj (congrArg toLex heq)

theorem lineColumn_exact_accented :
    let code : Code := ⟨['a', 'é', '\n', 'b'], UInt64.size - 2, .unknown⟩
    code.chars = ['a', 'é', '\n'] ++ ['b'] ∧
      UInt64.size - 2 + ['a', 'é', '\n'].count '\n' < UInt64.size ∧
      code.IsBoundary 1 ∧ code.LineFits 1 ∧ code.IsBoundary 4 ∧ code.LineFits 4 ∧
      code.lineColumn 4 = (UInt64.size - 1, 1) ∧
      toLex (code.lineColumn 1) < toLex (code.lineColumn 4) := by
  intro code
  have hfits : UInt64.size - 2 + ['a', 'é', '\n'].count '\n' < UInt64.size := by decide
  have hletter : code.IsBoundary 1 := ⟨['a'], ['é', '\n', 'b'], rfl, by decide⟩
  have hline : code.IsBoundary 4 := ⟨['a', 'é', '\n'], ['b'], rfl, by decide⟩
  have hletterFits : code.LineFits 1 := by unfold LineFits; decide
  have hlineFits : code.LineFits 4 := by unfold LineFits; decide
  obtain ⟨-, hcount, hgrow, -⟩ := code.lineColumn_exact
  obtain ⟨hcolumn, hnumber⟩ := hcount ['a', 'é', '\n'] ['b'] rfl
  exact ⟨rfl, hfits, hletter, hletterFits, hline, hlineFits, Prod.ext (hnumber hfits) hcolumn,
    hgrow ⟨hletter, hletterFits⟩ ⟨hline, hlineFits⟩ (by decide)⟩

/-- Behind the last line that has a number of its own comes line 0, which is no later one. -/
theorem lineColumn_wraps :
    let code : Code := ⟨['\n'], UInt64.size - 1, .unknown⟩
    code.IsBoundary 0 ∧ code.IsBoundary 1 ∧ code.chars = ['\n'] ++ [] ∧
      code.lineColumn 1 ≠ (code.firstLine + ['\n'].count '\n', 1) ∧
      ¬ toLex (code.lineColumn 0) < toLex (code.lineColumn 1) := by
  intro code
  have hstart : code.lineColumn 0 = (UInt64.size - 1, 1) := by decide
  have hend : code.lineColumn 1 = (0, 1) := by decide
  refine ⟨⟨[], ['\n'], rfl, rfl⟩, ⟨['\n'], [], rfl, by decide⟩, rfl, ?_, ?_⟩
  · rw [hend]
    decide
  · rw [hstart, hend]
    decide

end Code

end Essl
