import Essl.Proofs.Directive.Effect
import Mathlib.Data.List.Induction

/-!
# Which groups of a section count

The history of an open section says what began each of its groups and whether the group counted.
The flags that an open section keeps are enough to go on with its history: of the groups of a
section, at most the first one that can counts.
-/

namespace Essl

/-- What begins a group: a condition, with its value if it is evaluated, or `#else`. -/
inductive GroupHead where
  | condition (value : Option Bool)
  | otherwise
  deriving DecidableEq

/-- A group of a section, and whether it counts. -/
structure Group where
  head : GroupHead
  active : Bool
  deriving DecidableEq

/-- What became of a section up to some point. -/
structure History where
  /-- Every section around it counted when it was opened. -/
  live : Bool
  groups : List Group
  deriving DecidableEq

namespace Group

/-- The condition of the group is evaluated. -/
def isEvaluated (g : Group) : Bool :=
  match g.head with
  | .condition value => value.isSome
  | .otherwise => false

/-- The condition of the group is evaluated, and true. -/
def isTrue (g : Group) : Bool := g.head == .condition (some true)

def isElse (g : Group) : Bool := g.head == .otherwise

/-- How the next group turns out in a section, after some others: unless one of those counted, its
condition is evaluated, and it counts if that is true. -/
structure Follows (live : Bool) (before : List Group) (g : Group) : Prop where
  active : g.active = (live && !before.any Group.active && (g.isTrue || g.isElse))
  evaluated : g.isEvaluated = (live && !before.any Group.active && !g.isElse)

/-- Every group follows those before it. -/
def Regular (live : Bool) (groups : List Group) : Prop :=
  ∀ before g after, groups = before ++ g :: after → g.Follows live before

variable {live : Bool} {groups before after : List Group} {g u : Group}

theorem isEvaluated_of_isTrue (h : g.isTrue = true) : g.isEvaluated = true := by
  rw [isTrue, beq_iff_eq] at h
  simp [isEvaluated, h]

theorem not_isTrue_of_isElse (h : g.isElse = true) : g.isTrue = false := by
  rw [isElse, beq_iff_eq] at h
  simp [isTrue, h]

theorem any_active_eq_false : before.any active = false ↔ ∀ u ∈ before, u.active = false := by
  simp

namespace Regular

theorem nil : Regular live [] := by simp [Regular]

theorem concat (h : Regular live groups) (hg : g.Follows live groups) :
    Regular live (groups ++ [g]) := by
  intro before u after heq
  rcases List.eq_nil_or_concat after with rfl | ⟨after, v, rfl⟩
  · obtain ⟨rfl, hgu⟩ := List.append_inj' heq rfl
    obtain rfl := List.singleton_inj.1 hgu
    exact hg
  · have heq' : groups ++ [g] = (before ++ u :: after) ++ [v] := by simpa using heq
    exact h before u after (List.append_inj' heq' rfl).1

/-- No group of a section counts, and no condition of it is evaluated, unless those around it
counted when it was opened. -/
theorem not_active (h : Regular false groups) (hg : g ∈ groups) :
    g.active = false ∧ g.isEvaluated = false := by
  obtain ⟨before, after, rfl⟩ := List.append_of_mem hg
  have hfollows := h before g after rfl
  exact ⟨by simpa using hfollows.active, by simpa using hfollows.evaluated⟩

variable (h : Regular true (before ++ g :: after))

include h

theorem active_iff : g.active = true ↔
    (∀ u ∈ before, u.active = false) ∧ (g.isTrue = true ∨ g.isElse = true) := by
  rw [(h before g after rfl).active, ← any_active_eq_false]
  simp

theorem isEvaluated_iff : g.isEvaluated = true ↔
    (∀ u ∈ before, u.active = false) ∧ g.isElse = false := by
  rw [(h before g after rfl).evaluated, ← any_active_eq_false]
  simp

/-- As long as no group has counted, none could. -/
theorem of_none_active (hnone : ∀ u ∈ before, u.active = false) (hu : u ∈ before) :
    u.isTrue = false ∧ u.isElse = false := by
  obtain ⟨first, second, rfl⟩ := List.append_of_mem hu
  have hactive := @active_iff first (second ++ g :: after) u (by simpa using h)
  have hfirst : ∀ v ∈ first, v.active = false :=
    fun v hv => hnone v (List.mem_append_left _ hv)
  have hnot : ¬(u.isTrue = true ∨ u.isElse = true) := fun hwants => by
    have := hactive.2 ⟨hfirst, hwants⟩
    simp [hnone u hu] at this
  simpa using hnot

/-- Once a group has counted, no later condition is true. -/
theorem not_isTrue_after (hactive : g.active = true) (hu : u ∈ after) : u.isTrue = false := by
  obtain ⟨first, second, rfl⟩ := List.append_of_mem hu
  have hevaluated := @isEvaluated_iff (before ++ g :: first) second u (by simpa using h)
  by_contra htrue
  have hnone := (hevaluated.1 (isEvaluated_of_isTrue (by simpa using htrue))).1 g (by simp)
  simp [hactive] at hnone

/-- The group that counts is the first one of which the condition is true or, if there is none,
the first one after `#else`. -/
theorem active_iff_first : g.active = true ↔
    (g.isTrue = true ∧ ∀ u ∈ before, u.isTrue = false) ∨
      (g.isElse = true ∧ (∀ u ∈ before, u.isElse = false) ∧
        ∀ u ∈ before ++ g :: after, u.isTrue = false) := by
  constructor
  · intro hactive
    obtain ⟨hnone, hwants⟩ := h.active_iff.1 hactive
    have hbefore : ∀ u ∈ before, u.isTrue = false ∧ u.isElse = false :=
      fun u hu => h.of_none_active hnone hu
    rcases hwants with htrue | helse
    · exact .inl ⟨htrue, fun u hu => (hbefore u hu).1⟩
    · -- No condition was true before `#else`, and none after it is evaluated any more.
      refine .inr ⟨helse, fun u hu => (hbefore u hu).2, fun u hu => ?_⟩
      rcases List.mem_append.1 hu with hu | hu
      · exact (hbefore u hu).1
      · rcases List.mem_cons.1 hu with rfl | hu
        · exact not_isTrue_of_isElse helse
        · exact h.not_isTrue_after hactive hu
  · rintro (⟨htrue, -⟩ | ⟨helse, hfirst, hnone⟩)
    · have hevaluated := h.isEvaluated_iff.1 (isEvaluated_of_isTrue htrue)
      exact h.active_iff.2 ⟨hevaluated.1, .inl htrue⟩
    · refine h.active_iff.2 ⟨fun u hu => ?_, .inr helse⟩
      obtain ⟨first, second, rfl⟩ := List.append_of_mem hu
      have hactive := @active_iff first (second ++ g :: after) u (by simpa using h)
      by_contra hcounts
      rcases (hactive.1 (by simpa using hcounts)).2 with htrue | helse'
      · simp [hnone u (by simp)] at htrue
      · simp [hfirst u hu] at helse'

end Regular

end Group

/-! ## Histories -/

namespace History

/-- The section goes on with another group. -/
def add (h : History) (g : Group) : History := { h with groups := h.groups ++ [g] }

/-- The present group counts. -/
def active (h : History) : Bool := (h.groups.getLast?.map Group.active).getD false

/-- How the histories of the open sections, innermost first, go on when a directive is carried
out. -/
def follow (env : Environment) (hash : Token) (line : List Token) (histories : List History) :
    List History :=
  match line with
  | [] => histories
  | name :: rest =>
    let condition : GroupHead := .condition (env.value? name rest)
    let active := (env.directive hash line).isActive
    match Directive.ofName name.text with
    | .when | .whenDefined _ =>
      ⟨env.sections.all Section.active, [⟨condition, active⟩]⟩ :: histories
    | .elif =>
      match histories with
      | [] => []
      | top :: outer => top.add ⟨condition, active⟩ :: outer
    | .otherwise =>
      match histories with
      | [] => []
      | top :: outer => top.add ⟨.otherwise, active⟩ :: outer
    | .endif => histories.tail
    | _ => histories

@[simp] theorem active_add (h : History) (g : Group) : (h.add g).active = g.active := by
  simp [active, add]

end History

/-- The flags of an open section say what its history says. -/
structure Section.Mirrors (s : Section) (h : History) : Prop where
  regular : Group.Regular h.live h.groups
  active : s.active = h.active
  taken : s.taken = (!h.live || h.groups.any Group.active)
  seenElse : s.seenElse = true → s.taken = true

/-- The flags of all open sections say what their histories say. -/
inductive Mirrored : List Section → List History → Prop where
  | nil : Mirrored [] []
  | cons {s : Section} {h : History} {outer : List Section} {histories : List History} :
      Mirrored outer histories → h.live = outer.all Section.active → s.Mirrors h →
      Mirrored (s :: outer) (h :: histories)

namespace Section.Mirrors

variable {s : Section} {h : History} {g : Group}

theorem add (hs : s.Mirrors h) (hg : g.Follows h.live h.groups) {s' : Section}
    (hactive : s'.active = g.active) (htaken : s'.taken = (s.taken || g.active))
    (helse : s'.seenElse = true → s'.taken = true) : s'.Mirrors (h.add g) where
  regular := hs.regular.concat hg
  active := by rw [History.active_add, hactive]
  taken := by
    rw [htaken, hs.taken]
    simp [History.add, Bool.or_assoc]
  seenElse := helse

/-- A section counts only if those around it do. -/
theorem live_of_active (hs : s.Mirrors h) (hactive : s.active = true) : h.live = true := by
  by_contra hlive
  have hregular := hs.regular
  rw [Bool.eq_false_iff.2 hlive] at hregular
  rw [hs.active, History.active] at hactive
  cases hlast : h.groups.getLast? with
  | none => simp [hlast] at hactive
  | some g =>
      have hg := (hregular.not_active (List.mem_of_getLast? hlast)).1
      simp [hlast, hg] at hactive

end Section.Mirrors

namespace Mirrored

variable {env : Environment} {histories : List History}

/-- Looking at the innermost section is enough. -/
theorem isActive (h : Mirrored env.sections histories) :
    env.isActive = env.sections.all Section.active := by
  unfold Environment.isActive
  generalize env.sections = sections at h
  cases h with
  | nil => rfl
  | cons houter hlive hs =>
      rename_i s _ outer _
      have houter : s.active = true → outer.all Section.active = true :=
        fun hactive => hlive ▸ hs.live_of_active hactive
      cases hactive : s.active with
      | false => simp [hactive]
      | true => simp [hactive, houter hactive]

theorem map_active {sections : List Section} (h : Mirrored sections histories) :
    sections.map Section.active = histories.map History.active := by
  induction h with
  | nil => rfl
  | cons _ _ hs ih => rw [List.map_cons, List.map_cons, hs.active, ih]

theorem regular {sections : List Section} (h : Mirrored sections histories) {recent : History}
    (hrecent : recent ∈ histories) : Group.Regular recent.live recent.groups := by
  induction h with
  | nil => cases hrecent
  | cons _ _ hs ih =>
      rcases List.mem_cons.1 hrecent with rfl | hrecent
      · exact hs.regular
      · exact ih hrecent

variable (h : Mirrored env.sections histories) (hash name : Token) (line : List Token)

include h

/-- A section is opened. -/
theorem opened {env' : Environment} {value : Option Bool} {location : Location}
    (hvalue : value.isSome = env.isActive)
    (hsections : env'.sections =
      ⟨value.getD false, value.getD false || !env.isActive, false, location⟩ :: env.sections) :
    Mirrored env'.sections
      (⟨env.sections.all Section.active, [⟨.condition value, env'.isActive⟩]⟩ :: histories) := by
  have hactive : env'.isActive = value.getD false := by simp [Environment.isActive, hsections]
  rw [hactive, hsections]
  refine .cons h rfl ?_
  rw [← h.isActive, ← hvalue]
  refine ⟨Group.Regular.nil.concat ⟨?_, ?_⟩, rfl, ?_, nofun⟩
  · cases value with
    | none => rfl
    | some value => cases value <;> rfl
  · cases value <;> rfl
  · cases value <;> simp

theorem eq_nil (hsections : env.sections = []) : histories = [] := by
  rw [hsections] at h
  cases h
  rfl

theorem exists_cons {top : Section} {outer : List Section}
    (hsections : env.sections = top :: outer) :
    ∃ recent older, histories = recent :: older := by
  rw [hsections] at h
  cases h
  exact ⟨_, _, rfl⟩

theorem taken_of_seenElse {top : Section} {outer : List Section}
    (hsections : env.sections = top :: outer) : top.seenElse = true → top.taken = true := by
  rw [hsections] at h
  cases h with
  | cons _ _ htop => exact htop.seenElse

omit h

/-- The innermost section goes on with another group. -/
theorem continued {top s : Section} {outer : List Section} {recent : History}
    {older : List History} {env' : Environment} (h : Mirrored env.sections (recent :: older))
    (hsections : env.sections = top :: outer) (hsections' : env'.sections = s :: outer)
    (head : GroupHead)
    (hactive : s.active = (!top.taken && (Group.isTrue ⟨head, s.active⟩ ||
      Group.isElse ⟨head, s.active⟩)))
    (hevaluated : Group.isEvaluated ⟨head, s.active⟩ =
      (!top.taken && !Group.isElse ⟨head, s.active⟩))
    (htaken : s.taken = (top.taken || s.active)) (helse : s.seenElse = true → s.taken = true) :
    Mirrored env'.sections (recent.add ⟨head, env'.isActive⟩ :: older) := by
  have hisActive : env'.isActive = s.active := by simp [Environment.isActive, hsections']
  rw [hisActive, hsections']
  rw [hsections] at h
  cases h with
  | cons houter hlive htop =>
      have hopen : (!top.taken) = (recent.live && !recent.groups.any Group.active) := by
        rw [htop.taken, Bool.not_or, Bool.not_not]
      rw [hopen] at hactive hevaluated
      exact .cons houter hlive (htop.add ⟨hactive, hevaluated⟩ rfl htaken helse)

include h

theorem elif (hname : Directive.ofName name.text = .elif) :
    Mirrored (env.directive hash (name :: line)).sections
      (History.follow env hash (name :: line) histories) := by
  simp only [History.follow, hname]
  cases hsections : env.sections with
  | nil =>
      obtain rfl := h.eq_nil hsections
      simpa [Environment.directive, Environment.elif, hname, hsections] using Mirrored.nil
  | cons top outer =>
      have hvalue := Environment.value?_elif line hname hsections
      have hsections' := Environment.sections_directive_elif hash line hname hsections
      have helse : top.seenElse = true →
          (top.taken || (env.value? name line).getD false) = true := by
        intro helse
        rw [h.taken_of_seenElse hsections helse, Bool.true_or]
      obtain ⟨recent, older, rfl⟩ := h.exists_cons hsections
      apply h.continued hsections hsections' (.condition (env.value? name line))
      · rw [hvalue]
        cases top.taken <;> cases (env.condition name line).1 <;> rfl
      · rw [hvalue]
        cases top.taken <;> rfl
      · rfl
      · exact helse

theorem otherwise (hname : Directive.ofName name.text = .otherwise) :
    Mirrored (env.directive hash (name :: line)).sections
      (History.follow env hash (name :: line) histories) := by
  simp only [History.follow, hname]
  cases hsections : env.sections with
  | nil =>
      obtain rfl := h.eq_nil hsections
      simpa [Environment.directive, Environment.otherwise, hname, hsections] using Mirrored.nil
  | cons top outer =>
      have hsections' := Environment.sections_directive_otherwise hash line hname hsections
      have htaken := h.taken_of_seenElse hsections
      -- A second `#else` finds the section taken, so it turns out like any group after a taken one.
      have hactive : (!top.taken && !top.seenElse) = !top.taken := by
        cases helse : top.seenElse with
        | false => simp
        | true => simp [htaken helse]
      have hfinal : (top.taken || !top.seenElse) = true := by
        cases helse : top.seenElse with
        | false => simp
        | true => simp [htaken helse]
      obtain ⟨recent, older, rfl⟩ := h.exists_cons hsections
      apply h.continued hsections hsections' .otherwise
      · rw [hactive]
        cases top.taken <;> rfl
      · cases top.taken <;> rfl
      · rw [hactive, hfinal]
        cases top.taken <;> rfl
      · exact fun _ => hfinal

/-- What any directive does to the flags is what it means for the histories. -/
theorem directive :
    Mirrored (env.directive hash line).sections (History.follow env hash line histories) := by
  cases line with
  | nil => exact h
  | cons name line =>
      cases hname : Directive.ofName name.text with
      | when | whenDefined =>
          have hopens : (Directive.ofName name.text).Opens := by
            rw [hname]
            trivial
          simp only [History.follow, hname]
          exact h.opened (Environment.isSome_value?_of_opens line hopens)
            (Environment.sections_directive_opens hash line hopens)
      | elif => exact h.elif hash name line hname
      | otherwise => exact h.otherwise hash name line hname
      | endif =>
          simp only [History.follow, Environment.directive, Environment.endif, hname]
          generalize hsections : env.sections = sections at h
          cases h with
          | nil => simpa [hsections] using Mirrored.nil
          | cons houter => exact houter
      | define | undef | error | ignored | unknown =>
          have hsections : (env.directive hash (name :: line)).sections = env.sections := by
            simp only [Environment.directive, hname]
            split
            · first
              | exact env.sections_define name line
              | exact env.sections_undef name line
              | rfl
            · rfl
          rw [hsections]
          simpa only [History.follow, hname] using h

end Mirrored

end Essl
