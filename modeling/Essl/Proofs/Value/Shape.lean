import Essl.Type.Basic
import Essl.Value.Componentwise
import Mathlib.Data.List.Forall2

/-!
# Shapes of values

A value of a type has the shape of the type: scalars are of its kind, vectors, matrices and arrays
have as many components as it says, and structs have one for each field.
-/

namespace Essl

/-! ## Values of types -/

/-- A value is a scalar of the kind. -/
def Scalar.Holds : Scalar → Value → Prop
  | .float, .float _ | .int, .int _ | .bool, .bool _ => True
  | _, _ => False

/-- A value is a composite of so many values with a property. -/
def Value.Composes (P : Value → Prop) (count : Nat) : Value → Prop
  | .composite vs => vs.length = count ∧ ∀ v ∈ vs, P v
  | _ => False

/-- A value is one of a built-in type. There are none of type `void` and no samplers. -/
def Primitive.Holds : Primitive → Value → Prop
  | .scalar element => element.Holds
  | .vector element size => Value.Composes element.Holds size.toNat
  | .matrix size => Value.Composes (Value.Composes Scalar.float.Holds size.toNat) size.toNat
  | .void | .sampler2D | .samplerCube => fun _ => False

mutual

/-- A value is one of a type. -/
def Ty.Holds : Ty → Value → Prop
  | .primitive p => p.Holds
  | .array element length => Value.Composes element.Holds length
  | .struct s => s.Holds

def StructDef.Holds : StructDef → Value → Prop
  | ⟨_, _, fields, _⟩ => fun
    | .composite vs => Field.AllHold fields vs
    | _ => False

/-- There is one value for each field, of the type of the field. -/
def Field.AllHold : List Field → List Value → Prop
  | [] => fun vs => vs = []
  | ⟨_, some type, _⟩ :: fields => fun
    | v :: vs => type.Holds v ∧ Field.AllHold fields vs
    | [] => False
  | ⟨_, none, _⟩ :: _ => fun _ => False

end

theorem Field.allHold_iff {fields : List Field} {vs : List Value} :
    Field.AllHold fields vs ↔
      List.Forall₂ (fun field v => ∃ type, field.type = some type ∧ type.Holds v) fields vs := by
  induction fields generalizing vs with
  | nil => simp [Field.AllHold]
  | cons field fields ih =>
      obtain ⟨name, type, location⟩ := field
      cases type with
      | none => simp [Field.AllHold, List.forall₂_cons_left_iff]
      | some type =>
          cases vs with
          | nil => simp [Field.AllHold]
          | cons v vs => simp [Field.AllHold, ih]

theorem StructDef.holds_iff {s : StructDef} {v : Value} :
    s.Holds v ↔ ∃ vs, v = .composite vs ∧
      List.Forall₂ (fun field v => ∃ type, field.type = some type ∧ type.Holds v) s.fields vs := by
  obtain ⟨id, name, fields, location⟩ := s
  cases v <;> simp [StructDef.Holds, Field.allHold_iff]

namespace Value

variable {P Q R : Value → Prop} {count : Nat} {v w : Value} {vs ws : List Value}

theorem composes_iff : v.Composes P count ↔
    ∃ vs, v = composite vs ∧ vs.length = count ∧ ∀ w ∈ vs, P w := by
  cases v <;> simp [Composes]

/-- A value that is no composite. -/
def IsScalar (v : Value) : Prop := v.components? = none

theorem isScalar_of_holds {element : Scalar} (h : element.Holds v) :
    v.IsScalar := by
  cases v with
  | composite vs => cases element <;> exact h.elim
  | _ => rfl

/-! ## Nested composites -/

/-- Composites in composites, of so many components at each depth, of scalars with a property. -/
def Fits (P : Value → Prop) : List Nat → Value → Prop
  | [] => P
  | count :: counts => Composes (Fits P counts) count

/-- The property is one of scalars only. -/
def OfScalars (P : Value → Prop) : Prop := ∀ v, P v → v.IsScalar

theorem ofScalars_holds (element : Scalar) : OfScalars element.Holds :=
  fun _ => isScalar_of_holds

theorem map_of_isScalar (f : Value → Option Value) (h : v.IsScalar) : v.map f = f v := by
  cases v with
  | composite vs => cases h
  | _ => rfl

theorem mapAll_spec {f : Value → Option Value} (h : mapAll f vs = some ws) :
    vs.length = ws.length ∧ ∀ w ∈ ws, ∃ v ∈ vs, v.map f = some w := by
  induction vs generalizing ws with
  | nil =>
      obtain rfl := Option.some.inj h
      simp
  | cons v vs ih =>
      rw [mapAll] at h
      split at h
      · rename_i w ws' hw hws
        obtain rfl := Option.some.inj h
        obtain ⟨hlength, hmem⟩ := ih hws
        refine ⟨by simp [hlength], ?_⟩
        intro u hu
        rcases List.mem_cons.1 hu with rfl | hu
        · exact ⟨v, List.mem_cons_self, hw⟩
        · obtain ⟨v', hv', hmap⟩ := hmem u hu
          exact ⟨v', List.mem_cons_of_mem v hv', hmap⟩
      · cases h

theorem zipAll_spec {f : Value → Value → Option Value} {as bs : List Value}
    (h : zipAll f as bs = some ws) :
    as.length = ws.length ∧ ∀ w ∈ ws, ∃ a ∈ as, ∃ b ∈ bs, a.zip f b = some w := by
  induction as generalizing bs ws with
  | nil =>
      cases bs with
      | nil =>
          obtain rfl := Option.some.inj h
          simp
      | cons b bs => cases h
  | cons a as ih =>
      cases bs with
      | nil => cases h
      | cons b bs =>
          rw [zipAll] at h
          split at h
          · rename_i w ws' hw hws
            obtain rfl := Option.some.inj h
            obtain ⟨hlength, hmem⟩ := ih hws
            refine ⟨by simp [hlength], ?_⟩
            intro u hu
            rcases List.mem_cons.1 hu with rfl | hu
            · exact ⟨a, List.mem_cons_self, b, List.mem_cons_self, hw⟩
            · obtain ⟨a', ha', b', hb', hzip⟩ := hmem u hu
              exact ⟨a', List.mem_cons_of_mem a ha', b', List.mem_cons_of_mem b hb', hzip⟩
          · cases h

theorem zipAll3_spec {f : Value → Value → Value → Option Value} {as bs cs : List Value}
    (h : zipAll3 f as bs cs = some ws) :
    as.length = ws.length ∧
      ∀ w ∈ ws, ∃ a ∈ as, ∃ b ∈ bs, ∃ c ∈ cs, a.zip3 f b c = some w := by
  induction as generalizing bs cs ws with
  | nil =>
      cases bs <;> cases cs <;> cases h
      simp
  | cons a as ih =>
      cases bs with
      | nil => cases h
      | cons b bs =>
          cases cs with
          | nil => cases h
          | cons c cs =>
              rw [zipAll3] at h
              split at h
              · rename_i w ws' hw hws
                obtain rfl := Option.some.inj h
                obtain ⟨hlength, hmem⟩ := ih hws
                refine ⟨by simp [hlength], ?_⟩
                intro u hu
                rcases List.mem_cons.1 hu with rfl | hu
                · exact ⟨a, List.mem_cons_self, b, List.mem_cons_self, c, List.mem_cons_self, hw⟩
                · obtain ⟨a', ha', b', hb', c', hc', hzip⟩ := hmem u hu
                  exact ⟨a', List.mem_cons_of_mem a ha', b', List.mem_cons_of_mem b hb', c',
                    List.mem_cons_of_mem c hc', hzip⟩
              · cases h

/-! ## Componentwise functions -/

/-- A function takes scalars with a property to scalars with another one. -/
def Sends (f : Value → Option Value) (P Q : Value → Prop) : Prop :=
  ∀ v w, P v → f v = some w → Q w

theorem Fits.map {f : Value → Option Value} {counts : List Nat} (hP : OfScalars P)
    (hf : Sends f P Q) (hv : v.Fits P counts) (h : v.map f = some w) : w.Fits Q counts := by
  induction counts generalizing v w with
  | nil =>
      rw [map_of_isScalar f (hP v hv)] at h
      exact hf v w hv h
  | cons count counts ih =>
      obtain ⟨vs, rfl, hlength, hmem⟩ := composes_iff.1 hv
      obtain ⟨ws, hws, rfl⟩ := Option.map_eq_some_iff.1 h
      obtain ⟨hsame, hmap⟩ := mapAll_spec hws
      refine ⟨by omega, ?_⟩
      intro u hu
      obtain ⟨v, hv, hvu⟩ := hmap u hu
      exact ih (hmem v hv) hvu

theorem zip_scalar_right (f : Value → Value → Option Value) {b : Value} (a : Value)
    (hb : b.IsScalar) : a.zip f b = a.map (f · b) := by
  cases b with
  | composite bs => cases hb
  | _ => cases a <;> rfl

theorem zip_scalar_left (f : Value → Value → Option Value) {a : Value} (b : Value)
    (ha : a.IsScalar) : a.zip f b = b.map (f a) := by
  cases a with
  | composite as => cases ha
  | _ => cases b <;> rfl

theorem zip3_scalar_right (f : Value → Value → Value → Option Value) {c : Value} (a b : Value)
    (hc : c.IsScalar) : a.zip3 f b c = a.zip (f · · c) b := by
  cases c with
  | composite cs => cases hc
  | _ => cases a <;> cases b <;> rfl

theorem zip3_scalar_left (f : Value → Value → Value → Option Value) {a : Value} (b c : Value)
    (ha : a.IsScalar) : a.zip3 f b c = b.zip (f a) c := by
  cases a with
  | composite as => cases ha
  | _ => cases b <;> cases c <;> rfl

theorem Fits.zip {f : Value → Value → Option Value} {counts : List Nat} {a b : Value}
    (hP : OfScalars P) (hQ : OfScalars Q) (hf : ∀ x, P x → Sends (f x) Q R)
    (ha : a.Fits P counts) (hb : b.Fits Q counts) (h : a.zip f b = some w) : w.Fits R counts := by
  induction counts generalizing a b w with
  | nil =>
      rw [zip_scalar_left f b (hP a ha), map_of_isScalar _ (hQ b hb)] at h
      exact hf a ha b w hb h
  | cons count counts ih =>
      obtain ⟨as, rfl, hlength, has⟩ := composes_iff.1 ha
      obtain ⟨bs, rfl, -, hbs⟩ := composes_iff.1 hb
      obtain ⟨ws, hws, rfl⟩ := Option.map_eq_some_iff.1 h
      obtain ⟨hsame, hzip⟩ := zipAll_spec hws
      refine ⟨by omega, ?_⟩
      intro u hu
      obtain ⟨a, ha, b, hb, hab⟩ := hzip u hu
      exact ih (has a ha) (hbs b hb) hab

theorem Fits.zip3 {f : Value → Value → Value → Option Value} {S : Value → Prop}
    {counts : List Nat} {a b c : Value} (hP : OfScalars P) (hQ : OfScalars Q) (hR : OfScalars R)
    (hf : ∀ x y, P x → Q y → Sends (f x y) R S) (ha : a.Fits P counts) (hb : b.Fits Q counts)
    (hc : c.Fits R counts) (h : a.zip3 f b c = some w) : w.Fits S counts := by
  induction counts generalizing a b c w with
  | nil =>
      rw [zip3_scalar_left f b c (hP a ha), zip_scalar_left _ c (hQ b hb),
        map_of_isScalar _ (hR c hc)] at h
      exact hf a b ha hb c w hc h
  | cons count counts ih =>
      obtain ⟨as, rfl, hlength, has⟩ := composes_iff.1 ha
      obtain ⟨bs, rfl, -, hbs⟩ := composes_iff.1 hb
      obtain ⟨cs, rfl, -, hcs⟩ := composes_iff.1 hc
      obtain ⟨ws, hws, rfl⟩ := Option.map_eq_some_iff.1 h
      obtain ⟨hsame, hzip⟩ := zipAll3_spec hws
      refine ⟨by omega, ?_⟩
      intro u hu
      obtain ⟨a, ha, b, hb, c, hc, habc⟩ := hzip u hu
      exact ih (has a ha) (hbs b hb) (hcs c hc) habc

end Value

end Essl
