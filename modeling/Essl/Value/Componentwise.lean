import Essl.Value

/-!
# Componentwise operations

Functions on scalars, applied to all scalars of composites. Where composites meet they have the
same shape; a scalar meets every scalar of a composite.
-/

namespace Essl.Value

mutual

/-- Applies a function to every scalar. -/
def map (f : Value → Option Value) : Value → Option Value
  | composite vs => (mapAll f vs).map composite
  | scalar => f scalar

def mapAll (f : Value → Option Value) : List Value → Option (List Value)
  | [] => some []
  | v :: vs =>
    match v.map f, mapAll f vs with
    | some w, some ws => some (w :: ws)
    | _, _ => none

end

mutual

/-- Applies a function to every pair of corresponding scalars. -/
def zip (f : Value → Value → Option Value) : Value → Value → Option Value
  | composite as, composite bs => (zipAll f as bs).map composite
  | composite as, b => (mapAll (f · b) as).map composite
  | a, composite bs => (mapAll (f a) bs).map composite
  | a, b => f a b

def zipAll (f : Value → Value → Option Value) : List Value → List Value → Option (List Value)
  | [], [] => some []
  | a :: as, b :: bs =>
    match a.zip f b, zipAll f as bs with
    | some w, some ws => some (w :: ws)
    | _, _ => none
  | _, _ => none

end

mutual

/-- Applies a function to every triple of corresponding scalars. -/
def zip3 (f : Value → Value → Value → Option Value) : Value → Value → Value → Option Value
  | composite as, composite bs, composite cs => (zipAll3 f as bs cs).map composite
  | composite as, composite bs, c => (zipAll (f · · c) as bs).map composite
  | composite as, b, composite cs => (zipAll (f · b ·) as cs).map composite
  | a, composite bs, composite cs => (zipAll (f a) bs cs).map composite
  | composite as, b, c => (mapAll (f · b c) as).map composite
  | a, composite bs, c => (mapAll (f a · c) bs).map composite
  | a, b, composite cs => (mapAll (f a b) cs).map composite
  | a, b, c => f a b c

def zipAll3 (f : Value → Value → Value → Option Value) :
    List Value → List Value → List Value → Option (List Value)
  | [], [], [] => some []
  | a :: as, b :: bs, c :: cs =>
    match a.zip3 f b c, zipAll3 f as bs cs with
    | some w, some ws => some (w :: ws)
    | _, _ => none
  | _, _, _ => none

end

/-! ## Functions on floats -/

/-- Applies a function to every scalar as a float. -/
def mapFloat (f : Float32 → Float32) (v : Value) : Option Value :=
  v.map fun x => x.toFloat?.map fun x => float (f x)

/-- Applies a function to every pair of corresponding scalars as floats. -/
def zipFloat (f : Float32 → Float32 → Float32) (a b : Value) : Option Value :=
  a.zip (fun x y => do return float (f (← x.toFloat?) (← y.toFloat?))) b

/-- Applies a function to every triple of corresponding scalars as floats. -/
def zipFloat3 (f : Float32 → Float32 → Float32 → Float32) (a b c : Value) : Option Value :=
  a.zip3 (fun x y z => do return float (f (← x.toFloat?) (← y.toFloat?) (← z.toFloat?))) b c

end Essl.Value
