import BeaconSeal.Field.Tower
/-! Points of a curve `y² = x³ + b`, and their multiples. Multiples are computed in
coordinates with a common denominator, with one inversion at the end. -/
namespace BeaconSeal
open FieldOps

inductive Point (F : Type) where
  | infinity
  | affine (x y : F)
  deriving DecidableEq

/-- Stands for the point `(x/z², y/z³)`, and for infinity where `z` is zero. -/
structure Jacobian (F : Type) where
  x : F
  y : F
  z : F

variable {F : Type} [FieldOps F] [DecidableEq F]

namespace Jacobian

def infinity : Jacobian F := ⟨1, 1, 0⟩

def ofPoint : Point F → Jacobian F
  | .infinity => infinity
  | .affine x y => ⟨x, y, 1⟩

def toPoint (p : Jacobian F) : Point F :=
  if p.z = 0 then .infinity
  else
    let i := inv p.z
    let i2 := square i
    .affine (p.x*i2) (p.y*(i2*i))

def twice (p : Jacobian F) : Jacobian F :=
  let a := square p.x
  let b := square p.y
  let c := square b
  let d := double (square (p.x+b) - a - c)
  let e := triple a
  let x := square e - double d
  ⟨x, e*(d-x) - double (double (double c)), double (p.y*p.z)⟩

def add (p q : Jacobian F) : Jacobian F :=
  if p.z = 0 then q
  else if q.z = 0 then p
  else
    let pz := square p.z
    let qz := square q.z
    let u := p.x*qz
    let h := q.x*pz - u
    let s := p.y*(q.z*qz)
    let r := q.y*(p.z*pz) - s
    if h = 0 then if r = 0 then twice p else infinity
    else
      let hh := square h
      let v := u*hh
      let x := square r - h*hh - double v
      ⟨x, r*(v-x) - s*(h*hh), h*(p.z*q.z)⟩

def smul (n : Nat) (p : Jacobian F) : Jacobian F :=
  (binary n).foldl (fun acc bit => if bit then add (twice acc) p else twice acc) infinity

end Jacobian

namespace Point

def add (p q : Point F) : Point F := ((Jacobian.ofPoint p).add (Jacobian.ofPoint q)).toPoint
def smul (n : Nat) (p : Point F) : Point F := ((Jacobian.ofPoint p).smul n).toPoint

def OnCurve (b : F) : Point F → Prop
  | infinity => True
  | affine x y => y*y = x*x*x + b

instance (b : F) (p : Point F) : Decidable (p.OnCurve b) := by
  cases p <;> unfold OnCurve <;> infer_instance

end Point
end BeaconSeal
