import BeaconSeal.Curve.Group
/-! The pairing of the two source groups into the field of degree twelve. -/
namespace BeaconSeal.Pairing
open FieldOps

/-- The line of the given slope through `(x, y)` on the twist, evaluated at a point of the
first curve. It is scaled by a cube root's power that the last exponentiation removes. -/
def line (slope x y : Fp2) (px py : Fp) : Fp12 :=
  ⟨⟨slope*x - y, Fp2.scale (-px) slope, 0⟩, ⟨0, ⟨py, 0⟩, 0⟩⟩

def chord (slope x1 y1 x2 : Fp2) : Fp2 × Fp2 :=
  let x := square slope - x1 - x2
  (x, slope*(x1-x) - y1)

structure Walk where
  value : Fp12
  x : Fp2
  y : Fp2

def tangentStep (px py : Fp) (s : Walk) : Walk :=
  let slope := triple (square s.x)*inv (double s.y)
  let t := chord slope s.x s.y s.x
  ⟨square s.value*line slope s.x s.y px py, t.1, t.2⟩

def chordStep (px py : Fp) (qx qy : Fp2) (s : Walk) : Walk :=
  let slope := (s.y-qy)*inv (s.x-qx)
  let t := chord slope s.x s.y qx
  ⟨s.value*line slope qx qy px py, t.1, t.2⟩

/-- The product of the lines met while the point is multiplied by the curve parameter;
the parameter is negative, hence the conjugate. -/
def miller (px py : Fp) (qx qy : Fp2) : Fp12 :=
  let s := (binary curveParameter).tail.foldl (fun s bit =>
    let s := tangentStep px py s
    if bit then chordStep px py qx qy s else s) ⟨1, qx, qy⟩
  s.value.conj

def powerX (a : Fp12) : Fp12 := (power a curveParameter).conj

def normalize (f : Fp12) : Fp12 :=
  let g := f.conj*inv f
  let m := g.frobenius.frobenius*g
  let a := powerX m*m.conj
  let b := powerX a*a.conj
  let c := powerX b*b.frobenius
  let d := powerX (powerX c)*c.frobenius.frobenius*c.conj
  d*(square m*m)

def pair : Point Fp → Point Fp2 → Fp12
  | .affine px py, .affine qx qy => normalize (miller px py qx qy)
  | _, _ => 1

end BeaconSeal.Pairing
