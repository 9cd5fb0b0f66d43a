import BeaconSeal.Field.Prime
/-! The extensions of degree two, six and twelve: roots of `u²+1`, `v³-(1+u)` and `w²-v`. -/
namespace BeaconSeal
open FieldOps

structure Fp2 where
  c0 : Fp
  c1 : Fp
  deriving DecidableEq

namespace Fp2

def ofNats (a b : Nat) : Fp2 := ⟨Fp.ofNat a, Fp.ofNat b⟩
def scale (k : Fp) (a : Fp2) : Fp2 := ⟨k*a.c0, k*a.c1⟩
def conj (a : Fp2) : Fp2 := ⟨a.c0, -a.c1⟩
def norm (a : Fp2) : Fp := a.c0*a.c0 + a.c1*a.c1

def mul (a b : Fp2) : Fp2 :=
  let lo := a.c0*b.c0
  let hi := a.c1*b.c1
  ⟨lo-hi, (a.c0+a.c1)*(b.c0+b.c1) - lo - hi⟩

instance : FieldOps Fp2 where
  add a b := ⟨a.c0+b.c0, a.c1+b.c1⟩
  sub a b := ⟨a.c0-b.c0, a.c1-b.c1⟩
  neg a := ⟨-a.c0, -a.c1⟩
  mul := mul
  zero := ⟨0, 0⟩
  one := ⟨1, 0⟩
  inv a := scale (inv (norm a)) (conj a)

/-- The square root through the norm: of the two candidates for the square of the real
part exactly one is a square. -/
def sqrt? (a : Fp2) : Option Fp2 :=
  if a.c1 = 0 then
    match Fp.sqrt? a.c0 with
    | some r => some ⟨r, 0⟩
    | none => (Fp.sqrt? (-a.c0)).map (fun r => ⟨0, r⟩)
  else do
    let s ← Fp.sqrt? (norm a)
    let half := inv (double (1 : Fp))
    let x ← match Fp.sqrt? ((a.c0+s)*half) with
      | some x => some x
      | none => Fp.sqrt? ((a.c0-s)*half)
    let r : Fp2 := ⟨x, a.c1*half*inv x⟩
    if r*r = a then some r else none

def isOdd (a : Fp2) : Bool := if a.c0 = 0 then a.c1.isOdd else a.c0.isOdd

def isLarge (a : Fp2) : Bool := if a.c1 = 0 then a.c0.isLarge else a.c1.isLarge

def bytes (a : Fp2) : Bytes := a.c1.bytes ++ a.c0.bytes
def littleEndian (a : Fp2) : Bytes := a.c0.littleEndian ++ a.c1.littleEndian
def ofBytes? (b : Bytes) : Option Fp2 := do
  let c1 ← Fp.ofBytes? (b.take Fp.size)
  let c0 ← Fp.ofBytes? (b.drop Fp.size)
  some ⟨c0, c1⟩

def xi : Fp2 := ofNats 1 1

def mulXi (a : Fp2) : Fp2 := ⟨a.c0-a.c1, a.c0+a.c1⟩

end Fp2

structure Fp6 where
  c0 : Fp2
  c1 : Fp2
  c2 : Fp2
  deriving DecidableEq

namespace Fp6

def mul (a b : Fp6) : Fp6 :=
  let v0 := a.c0*b.c0
  let v1 := a.c1*b.c1
  let v2 := a.c2*b.c2
  ⟨v0 + Fp2.mulXi ((a.c1+a.c2)*(b.c1+b.c2) - v1 - v2),
    (a.c0+a.c1)*(b.c0+b.c1) - v0 - v1 + Fp2.mulXi v2,
    (a.c0+a.c2)*(b.c0+b.c2) - v0 - v2 + v1⟩

def mulV (a : Fp6) : Fp6 := ⟨Fp2.mulXi a.c2, a.c0, a.c1⟩

def littleEndian (a : Fp6) : Bytes := a.c0.littleEndian ++ a.c1.littleEndian ++ a.c2.littleEndian

def inverse (a : Fp6) : Fp6 :=
  let t0 := a.c0*a.c0 - Fp2.mulXi (a.c1*a.c2)
  let t1 := Fp2.mulXi (a.c2*a.c2) - a.c0*a.c1
  let t2 := a.c1*a.c1 - a.c0*a.c2
  let d := inv (a.c0*t0 + Fp2.mulXi (a.c2*t1 + a.c1*t2))
  ⟨t0*d, t1*d, t2*d⟩

instance : FieldOps Fp6 where
  add a b := ⟨a.c0+b.c0, a.c1+b.c1, a.c2+b.c2⟩
  sub a b := ⟨a.c0-b.c0, a.c1-b.c1, a.c2-b.c2⟩
  neg a := ⟨-a.c0, -a.c1, -a.c2⟩
  mul := mul
  zero := ⟨0, 0, 0⟩
  one := ⟨1, 0, 0⟩
  inv := inverse

end Fp6

structure Fp12 where
  c0 : Fp6
  c1 : Fp6
  deriving DecidableEq

namespace Fp12

def mul (a b : Fp12) : Fp12 :=
  let lo := a.c0*b.c0
  let hi := a.c1*b.c1
  ⟨lo + Fp6.mulV hi, (a.c0+a.c1)*(b.c0+b.c1) - lo - hi⟩

def conj (a : Fp12) : Fp12 := ⟨a.c0, -a.c1⟩

instance : FieldOps Fp12 where
  add a b := ⟨a.c0+b.c0, a.c1+b.c1⟩
  sub a b := ⟨a.c0-b.c0, a.c1-b.c1⟩
  neg a := ⟨-a.c0, -a.c1⟩
  mul := mul
  zero := ⟨0, 0⟩
  one := ⟨1, 0⟩
  inv a :=
    let d := inv (a.c0*a.c0 - Fp6.mulV (a.c1*a.c1))
    ⟨a.c0*d, -(a.c1*d)⟩

/-- The powers of `w` are multiplied by powers of this element when the `p`-th power is taken. -/
def twist : Fp2 := power Fp2.xi ((Fp.modulus-1)/6)

def frobenius (a : Fp12) : Fp12 :=
  let g2 := twist*twist
  let g4 := g2*g2
  ⟨⟨a.c0.c0.conj, a.c0.c1.conj*g2, a.c0.c2.conj*g4⟩,
    ⟨a.c1.c0.conj*twist, a.c1.c1.conj*(g2*twist), a.c1.c2.conj*(g4*twist)⟩⟩

def littleEndian (a : Fp12) : Bytes := a.c0.littleEndian ++ a.c1.littleEndian

def bytes (a : Fp12) : Bytes := a.littleEndian.reverse

end Fp12
end BeaconSeal
