import BeaconSeal.Curve.HashTo
import BeaconSeal.Curve.Pairing
/-! The groups of the curve BLS12-381. -/
namespace BeaconSeal

def bls12381 : PairingGroups where
  Point
    | .g1 => Point Fp
    | .g2 => Point Fp2
  decEq
    | .g1 => inferInstanceAs (DecidableEq (Point Fp))
    | .g2 => inferInstanceAs (DecidableEq (Point Fp2))
  identity
    | .g1 => Point.infinity (F := Fp)
    | .g2 => Point.infinity (F := Fp2)
  generator
    | .g1 => G1.generator
    | .g2 => G2.generator
  smul {g} n :=
    match g with
    | .g1 => Point.smul (F := Fp) n.val
    | .g2 => Point.smul (F := Fp2) n.val
  compress {g} :=
    match g with
    | .g1 => Point.compress (F := Fp)
    | .g2 => Point.compress (F := Fp2)
  decompress?
    | .g1 => Point.decompress? G1.curveB
    | .g2 => Point.decompress? G2.curveB
  hash
    | .g1 => G1.hash
    | .g2 => G2.hash
  Target := Fp12
  pair := Pairing.pair
  targetBytes := Fp12.bytes

end BeaconSeal
