import BeaconSeal.Bytes.Basic
import Mathlib.Algebra.Group.Nat.Defs
/-! Numbers in bytes and back. Main statements: what was written in `w` bytes is read back
as the number modulo `256^w`, in either order, and every string is what its number is written as. -/
namespace BeaconSeal.Bytes

theorem ofBigEndian_eq (b : Bytes) : ofBigEndian b = ofLittleEndian b.reverse := by
  simp only [ofBigEndian, ofLittleEndian, List.foldr_reverse]
  congr
  funext n x
  omega

theorem ofLittleEndian_littleEndian (w n : Nat) :
    ofLittleEndian (littleEndian w n) = n % 256^w := by
  induction w generalizing n with
  | zero => simp [littleEndian, ofLittleEndian, Nat.mod_one]
  | succ w ih =>
    have h := ih (n/256)
    simp only [ofLittleEndian] at h ⊢
    simp only [littleEndian, List.foldr_cons, h, UInt8.toNat_ofNat']
    have hm : n % (256*256^w) = n%256 + 256*(n/256 % 256^w) := Nat.mod_mul
    have hp : 256^(w+1) = 256*256^w := by rw [Nat.pow_succ, Nat.mul_comm]
    rw [hp, hm]

theorem ofBigEndian_bigEndian (w n : Nat) : ofBigEndian (bigEndian w n) = n % 256^w := by
  rw [ofBigEndian_eq, bigEndian, List.reverse_reverse, ofLittleEndian_littleEndian]

theorem littleEndian_ofLittleEndian (b : Bytes) :
    littleEndian b.length (ofLittleEndian b) = b := by
  induction b with
  | nil => rfl
  | cons x b ih =>
    have hx := x.toNat_lt
    have hnumber : ofLittleEndian (x :: b) = x.toNat + 256*ofLittleEndian b := rfl
    have hrest : (x.toNat + 256*ofLittleEndian b)/256 = ofLittleEndian b := by omega
    have hbyte : UInt8.ofNat (x.toNat + 256*ofLittleEndian b) = x := by
      apply UInt8.toNat_inj.1
      rw [UInt8.toNat_ofNat']
      omega
    rw [List.length_cons, littleEndian, hnumber, hrest, ih, hbyte]

theorem bigEndian_ofBigEndian (b : Bytes) : bigEndian b.length (ofBigEndian b) = b := by
  rw [bigEndian, ofBigEndian_eq, ← List.length_reverse, littleEndian_ofLittleEndian,
    List.reverse_reverse]

theorem ofLittleEndian_append (a b : Bytes) :
    ofLittleEndian (a ++ b) = ofLittleEndian a + 256^a.length*ofLittleEndian b := by
  induction a with
  | nil => simp [ofLittleEndian]
  | cons x a ih =>
    have hcons (c : Bytes) : ofLittleEndian (x :: c) = x.toNat + 256*ofLittleEndian c := rfl
    rw [List.cons_append, hcons, hcons, ih, List.length_cons, Nat.pow_succ']
    grind

theorem ofLittleEndian_lt (b : Bytes) : ofLittleEndian b < 256^b.length := by
  induction b with
  | nil => decide
  | cons x b ih =>
    have hx := x.toNat_lt
    have hcons : ofLittleEndian (x :: b) = x.toNat + 256*ofLittleEndian b := rfl
    rw [hcons, List.length_cons, Nat.pow_succ']
    omega

theorem ofBigEndian_cons (x : UInt8) (b : Bytes) :
    ofBigEndian (x :: b) = x.toNat*256^b.length + ofBigEndian b := by
  have hfold (n : Nat) : b.foldl (fun n x => 256*n + x.toNat) n =
      n*256^b.length + ofBigEndian b := by
    rw [ofBigEndian]
    induction b generalizing n with
    | nil => simp
    | cons y b ih =>
      rw [List.foldl_cons, List.foldl_cons, ih, ih (256*0 + y.toNat), List.length_cons,
        Nat.pow_succ]
      grind
  rw [ofBigEndian, List.foldl_cons, hfold, Nat.mul_zero, Nat.zero_add]

end BeaconSeal.Bytes
