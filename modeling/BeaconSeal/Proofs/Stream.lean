import BeaconSeal.Proofs.Bytes
import BeaconSeal.Proofs.Rows
import BeaconSeal.Proofs.Success
import BeaconSeal.Stream
import Mathlib.GroupTheory.GroupAction.Ring
/-! Decryption undoes encryption, and nothing else is decrypted: of a key stream, of one piece
with its tag, and of a payload in pieces, of any length. Main statement: of all byte strings just
one is decrypted to a payload, the one that encryption makes of it. -/
namespace BeaconSeal

namespace ChaCha20
variable (key : SizedBytes 32) (nonce : SizedBytes 12)

def applyFrom (i : Nat) (b : Bytes) : Bytes :=
  ((Cut.rows 64 b).zipIdx i).flatMap (fun row => Bytes.xor row.1 (block key nonce row.2))

theorem applyFrom_of_lt {i : Nat} {b : Bytes} (h : b.length < 64) :
    applyFrom key nonce i b = Bytes.xor b (block key nonce i) := by
  simp [applyFrom, Cut.rows_of_lt h]

theorem applyFrom_append {i : Nat} {row : Bytes} (h : row.length = 64) (b : Bytes) :
    applyFrom key nonce i (row ++ b) =
      Bytes.xor row (block key nonce i) ++ applyFrom key nonce (i+1) b := by
  simp [applyFrom, Cut.rows_append (by decide : 0 < 64) h]

theorem length_xor_block {i : Nat} {b : Bytes} (h : b.length ≤ 64) :
    (Bytes.xor b (block key nonce i)).length = b.length := by
  rw [Bytes.length_xor, length_block, Nat.min_eq_left h]

theorem length_applyFrom (i : Nat) (b : Bytes) : (applyFrom key nonce i b).length = b.length := by
  induction b using Cut.rows_induction (by decide : 0 < 64) generalizing i with
  | short b h => rw [applyFrom_of_lt key nonce h, length_xor_block key nonce (by omega)]
  | full row b h ih =>
    rw [applyFrom_append key nonce h, List.length_append, List.length_append, ih,
      length_xor_block key nonce (by omega)]

theorem applyFrom_applyFrom (i : Nat) (b : Bytes) :
    applyFrom key nonce i (applyFrom key nonce i b) = b := by
  induction b using Cut.rows_induction (by decide : 0 < 64) generalizing i with
  | short b h =>
    have hlen := length_xor_block key nonce (i := i) (by omega : b.length ≤ 64)
    rw [applyFrom_of_lt key nonce h, applyFrom_of_lt key nonce (by omega)]
    exact Bytes.xor_xor_cancel (by rw [length_block]; omega)
  | full row b h ih =>
    have hlen := length_xor_block key nonce (i := i) (by omega : row.length ≤ 64)
    rw [applyFrom_append key nonce h, applyFrom_append key nonce (by omega), ih]
    rw [Bytes.xor_xor_cancel (by rw [length_block]; omega)]

theorem length_apply (b : Bytes) : (apply key nonce b).length = b.length :=
  length_applyFrom key nonce 1 b

/-- The key stream undoes itself. -/
theorem apply_apply (b : Bytes) : apply key nonce (apply key nonce b) = b :=
  applyFrom_applyFrom key nonce 1 b

end ChaCha20

namespace Authenticated
variable (key : SizedBytes 32) (nonce : SizedBytes 12)

theorem length_encrypt (b : Bytes) : (encrypt key nonce b).length = b.length + tagSize := by
  simp [encrypt, tag, tagSize, ChaCha20.length_apply]

theorem decrypt?_encrypt (b : Bytes) : decrypt? key nonce (encrypt key nonce b) = some b := by
  have hlen := length_encrypt key nonce b
  have hsplit : (encrypt key nonce b).length - tagSize = (ChaCha20.apply key nonce b).length := by
    rw [hlen, ChaCha20.length_apply, Nat.add_sub_cancel]
  rw [decrypt?, if_neg (by omega), hsplit]
  simp [encrypt, ChaCha20.apply_apply]

theorem decrypt?_eq_some_iff {c b : Bytes} :
    decrypt? key nonce c = some b ↔ encrypt key nonce b = c := by
  constructor
  · intro h
    unfold decrypt? at h
    dsimp only at h
    split at h
    · cases h
    split at h
    next htag =>
      obtain rfl := Option.some.inj h
      dsimp only [encrypt]
      rw [ChaCha20.apply_apply, ← htag, List.take_append_drop]
    · cases h
  · rintro rfl
    exact decrypt?_encrypt key nonce b

end Authenticated

namespace Stream
variable (key : SizedBytes 32)

theorem encryptFrom_cons {i : Nat} {b : Bytes} {bs : List Bytes} (h : bs ≠ []) :
    encryptFrom key i (b :: bs) =
      Authenticated.encrypt key (nonce i false) b ++ encryptFrom key (i+1) bs := by
  cases bs with
  | nil => contradiction
  | cons c bs => rfl

theorem decryptFrom_cons {i : Nat} {b : Bytes} {bs : List Bytes} (h : bs ≠ []) :
    decryptFrom key i (b :: bs) = (do
      let p ← decryptPiece key i false b
      let ps ← decryptFrom key (i+1) bs
      .ok (p ++ ps)) := by
  cases bs with
  | nil => contradiction
  | cons c bs => rfl

/-- Only as the first piece does the last one hold no data. -/
theorem decryptPiece_eq_ok_iff {i : Nat} {last : Bool} {b p : Bytes} :
    decryptPiece key i last b = .ok p ↔
      ¬ (last ∧ p = [] ∧ 0 < i) ∧ Authenticated.encrypt key (nonce i last) p = b := by
  rw [← Authenticated.decrypt?_eq_some_iff]
  unfold decryptPiece
  by_cases hshort : b.length < Authenticated.tagSize
  · simp [hshort, Authenticated.decrypt?]
  cases hp : Authenticated.decrypt? key (nonce i last) b with
  | none =>
    rw [if_neg hshort]
    split <;> simp
  | some q =>
    have hb := (Authenticated.decrypt?_eq_some_iff key (nonce i last)).1 hp
    have hlen := Authenticated.length_encrypt key (nonce i last) q
    have hempty : (last ∧ b.length = Authenticated.tagSize ∧ 0 < i) ↔
        (last ∧ q = [] ∧ 0 < i) := by
      rw [← hb, hlen, ← List.length_eq_zero_iff, Nat.add_eq_right]
    rw [if_neg hshort]
    by_cases hl : last ∧ q = [] ∧ 0 < i
    · rw [if_pos (hempty.2 hl)]
      simp only [reduceCtorEq, Option.some.injEq, false_iff]
      rintro ⟨hne, rfl⟩
      exact hne hl
    · rw [if_neg (fun h => hl (hempty.1 h))]
      simp only [Except.ok.injEq, Option.some.injEq]
      constructor
      · rintro rfl
        exact ⟨hl, rfl⟩
      · exact fun h => h.2

/-- Each piece takes a tag more. -/
theorem length_encryptFrom (i : Nat) (bs : List Bytes) :
    (encryptFrom key i bs).length = bs.flatten.length + Authenticated.tagSize * bs.length := by
  induction i, bs using encryptFrom.induct with
  | case1 i => rfl
  | case2 i b => simp [encryptFrom, Authenticated.length_encrypt]
  | case3 i b bs hne ih =>
    have htags : Authenticated.tagSize * (b :: bs).length =
      Authenticated.tagSize * bs.length + Authenticated.tagSize := Nat.mul_succ _ _
    rw [encryptFrom_cons key hne, List.length_append, ih, Authenticated.length_encrypt,
      List.flatten_cons, List.length_append, htags]
    omega

theorem length_encrypt (p : Bytes) :
    (encrypt key p).length = p.length + 16 * max 1 (p.length ⌈/⌉ 65536) := by
  rw [encrypt, length_encryptFrom, Cut.pieces_flatten (by decide), Cut.length_pieces (by decide)]
  rfl

theorem encryptFrom_ne_nil (i : Nat) (p : Bytes) :
    encryptFrom key i (Cut.pieces pieceSize p) ≠ [] := by
  have hlen := length_encryptFrom key i (Cut.pieces pieceSize p)
  have hpieces := List.length_pos_of_ne_nil (Cut.pieces_ne_nil pieceSize p)
  have htag : 0 < Authenticated.tagSize * (Cut.pieces pieceSize p).length :=
    Nat.mul_pos (by decide) hpieces
  intro hnil
  rw [hnil, List.length_nil] at hlen
  omega

/-- The pieces of the ciphertext are the encrypted pieces, since each full one has one size. -/
theorem decryptFrom_encryptFrom (i : Nat) (p : Bytes) (h : i = 0 ∨ p ≠ []) :
    decryptFrom key i (Cut.pieces sealedSize (encryptFrom key i (Cut.pieces pieceSize p))) =
      .ok p := by
  induction p using Cut.pieces_induction (by decide : 0 < pieceSize) generalizing i with
  | short p hp =>
    have hlen := Authenticated.length_encrypt key (nonce i true) p
    rw [Cut.pieces_of_le (by decide) hp, encryptFrom,
      Cut.pieces_of_le (by decide) (by rw [hlen]; exact Nat.add_le_add_right hp _), decryptFrom]
    refine (decryptPiece_eq_ok_iff key).2 ⟨fun hl => ?_, rfl⟩
    rcases h with h | h
    · omega
    · exact h hl.2.1
  | full row p hr hp ih =>
    -- A full piece is cut off again as a full piece, since what follows it has a tag at least.
    have hlen := Authenticated.length_encrypt key (nonce i false) row
    have hrest := encryptFrom_ne_nil key (i+1) p
    rw [Cut.pieces_append (by decide) hr hp, encryptFrom_cons key (Cut.pieces_ne_nil _ _),
      Cut.pieces_append (by decide) (by rw [hlen, hr]; rfl) hrest,
      decryptFrom_cons key (Cut.pieces_ne_nil _ _)]
    have hrow : decryptPiece key i false (Authenticated.encrypt key (nonce i false) row) =
      .ok row := (decryptPiece_eq_ok_iff key).2 ⟨by simp, rfl⟩
    rw [hrow, ih (i+1) (.inr hp)]
    rfl

/-- What is decrypted was encrypted, in the same pieces: a piece before the last one is full on
either side, and a last one without data stands alone. -/
theorem encryptFrom_of_decryptFrom {i : Nat} {c p : Bytes}
    (h : decryptFrom key i (Cut.pieces sealedSize c) = .ok p) :
    (i = 0 ∨ p ≠ []) ∧ encryptFrom key i (Cut.pieces pieceSize p) = c := by
  induction c using Cut.pieces_induction (by decide : 0 < sealedSize) generalizing i p with
  | short c hc =>
    rw [Cut.pieces_of_le (by decide) hc, decryptFrom] at h
    obtain ⟨hdata, rfl⟩ := (decryptPiece_eq_ok_iff key).1 h
    rw [Authenticated.length_encrypt] at hc
    have hp : p.length ≤ pieceSize := Nat.le_of_add_le_add_right hc
    refine ⟨?_, by rw [Cut.pieces_of_le (by decide) hp, encryptFrom]⟩
    by_cases hi : i = 0
    · exact .inl hi
    · exact .inr (fun hnil => hdata ⟨rfl, hnil, Nat.pos_of_ne_zero hi⟩)
  | full row c hrow hc ih =>
    rw [Cut.pieces_append (by decide) hrow hc, decryptFrom_cons key (Cut.pieces_ne_nil _ _)] at h
    obtain ⟨r, hr, h⟩ := bind_eq_ok_iff.1 h
    obtain ⟨q, hq, h⟩ := bind_eq_ok_iff.1 h
    obtain rfl := Except.ok.inj h
    obtain ⟨_, rfl⟩ := (decryptPiece_eq_ok_iff key).1 hr
    rw [Authenticated.length_encrypt] at hrow
    have hfull : r.length = pieceSize := Nat.add_right_cancel hrow
    obtain ⟨hdata, hrest⟩ := ih hq
    have hne : q ≠ [] := hdata.resolve_left (Nat.succ_ne_zero i)
    refine ⟨.inr (by simp [hne]), ?_⟩
    rw [Cut.pieces_append (by decide) hfull hne, encryptFrom_cons key (Cut.pieces_ne_nil _ _),
      hrest]

theorem decrypt_eq_ok_iff {c p : Bytes} : decrypt key c = .ok p ↔ encrypt key p = c := by
  constructor
  · intro h
    unfold decrypt at h
    split at h
    · cases h
    · exact (encryptFrom_of_decryptFrom key h).2
  · rintro rfl
    have hlen := length_encrypt key p
    have hlong : ¬ (encrypt key p).length < Authenticated.tagSize := by
      rw [Authenticated.tagSize]
      omega
    rw [decrypt, if_neg hlong, encrypt, decryptFrom_encryptFrom key 0 p (.inl rfl)]

/-- A byte string is decrypted to a payload exactly when it is the payload's encryption. So every
payload has one accepted ciphertext, longer than itself by a tag for each piece. -/
theorem decrypt_inverse_of_encrypt :
    (∀ p c : Bytes, decrypt key c = .ok p ↔ encrypt key p = c) ∧
    (∀ p : Bytes, ∃! c, decrypt key c = .ok p) ∧
    ∀ p : Bytes, (encrypt key p).length = p.length + 16 * max 1 (p.length ⌈/⌉ 65536) := by
  refine ⟨fun p c => decrypt_eq_ok_iff key, fun p => ?_, length_encrypt key⟩
  simp only [decrypt_eq_ok_iff]
  exact existsUnique_eq'

end Stream
end BeaconSeal
