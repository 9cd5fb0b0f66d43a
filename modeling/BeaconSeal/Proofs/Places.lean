import BeaconSeal.Bytes.Endian
import BeaconSeal.Proofs.Stream
/-! Pieces in their places. The nonce of a piece says where the piece stands and whether it is
the last one. Main statement: apart from the encryption of a payload, nothing is decrypted
under its key without a piece that encryption did not make for that place. -/
namespace BeaconSeal.Stream
variable (key : SizedBytes 32)

theorem nonce_injective {i j : Nat} {a b : Bool} (hi : i < 2^64) (hj : j < 2^64)
    (h : nonce i a = nonce j b) : i = j ∧ a = b := by
  have hbytes := congrArg Subtype.val h
  simp only [nonce] at hbytes
  obtain ⟨hfront, hflag⟩ := List.append_inj' hbytes rfl
  have hindex := congrArg Bytes.ofBigEndian (List.append_cancel_left hfront)
  rw [Bytes.ofBigEndian_bigEndian, Bytes.ofBigEndian_bigEndian] at hindex
  refine ⟨by omega, ?_⟩
  cases a with
  | false =>
    cases b with
    | false => rfl
    | true => simp at hflag
  | true =>
    cases b with
    | false => simp at hflag
    | true => rfl

def sealedFrom (i : Nat) : List Bytes → List (SizedBytes 12 × Bytes)
  | [] => []
  | [b] => [(nonce i true, Authenticated.encrypt key (nonce i true) b)]
  | b :: bs => (nonce i false, Authenticated.encrypt key (nonce i false) b) :: sealedFrom (i+1) bs

def sealedPieces (p : Bytes) : List (SizedBytes 12 × Bytes) :=
  sealedFrom key 0 (Cut.pieces pieceSize p)

theorem sealedFrom_cons {i : Nat} {b : Bytes} {bs : List Bytes} (h : bs ≠ []) :
    sealedFrom key i (b :: bs) =
      (nonce i false, Authenticated.encrypt key (nonce i false) b) :: sealedFrom key (i+1) bs := by
  cases bs with
  | nil => contradiction
  | cons c bs => rfl

theorem length_sealedFrom (i : Nat) (bs : List Bytes) : (sealedFrom key i bs).length = bs.length := by
  induction i, bs using sealedFrom.induct with
  | case1 i => rfl
  | case2 i b => rfl
  | case3 i b bs hne ih => rw [sealedFrom_cons key hne, List.length_cons, ih, List.length_cons]

theorem flatMap_sealedFrom (i : Nat) (bs : List Bytes) :
    (sealedFrom key i bs).flatMap Prod.snd = encryptFrom key i bs := by
  induction i, bs using sealedFrom.induct with
  | case1 i => rfl
  | case2 i b => simp [sealedFrom, encryptFrom]
  | case3 i b bs hne ih =>
    rw [sealedFrom_cons key hne, List.flatMap_cons, ih, encryptFrom_cons key hne]

theorem nonce_of_sealedFrom {i j : Nat} {bs : List Bytes} {x : SizedBytes 12 × Bytes}
    (h : (sealedFrom key i bs)[j]? = some x) : x.1 = nonce (i+j) (j+1 = bs.length) := by
  induction i, bs using sealedFrom.induct generalizing j with
  | case1 i => cases h
  | case2 i b =>
    cases j with
    | zero =>
      cases h
      rfl
    | succ j => cases h
  | case3 i b bs hne ih =>
    rw [sealedFrom_cons key hne] at h
    cases j with
    | zero =>
      cases h
      have hlast : ¬ 0+1 = (b :: bs).length := by simpa using hne
      rw [decide_eq_false hlast]
      rfl
    | succ j =>
      have hplace : i+1+j = i+(j+1) := by omega
      simpa [hplace] using ih h

/-- A string is decrypted only if each of its pieces is, in its place. -/
theorem decryptPiece_of_decryptFrom {i j : Nat} {bs : List Bytes} {q b : Bytes}
    (h : decryptFrom key i bs = .ok q) (hb : bs[j]? = some b) :
    ∃ p, decryptPiece key (i+j) (j+1 = bs.length) b = .ok p := by
  induction i, bs using decryptFrom.induct generalizing j q with
  | case1 i => cases hb
  | case2 i c =>
    cases j with
    | zero =>
      cases hb
      exact ⟨q, h⟩
    | succ j => cases hb
  | case3 i c bs hne ih =>
    rw [decryptFrom_cons key hne] at h
    obtain ⟨p, hp, h⟩ := bind_eq_ok_iff.1 h
    obtain ⟨ps, hps, _⟩ := bind_eq_ok_iff.1 h
    cases j with
    | zero =>
      cases hb
      have hlast : ¬ 0+1 = (b :: bs).length := by simpa using hne
      rw [decide_eq_false hlast]
      exact ⟨p, hp⟩
    | succ j =>
      have hplace : i+1+j = i+(j+1) := by omega
      simpa [hplace] using ih hps hb

/-- What the authenticator accepted of a string that is decrypted: every piece, in its place. -/
theorem accepted_of_decrypt {c q b : Bytes} {j : Nat} (h : decrypt key c = .ok q)
    (hb : (Cut.pieces sealedSize c)[j]? = some b) : ∃ p, Authenticated.decrypt? key
      (nonce j (j+1 = (Cut.pieces sealedSize c).length)) b = some p := by
  unfold decrypt at h
  split at h
  · cases h
  obtain ⟨p, hp⟩ := decryptPiece_of_decryptFrom key h hb
  rw [Nat.zero_add] at hp
  exact ⟨p, (Authenticated.decrypt?_eq_some_iff _ _).2 ((decryptPiece_eq_ok_iff key).1 hp).2⟩

theorem length_sealedPieces_lt {p : Bytes} (h : p.length < 2^64) :
    (sealedPieces key p).length < 2^64 := by
  have hcount := Cut.length_pieces (by decide : 0 < pieceSize) p
  rw [Nat.ceilDiv_eq_add_pred_div, pieceSize] at hcount
  rw [sealedPieces, length_sealedFrom, pieceSize, hcount]
  omega

theorem nonce_of_sealedPieces {p : Bytes} {j : Nat} {x : SizedBytes 12 × Bytes}
    (h : (sealedPieces key p)[j]? = some x) :
    x.1 = nonce j (j+1 = (sealedPieces key p).length) := by
  rw [nonce_of_sealedFrom key h, Nat.zero_add, sealedPieces, length_sealedFrom]

theorem nodup_nonces {p : Bytes} (h : p.length < 2^64) :
    ((sealedPieces key p).map Prod.fst).Nodup := by
  have hcount := length_sealedPieces_lt key h
  rw [List.Nodup, List.pairwise_map, List.pairwise_iff_getElem]
  intro i j hi hj hij heq
  rw [nonce_of_sealedPieces key (List.getElem?_eq_getElem hi),
    nonce_of_sealedPieces key (List.getElem?_eq_getElem hj)] at heq
  obtain ⟨rfl, _⟩ := nonce_injective (by omega) (by omega) heq
  exact Nat.lt_irrefl i hij

/-- A piece stands where its nonce says, and is the last one if its nonce says so. -/
theorem getElem?_of_mem {p b : Bytes} {j : Nat} {last : Bool} (h : p.length < 2^64) (hj : j < 2^64)
    (hmem : (nonce j last, b) ∈ sealedPieces key p) :
    (sealedPieces key p)[j]? = some (nonce j last, b) ∧
      (last ↔ j+1 = (sealedPieces key p).length) := by
  have hcount := length_sealedPieces_lt key h
  obtain ⟨k, hk⟩ := List.mem_iff_getElem?.1 hmem
  have hkl := (List.getElem?_eq_some_iff.1 hk).1
  obtain ⟨rfl, hflag⟩ := nonce_injective hj (by omega) (nonce_of_sealedPieces key hk)
  exact ⟨hk, by simp [hflag]⟩

/-- Pieces whose places are all taken from a payload are the payload's: the last one is last
there too, so that there are as many, and each one stands where its nonce says. -/
theorem eq_encrypt_of_mem {p c : Bytes} (h : p.length < 2^64)
    (hmem : ∀ j b, (Cut.pieces sealedSize c)[j]? = some b →
      (nonce j (j+1 = (Cut.pieces sealedSize c).length), b) ∈ sealedPieces key p) :
    c = encrypt key p := by
  have hcount := length_sealedPieces_lt key h
  have hflat := Cut.pieces_flatten (by decide : 0 < sealedSize) c
  have hbs := List.length_pos_of_ne_nil (Cut.pieces_ne_nil sealedSize c)
  generalize Cut.pieces sealedSize c = bs at hmem hflat hbs
  have hps : 0 < (sealedPieces key p).length := by
    rw [sealedPieces, length_sealedFrom]
    exact List.length_pos_of_ne_nil (Cut.pieces_ne_nil pieceSize p)
  -- Only the places of the payload matter, so the number of pieces need not be bounded.
  have hplace {j : Nat} (hj : j < (sealedPieces key p).length) (hjb : j < bs.length) :
      (sealedPieces key p)[j]? = some (nonce j (j+1 = bs.length), bs[j]) ∧
        (j+1 = bs.length ↔ j+1 = (sealedPieces key p).length) := by
    simpa using getElem?_of_mem key h (by omega) (hmem j _ (List.getElem?_eq_getElem hjb))
  have hlen : bs.length = (sealedPieces key p).length := by
    rcases Nat.lt_trichotomy bs.length (sealedPieces key p).length with hlt | heq | hgt
    · have hlast := (hplace (j := bs.length-1) (by omega) (by omega)).2
      omega
    · exact heq
    · have hlast := (hplace (j := (sealedPieces key p).length-1) (by omega) (by omega)).2
      omega
  have hpieces : bs = (sealedPieces key p).map Prod.snd := by
    refine List.ext_getElem (by rw [List.length_map, hlen]) (fun j hj _ => ?_)
    have hsealed := (hplace (hlen ▸ hj) hj).1
    rw [List.getElem_map, (List.getElem?_eq_some_iff.1 hsealed).2]
  rw [← hflat, hpieces, ← List.flatMap_def, sealedPieces, flatMap_sealedFrom, encrypt]

/-- Some piece of the string is accepted in its place, and encryption of the payload made no such
piece under such a nonce. -/
def HoldsForged (p c : Bytes) : Prop :=
  ∃ (j : Nat) (b q : Bytes), (Cut.pieces sealedSize c)[j]? = some b ∧
    Authenticated.decrypt? key (nonce j (j+1 = (Cut.pieces sealedSize c).length)) b = some q ∧
    (nonce j (j+1 = (Cut.pieces sealedSize c).length), b) ∉ sealedPieces key p

theorem holdsForged_of_decrypt {p c q : Bytes} (h : p.length < 2^64) (hne : c ≠ encrypt key p)
    (hq : decrypt key c = .ok q) : HoldsForged key p c := by
  by_contra hno
  refine hne (eq_encrypt_of_mem key h (fun j b hb => ?_))
  obtain ⟨r, hr⟩ := accepted_of_decrypt key hq hb
  by_contra hmem
  exact hno ⟨j, b, r, hb, hr, hmem⟩

/-- The pieces of a payload are sealed under a nonce each, and whatever else is decrypted under
its key holds a forged piece. So sealed pieces that were left out, added, moved or repeated are
refused, unless one of the pieces was forged. -/
theorem forged_piece_or_rejected {p : Bytes} (h : p.length < 2^64) :
    (sealedPieces key p).flatMap Prod.snd = encrypt key p ∧
    ((sealedPieces key p).map Prod.fst).Nodup ∧
    (∀ c q : Bytes, c ≠ encrypt key p → decrypt key c = .ok q → HoldsForged key p c) ∧
    ∀ c : Bytes, c ≠ encrypt key p → ¬ HoldsForged key p c →
      ∃ fault, decrypt key c = .error fault := by
  refine ⟨flatMap_sealedFrom key 0 _, nodup_nonces key h, ?_, ?_⟩
  · exact fun c q hne hq => holdsForged_of_decrypt key h hne hq
  · intro c hne hforged
    cases hq : decrypt key c with
    | error fault => exact ⟨fault, rfl⟩
    | ok q => exact absurd (holdsForged_of_decrypt key h hne hq) hforged

/-- A ciphertext of another payload holds a forged piece. One that was cut short within its only
tag holds none. -/
theorem forged_piece_or_rejected_short :
    let key : SizedBytes 32 := ⟨List.replicate 32 0, rfl⟩
    (encrypt key [8] ≠ encrypt key [7] ∧ HoldsForged key [7] (encrypt key [8])) ∧
    ∃ fault, decrypt key ((encrypt key [7]).take 15) = .error fault := by
  intro key
  obtain ⟨_, _, hforged, hrejected⟩ := forged_piece_or_rejected key (p := [7]) (by decide)
  have h7 : decrypt key (encrypt key [7]) = .ok [7] := (decrypt_eq_ok_iff key).2 rfl
  have h8 : decrypt key (encrypt key [8]) = .ok [8] := (decrypt_eq_ok_iff key).2 rfl
  have hne : encrypt key [8] ≠ encrypt key [7] := by
    intro heq
    rw [heq, h7] at h8
    cases h8
  refine ⟨⟨hne, hforged _ [8] hne h8⟩, hrejected _ ?_ ?_⟩
  · intro heq
    have hlen := length_encrypt key [7]
    have hshort := congrArg List.length heq
    rw [List.length_take] at hshort
    omega
  · intro hholds
    obtain ⟨j, b, q, hb, hq, _⟩ := hholds
    have hshort : ((encrypt key [7]).take 15).length ≤ 15 := List.length_take_le _ _
    rw [Cut.pieces_of_le (by decide) (Nat.le_trans hshort (by decide)),
      List.getElem?_singleton] at hb
    split at hb
    · obtain rfl := Option.some.inj hb
      have hlen := congrArg List.length ((Authenticated.decrypt?_eq_some_iff key _).1 hq)
      rw [Authenticated.length_encrypt, Authenticated.tagSize] at hlen
      omega
    · cases hb

end BeaconSeal.Stream
