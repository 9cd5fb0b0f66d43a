import BeaconSeal.Proofs.Stanza
/-! Numbers and bytes written in digits. Both are read back, and both are words that can
stand in a stanza. Main statement: a text is read as hexadecimal bytes exactly when, put in lower
case, it is what is written for them. -/
namespace BeaconSeal

namespace Text

theorem decimal_ofNat (n : Nat) : decimal (ofNat n) = n := Nat.ofDigitChars_ten_toDigits

theorem ofNat_ne_nil (n : Nat) : ofNat n ≠ [] := Nat.toDigits_ne_nil

theorem isDigit_of_mem_ofNat {n : Nat} {c : Char} (h : c ∈ ofNat n) : c.isDigit :=
  Nat.isDigit_of_mem_toDigits (by decide) (by decide) h

/-- Only zero is written with a leading zero. -/
theorem eq_zero_of_head_ofNat {n : Nat} (h : (ofNat n).head? = some '0') : n = 0 := by
  induction n using Nat.strongRecOn with
  | ind n ih =>
    by_cases hn : n < 10
    · have hall : ∀ m < 10, some m.digitChar = some '0' → m = 0 := by decide
      rw [ofNat, Nat.toDigits_of_lt_base hn] at h
      exact hall n hn h
    · rw [ofNat, Nat.toDigits_of_base_le (by decide) (by omega),
        List.head?_append_of_ne_nil _ Nat.toDigits_ne_nil] at h
      have := ih (n/10) (by omega) h
      omega

end Text

namespace Hex

theorem digit_lt {n : Nat} (h : n < 16) : (digit n).toNat < 128 := by
  revert n
  decide

theorem digit_graphic {n : Nat} (h : n < 16) : Stanza.isGraphic (digit n) := by
  revert n
  decide

theorem toLower_digit {n : Nat} (h : n < 16) : (digit n).toLower = digit n := by
  revert n
  decide

/-- Only bytes of seven bits are digits. -/
theorem lt_of_value? {x v : UInt8} (h : value? x = some v) : x.toNat < 128 ∧ v.toNat < 16 := by
  have hall : ∀ n < 256, ∀ v ∈ value? (UInt8.ofNat n), n < 128 ∧ v.toNat < 16 := by
    decide +kernel
  have hx := hall x.toNat x.toNat_lt v
  rw [UInt8.ofNat_toNat] at hx
  exact hx h

theorem lt_of_toLower {c : Char} (h : c.toLower.toNat < 128) : c.toNat < 128 := by
  unfold Char.toLower at h
  split at h
  next hupper =>
    have hle : c.toNat ≤ 90 := hupper.2
    omega
  · exact h

theorem isHexDigit_of_toLower {c : Char} {n : Nat} (hn : n < 16) (h : c.toLower = digit n) :
    c.isHexDigit := by
  have hall : ∀ m < 128, ∀ n < 16, (Char.ofNat m).toLower = digit n →
      (Char.ofNat m).isHexDigit := by decide +kernel
  have hdigit := hall c.toNat (lt_of_toLower (h ▸ digit_lt hn)) n hn
  rw [Char.ofNat_toNat] at hdigit
  exact hdigit h

/-- The byte of a digit in either case has the digit's value, and no other byte has one. -/
theorem value?_eq_some_iff {c : Char} {n : Nat} (hc : c.toNat < 128) (hn : n < 16) :
    value? (UInt8.ofNat c.toNat) = some (UInt8.ofNat n) ↔ c.toLower = digit n := by
  have hall : ∀ m < 128, ∀ n < 16, value? (UInt8.ofNat m) = some (UInt8.ofNat n) ↔
      (Char.ofNat m).toLower = digit n := by decide +kernel
  have h := hall c.toNat hc n hn
  rwa [Char.ofNat_toNat] at h

theorem encode_cons (x : UInt8) (b : Bytes) :
    encode (x :: b) = digit (x.toNat/16) :: digit (x.toNat%16) :: encode b := rfl

theorem mem_encode {b : Bytes} {c : Char} (h : c ∈ encode b) : ∃ n < 16, c = digit n := by
  obtain ⟨x, _, hx⟩ := List.mem_flatMap.1 h
  have hlt := x.toNat_lt
  simp only [List.mem_cons, List.not_mem_nil, or_false] at hx
  rcases hx with rfl | rfl
  · exact ⟨x.toNat/16, by omega, rfl⟩
  · exact ⟨x.toNat%16, by omega, rfl⟩

theorem map_toLower_encode (b : Bytes) : (encode b).map Char.toLower = encode b := by
  refine (List.map_congr_left (fun c hc => ?_)).trans (List.map_id _)
  obtain ⟨n, hn, rfl⟩ := mem_encode hc
  exact toLower_digit hn

theorem length_encode (b : Bytes) : (encode b).length = 2*b.length := by
  induction b with
  | nil => rfl
  | cons x b ih =>
    rw [encode_cons]
    simp only [List.length_cons, ih]
    omega

/-- A text that becomes digits in lower case has only digits, of either case. -/
theorem exists_digit_of_mem {t : Text} {b : Bytes} (h : t.map Char.toLower = encode b) {c : Char}
    (hc : c ∈ t) : ∃ n < 16, c.toLower = digit n :=
  mem_encode (h ▸ List.mem_map_of_mem hc)

theorem isHexDigit_of_mem {t : Text} {b : Bytes} (h : t.map Char.toLower = encode b) :
    ∀ c ∈ t, c.isHexDigit := by
  intro c hc
  obtain ⟨n, hn, hdigit⟩ := exists_digit_of_mem h hc
  exact isHexDigit_of_toLower hn hdigit

theorem length_of_toLower {t : Text} {b : Bytes} (h : t.map Char.toLower = encode b) :
    t.length = 2*b.length := by
  rw [← List.length_map, h, length_encode]

theorem length_utf8_of_toLower {t : Text} {b : Bytes} (h : t.map Char.toLower = encode b) :
    (Text.utf8 t).length = 2*b.length := by
  have hwidth : Text.width t = t.length := by
    refine Text.width_of_ascii (fun c hc => ?_)
    obtain ⟨n, hn, hdigit⟩ := exists_digit_of_mem h hc
    exact lt_of_toLower (hdigit ▸ digit_lt hn)
  rw [Text.length_utf8, hwidth, length_of_toLower h]

theorem byte_of_halves (x : UInt8) :
    16 * UInt8.ofNat (x.toNat/16) + UInt8.ofNat (x.toNat%16) = x := by
  have hx := x.toNat_lt
  apply UInt8.toNat_inj.1
  simp only [UInt8.toNat_add, UInt8.toNat_mul, UInt8.toNat_ofNat', UInt8.reduceToNat]
  omega

theorem halves_of_byte {x y : UInt8} (hx : x.toNat < 16) (hy : y.toNat < 16) :
    (16*x + y).toNat/16 = x.toNat ∧ (16*x + y).toNat%16 = y.toNat := by
  simp only [UInt8.toNat_add, UInt8.toNat_mul, UInt8.reduceToNat]
  omega

/-- A digit in front is one byte with the digit's value. -/
theorem utf8_cons_of_toLower {c : Char} {n : Nat} (hn : n < 16) (h : c.toLower = digit n)
    (t : Text) : ∃ x, Text.utf8 (c :: t) = x :: Text.utf8 t ∧ value? x = some (UInt8.ofNat n) := by
  have hc : c.toNat < 128 := lt_of_toLower (h ▸ digit_lt hn)
  refine ⟨UInt8.ofNat c.toNat, ?_, (value?_eq_some_iff hc hn).2 h⟩
  rw [Text.utf8_cons, Text.utf8EncodeChar_of_lt hc, List.singleton_append]

/-- A first byte with a value is a digit in front. -/
theorem exists_cons_of_value? {t : Text} {x v : UInt8} {b : Bytes} (h : Text.utf8 t = x :: b)
    (hx : value? x = some v) :
    ∃ c t', t = c :: t' ∧ c.toLower = digit v.toNat ∧ Text.utf8 t' = b := by
  obtain ⟨hlt, hv⟩ := lt_of_value? hx
  obtain ⟨c, t', rfl, hc⟩ := Text.exists_cons_of_utf8 hlt h
  have hc' : c.toNat < 128 := hc ▸ hlt
  rw [Text.utf8_cons, Text.utf8EncodeChar_of_lt hc', List.singleton_append] at h
  obtain ⟨hbyte, hrest⟩ := List.cons.inj h
  refine ⟨c, t', rfl, (value?_eq_some_iff hc' hv).1 ?_, hrest⟩
  rw [hbyte, hx, UInt8.ofNat_toNat]

theorem decodeFrom_of_toLower {i : Nat} {t : Text} {b : Bytes}
    (h : t.map Char.toLower = encode b) : decodeFrom i (Text.utf8 t) = .ok b := by
  induction b generalizing i t with
  | nil =>
    obtain rfl : t = [] := List.map_eq_nil_iff.1 h
    rfl
  | cons z b ih =>
    have hz := z.toNat_lt
    obtain ⟨c, t, rfl, hc, h⟩ := List.map_eq_cons_iff.1 h
    obtain ⟨c', t, rfl, hc', h⟩ := List.map_eq_cons_iff.1 h
    obtain ⟨x, hx, hxv⟩ := utf8_cons_of_toLower (by omega) hc (c' :: t)
    obtain ⟨y, hy, hyv⟩ := utf8_cons_of_toLower (by omega) hc' t
    rw [hx, hy, decodeFrom, hxv, hyv]
    dsimp only
    rw [ih h, byte_of_halves, Except.map]

theorem toLower_of_decodeFrom {i : Nat} {t : Text} {b : Bytes}
    (heven : (Text.utf8 t).length % 2 = 0) (h : decodeFrom i (Text.utf8 t) = .ok b) :
    t.map Char.toLower = encode b := by
  generalize hu : Text.utf8 t = u at heven h
  induction i, u using decodeFrom.induct generalizing t b with
  | case1 i x y u hx => simp [decodeFrom, hx] at h
  | case2 i x y u v hx hy => simp [decodeFrom, hx, hy] at h
  | case3 i x y u v w hy hx ih =>
    simp only [decodeFrom, hx, hy] at h
    obtain ⟨b, hb, rfl⟩ := map_eq_ok_iff.1 h
    obtain ⟨c, t, rfl, hc, ht⟩ := exists_cons_of_value? hu hx
    obtain ⟨c', t, rfl, hc', ht⟩ := exists_cons_of_value? ht hy
    obtain ⟨hhigh, hlow⟩ := halves_of_byte (lt_of_value? hx).2 (lt_of_value? hy).2
    simp only [List.length_cons] at heven
    rw [List.map_cons, List.map_cons, hc, hc', ih ht (by omega) hb, encode_cons, hhigh, hlow]
  | case4 u i hshort =>
    have hnil : u = [] := by
      cases u with
      | nil => rfl
      | cons x u =>
        cases u with
        | nil => cases heven
        | cons y u => exact absurd rfl (hshort x y u)
    subst hnil
    cases h
    obtain rfl : t = [] := Text.utf8_injective hu
    rfl

theorem decode_eq_ok_iff {t : Text} {b : Bytes} :
    decode (Text.utf8 t) = .ok b ↔ t.map Char.toLower = encode b := by
  rw [decode]
  constructor
  · intro h
    split at h
    · cases h
    next heven => exact toLower_of_decodeFrom (by omega) h
  · intro h
    rw [length_utf8_of_toLower h, if_neg (by omega), decodeFrom_of_toLower h]

theorem decode_encode (b : Bytes) : decode (Text.utf8 (encode b)) = .ok b :=
  decode_eq_ok_iff.2 (map_toLower_encode b)

end Hex

namespace Stanza

theorem checkWord_ofNat (n : Nat) : checkWord (Text.ofNat n) = .ok () := by
  refine checkWord_eq_ok_iff.2 ⟨Text.ofNat_ne_nil n, fun c hc => ?_⟩
  have h := Text.isDigit_of_mem_ofNat hc
  simp only [Char.isDigit, Bool.and_eq_true, decide_eq_true_eq] at h
  have h1 : 48 ≤ c.toNat := h.1
  have h2 : c.toNat ≤ 57 := h.2
  simp only [isGraphic, Bool.and_eq_true, decide_eq_true_eq]
  omega

theorem checkWord_hex {b : Bytes} (h : b ≠ []) : checkWord (Hex.encode b) = .ok () := by
  refine checkWord_eq_ok_iff.2 ⟨?_, fun c hc => ?_⟩
  · cases b with
    | nil => contradiction
    | cons x b => simp [Hex.encode]
  · obtain ⟨n, hn, rfl⟩ := Hex.mem_encode hc
    exact Hex.digit_graphic hn

end Stanza
end BeaconSeal
