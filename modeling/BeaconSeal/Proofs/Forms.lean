import BeaconSeal.Curve.Bls12381
import BeaconSeal.Proofs.Armor
import BeaconSeal.Proofs.Envelope
import BeaconSeal.Proofs.Questions
import BeaconSeal.Sealing
/-! The two forms of a sealed payload. Main statement: an input that does not start like armor is
opened as the armor of it is; no envelope starts like armor and every armored text does, so that
no input is accepted in both forms. -/
namespace BeaconSeal
variable {E : PairingGroups}

namespace Armor

def Heads (b : Bytes) : Prop :=
  ∃ lead rest : Text, (∀ c ∈ lead, Text.isBlank c) ∧ b = Text.utf8 (lead ++ (header ++ rest))

theorem heads_utf8_iff {t : Text} : Heads (Text.utf8 t) ↔ isProbablyArmored t := by
  rw [isProbablyArmored_iff]
  constructor
  · intro h
    obtain ⟨lead, rest, hlead, ht⟩ := h
    exact ⟨lead, rest, hlead, Text.utf8_injective ht⟩
  · intro h
    obtain ⟨lead, rest, hlead, rfl⟩ := h
    exact ⟨lead, rest, hlead, rfl⟩

end Armor

namespace Envelope

/-- The binary form starts with a letter, the first one of the version line. -/
theorem exists_cons_of_bytes {e : Envelope} {raw : Bytes} (h : e.bytes = .ok raw) :
    ∃ b, raw = 97 :: b := by
  obtain ⟨t, ht, hraw⟩ := bytes_eq_ok_iff.1 h
  obtain ⟨blocks, _, rfl⟩ := Header.render_eq_ok_iff.1 ht
  exact ⟨_, hraw.symm⟩

theorem not_heads_of_bytes {e : Envelope} {raw : Bytes} (h : e.bytes = .ok raw) :
    ¬ Armor.Heads raw := by
  intro hheads
  obtain ⟨b, rfl⟩ := exists_cons_of_bytes h
  obtain ⟨lead, rest, hlead, hb⟩ := hheads
  obtain ⟨d, t, ht, hd⟩ := Text.exists_cons_of_utf8 (by decide) hb.symm
  obtain rfl : d = 'a' := Char.toNat_inj.1 hd
  cases lead with
  | nil =>
    rw [List.nil_append, Armor.header_eq] at ht
    exact absurd (List.cons.inj ht).1 (by decide)
  | cons c lead =>
    have hblank := hlead c List.mem_cons_self
    rw [(List.cons.inj ht).1] at hblank
    exact absurd hblank (by decide)

end Envelope

namespace Sealing

theorem unarmored_of_not_heads {b : Bytes} (h : ¬ Armor.Heads b) (width : Nat) :
    unarmored width b = .ok b := by
  rw [unarmored]
  split
  next t ht =>
    rw [← Text.ofUtf8?_eq_some_iff.1 ht, Armor.heads_utf8_iff] at h
    rw [if_neg h]
  · rfl

theorem unarmored_bytes {e : Envelope} {raw : Bytes} (h : e.bytes = .ok raw) (width : Nat) :
    unarmored width raw = .ok raw :=
  unarmored_of_not_heads (Envelope.not_heads_of_bytes h) width

theorem unarmored_utf8 {width : Nat} (h : 0 < width) (raw : Bytes) :
    ∃ t, Armor.encode width raw = .ok t ∧ unarmored width (Text.utf8 t) = .ok raw := by
  obtain ⟨t, ht, harmor, hdecode⟩ := Armor.decode_encode h raw
  refine ⟨t, ht, ?_⟩
  simp [unarmored, Text.ofUtf8?_utf8, harmor, hdecode]

theorem unarmored_of_encode {width : Nat} {raw : Bytes} {t : Text}
    (h : Armor.encode width raw = .ok t) : unarmored width (Text.utf8 t) = .ok raw := by
  obtain ⟨⟨⟩, hwidth, _⟩ := bind_eq_ok_iff.1 h
  obtain ⟨t', ht', hraw⟩ := unarmored_utf8 (Armor.checkWidth_eq_ok_iff.1 hwidth) raw
  cases h.symm.trans ht'
  exact hraw

/-- Inputs that hold the same bytes are opened by the same dialogue. -/
theorem decryptWith_congr {o : SealOptions} {input input' : Bytes}
    (h : unarmored o.width input = unarmored o.width input') :
    decryptWith E o input = decryptWith E o input' := by
  rw [decryptWith, decryptWith, h]

/-- Bytes that do not start like armor and the armor of them are opened with the same result, the
same questions and the same use of the random bytes, whatever the client answers. -/
theorem decryptWith_either_form (E : PairingGroups) (o : SealOptions) (h : 1 ≤ o.width) :
    (∀ b : Bytes, ¬ Armor.Heads b → ∃ t, Armor.encode o.width b = .ok t ∧
      ∀ (σ : Type) (c : Client σ) (s : World (σ × List Question)),
        (decryptWith E o (Text.utf8 t)).run c.logged s = (decryptWith E o b).run c.logged s) ∧
    (∀ (b : Bytes) (e : Envelope), Envelope.ofBytes b = .ok e → ¬ Armor.Heads b) ∧
    (∀ (width : Nat) (t : Text) (data : Bytes), Armor.decode width t = .ok data →
      Armor.isProbablyArmored t ∧ ∀ e, Envelope.ofBytes (Text.utf8 t) ≠ .ok e) := by
  have hraw (b : Bytes) (e : Envelope) (he : Envelope.ofBytes b = .ok e) : ¬ Armor.Heads b :=
    Envelope.not_heads_of_bytes (Envelope.ofBytes_eq_ok_iff.1 he).2
  refine ⟨?_, hraw, ?_⟩
  · intro b hb
    obtain ⟨t, ht, hutf8⟩ := unarmored_utf8 h b
    refine ⟨t, ht, fun σ c s => ?_⟩
    rw [decryptWith_congr (hutf8.trans (unarmored_of_not_heads hb o.width).symm)]
  · intro width t data hdecode
    have harmored := Armor.isProbablyArmored_of_decode hdecode
    exact ⟨harmored, fun e he => hraw _ e he (Armor.heads_utf8_iff.2 harmored)⟩

theorem decryptWith_either_form_short : ¬ Armor.Heads [104, 105] ∧
    ∃ t, Armor.encode 1 [104, 105] = .ok t ∧
      (decryptWith bls12381 { width := 1 } (Text.utf8 t)).run Client.offline.logged
          ⟨((), []), []⟩ =
        (decryptWith bls12381 { width := 1 } [104, 105]).run Client.offline.logged
          ⟨((), []), []⟩ := by
  have hheads : ¬ Armor.Heads (Text.utf8 ['h', 'i']) := by
    rw [Armor.heads_utf8_iff]
    decide
  have hraw : Text.utf8 ['h', 'i'] = [104, 105] := by decide
  rw [hraw] at hheads
  obtain ⟨t, ht, hrun⟩ :=
    (decryptWith_either_form bls12381 { width := 1 } (by decide)).1 [104, 105] hheads
  exact ⟨hheads, t, ht, hrun Unit Client.offline _⟩

end Sealing
end BeaconSeal
