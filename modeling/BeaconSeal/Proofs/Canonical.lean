import BeaconSeal.Proofs.Base64
/-! Which texts are base64. Main statement: in each form a text is read as some bytes exactly when
it is what is written for them, and the texts that are read are those of whole symbols with nothing
in the bits that no byte uses, in one form with just the padding that their length asks for. -/
namespace BeaconSeal.Base64
open Cut

def missing (n : Nat) : Nat := (4 - n%4)%4

/-- Symbols, never one left over, and zeros in the bits of the last one that no byte uses: two for
each symbol that the last group is short of. -/
structure Canonical (t : List Char) : Prop where
  symbols : ∀ c ∈ t, ∃ n < 64, c = symbol n
  length : t.length%4 ≠ 1
  spare : ∀ n < 64, t.getLast? = some (symbol n) → 4^missing t.length ∣ n

theorem symbol_injective {m n : Nat} (hm : m < 64) (hn : n < 64) (h : symbol m = symbol n) :
    m = n := by
  have hvalue := value?_symbol hm
  rw [h, value?_symbol hn] at hvalue
  exact (Option.some.inj hvalue).symm

theorem exists_values_iff {t : List Char} : (∃ vs : List Nat, (∀ v ∈ vs, v < 64) ∧
    t = vs.map symbol) ↔ ∀ c ∈ t, ∃ n < 64, c = symbol n := by
  induction t with
  | nil => simp
  | cons c t ih =>
    rw [List.forall_mem_cons, ← ih]
    constructor
    · intro h
      obtain ⟨vs, hvs, ht⟩ := h
      obtain ⟨v, ws, rfl, hc, ht⟩ := List.map_eq_cons_iff.1 ht.symm
      rw [List.forall_mem_cons] at hvs
      exact ⟨⟨v, hvs.1, hc.symm⟩, ws, hvs.2, ht.symm⟩
    · intro h
      obtain ⟨⟨v, hv, rfl⟩, vs, hvs, rfl⟩ := h
      exact ⟨v :: vs, List.forall_mem_cons.2 ⟨hv, hvs⟩, rfl⟩

/-- The values of a group are those of bytes when the bits left over are zero. -/
theorem exists_joinValues_iff {vs : List Nat} (h : vs.length ≤ 4) :
    (∃ g, joinValues vs = some g) ↔
      vs.length%4 ≠ 1 ∧ ∀ n, vs.getLast? = some n → 4^missing vs.length ∣ n := by
  match vs with
  | [] => simp [joinValues]
  | [a] => simp [joinValues]
  | [a, b] => simp [joinValues, missing, Nat.dvd_iff_mod_eq_zero]
  | [a, b, c] => simp [joinValues, missing, Nat.dvd_iff_mod_eq_zero]
  | [a, b, c, d] => simp [joinValues, missing]
  | _ :: _ :: _ :: _ :: _ :: _ =>
    simp only [List.length_cons] at h
    omega

theorem canonical_map_symbol_iff {vs : List Nat} (hvs : ∀ v ∈ vs, v < 64) :
    Canonical (vs.map symbol) ↔
      vs.length%4 ≠ 1 ∧ ∀ n, vs.getLast? = some n → 4^missing vs.length ∣ n := by
  constructor
  · intro h
    refine ⟨by simpa using h.length, ?_⟩
    intro n hn
    have hlast : (vs.map symbol).getLast? = some (symbol n) := by simp [List.getLast?_map, hn]
    simpa using h.spare n (hvs n (List.mem_of_getLast? hn)) hlast
  · intro h
    refine ⟨exists_values_iff.1 ⟨vs, hvs, rfl⟩, by simpa using h.1, ?_⟩
    intro n hn hlast
    rw [List.getLast?_map, Option.map_eq_some_iff] at hlast
    obtain ⟨v, hv, hs⟩ := hlast
    have heq := symbol_injective (hvs v (List.mem_of_getLast? hv)) hn hs
    simpa [heq] using h.2 v hv

theorem exists_decodeGroup_iff {t : List Char} (h : t.length ≤ 4) :
    (∃ g, decodeGroup t = some g) ↔ Canonical t := by
  simp only [decodeGroup, Option.bind_eq_bind, Option.bind_eq_some_iff, mapM_value?_eq_some_iff]
  constructor
  · intro hg
    obtain ⟨g, vs, ⟨hvs, rfl⟩, hg⟩ := hg
    rw [List.length_map] at h
    exact (canonical_map_symbol_iff hvs).2 ((exists_joinValues_iff h).1 ⟨g, hg⟩)
  · intro hc
    obtain ⟨vs, hvs, rfl⟩ := exists_values_iff.2 hc.symbols
    rw [List.length_map] at h
    obtain ⟨g, hg⟩ := (exists_joinValues_iff h).2 ((canonical_map_symbol_iff hvs).1 hc)
    exact ⟨g, vs, ⟨hvs, rfl⟩, hg⟩

/-- Only the last group of a text has bits to spare. -/
theorem canonical_append_iff {q t : List Char} (hq : q.length = 4) :
    Canonical (q ++ t) ↔ Canonical q ∧ Canonical t := by
  have hmod : (q ++ t).length%4 = t.length%4 := by simp [hq]
  have hmissing : missing (q ++ t).length = missing t.length := by rw [missing, hmod, missing]
  have hfull : (∀ c ∈ q, ∃ n < 64, c = symbol n) → Canonical q := by
    intro hs
    exact ⟨hs, by simp [hq], fun n _ _ => by simp [hq, missing]⟩
  -- the last symbol of the whole stands in `t`, unless `t` is empty and nothing is missing
  have hlast (n : Nat) (ht : t ≠ []) :
      (q ++ t).getLast? = some (symbol n) ↔ t.getLast? = some (symbol n) := by
    rw [List.getLast?_append_of_ne_nil q ht]
  constructor
  · intro h
    have hs := List.forall_mem_append.1 h.symbols
    refine ⟨hfull hs.1, hs.2, hmod ▸ h.length, ?_⟩
    intro n hn ht
    have hne : t ≠ [] := fun he => by simp [he] at ht
    exact hmissing ▸ h.spare n hn ((hlast n hne).2 ht)
  · intro h
    refine ⟨List.forall_mem_append.2 ⟨h.1.symbols, h.2.symbols⟩, hmod ▸ h.2.length, ?_⟩
    intro n hn ht
    by_cases hne : t = []
    · simp [hne, hq, missing]
    · exact hmissing ▸ h.2.spare n hn ((hlast n hne).1 ht)

theorem exists_decodeBare?_iff {t : List Char} : (∃ b, decodeBare? t = some b) ↔ Canonical t := by
  induction t using rows_induction (by decide : 0 < 4) with
  | short t h => rw [decodeBare?_of_lt h, exists_decodeGroup_iff (by omega)]
  | full q t hq ih =>
    rw [canonical_append_iff hq, ← ih, ← exists_decodeGroup_iff (by omega)]
    simp only [decodeBare?_append_eq_some_iff hq]
    constructor
    · intro h
      obtain ⟨b, g, b', hg, hb, -⟩ := h
      exact ⟨⟨g, hg⟩, b', hb⟩
    · intro h
      obtain ⟨⟨g, hg⟩, b', hb⟩ := h
      exact ⟨g ++ b', g, b', hg, hb, rfl⟩

theorem pad_eq (t : List Char) : pad t = t ++ List.replicate (missing t.length) '=' := rfl

theorem exists_decode?_iff {t : List Char} :
    (∃ b, decode? t = some b) ↔ ∃ bare, Canonical bare ∧ t = pad bare := by
  constructor
  · intro h
    obtain ⟨b, hb⟩ := h
    exact ⟨encodeBare b, exists_decodeBare?_iff.1 ⟨b, decodeBare?_encodeBare b⟩,
      decode?_eq_some_iff.1 hb⟩
  · intro h
    obtain ⟨bare, hc, rfl⟩ := h
    obtain ⟨b, hb⟩ := exists_decodeBare?_iff.2 hc
    exact ⟨b, decode?_eq_some_iff.2 (by rw [encode, decodeBare?_eq_some_iff.1 hb])⟩

theorem Canonical.notMem {t : List Char} (h : Canonical t) : '=' ∉ t := by
  intro hm
  obtain ⟨n, hn, heq⟩ := h.symbols '=' hm
  exact (symbol_graphic hn).2.2 heq.symm

/-- Padding shows in the text, and without it the length is a multiple of four. -/
theorem canonical_pad_iff {bare : List Char} (h : Canonical bare) :
    Canonical (pad bare) ↔ bare.length%4 = 0 := by
  constructor
  · intro hp
    have hnone : missing bare.length = 0 := by
      by_contra hne
      exact hp.notMem (by rw [pad_eq]; simp [hne])
    rw [missing] at hnone
    omega
  · intro hlen
    have hnone : missing bare.length = 0 := by rw [missing, hlen]
    rwa [pad_eq, hnone, List.replicate_zero, List.append_nil]

/-- A text that both forms accept is a text without padding whose length is a multiple of four. -/
theorem exists_decode?_and_exists_decodeBare?_iff {t : List Char} :
    ((∃ b, decode? t = some b) ∧ ∃ b, decodeBare? t = some b) ↔
      Canonical t ∧ t.length%4 = 0 := by
  rw [exists_decode?_iff, exists_decodeBare?_iff]
  constructor
  · intro h
    obtain ⟨⟨bare, hbare, rfl⟩, hpad⟩ := h
    refine ⟨hpad, ?_⟩
    have hlen := (canonical_pad_iff hbare).1 hpad
    simp [pad_eq, missing, hlen]
  · intro h
    exact ⟨⟨t, h.1, by rw [pad_eq, missing, h.2]; simp⟩, h.1⟩

/-- Each text has one reading at most and each list of bytes just one text, padded and bare. What
is accepted is made of whole symbols, of a length that bytes have, with no bit set that no byte
uses; the padded form asks for its padding, so that the forms share the texts that need none. -/
theorem forms_canonical :
    (∀ t b, (decode? t = some b ↔ t = encode b) ∧ (decodeBare? t = some b ↔ t = encodeBare b)) ∧
    (∀ b, (∃! t, decode? t = some b) ∧ ∃! t, decodeBare? t = some b) ∧
    (∀ t, ((∃ b, decodeBare? t = some b) ↔ Canonical t) ∧
      ((∃ b, decode? t = some b) ↔
        ∃ bare, Canonical bare ∧ t = bare ++ List.replicate (missing bare.length) '=')) ∧
    (∀ t, ((∃ b, decode? t = some b) ∧ (∃ b, decodeBare? t = some b)) ↔
      Canonical t ∧ t.length%4 = 0 ∧ '=' ∉ t) := by
  refine ⟨fun t b => ⟨decode?_eq_some_iff, decodeBare?_eq_some_iff⟩, ?_, ?_, ?_⟩
  · intro b
    simp only [decode?_eq_some_iff, decodeBare?_eq_some_iff]
    exact ⟨existsUnique_eq, existsUnique_eq⟩
  · exact fun t => ⟨exists_decodeBare?_iff, exists_decode?_iff⟩
  · intro t
    rw [exists_decode?_and_exists_decodeBare?_iff]
    exact and_congr_right fun h => (and_iff_left h.notMem).symm

example : decode? "QQ==".toList = some [65] ∧ decode? "QR==".toList = none ∧
    decode? "QQ".toList = none ∧ decodeBare? "QQ".toList = some [65] := by decide

end BeaconSeal.Base64
