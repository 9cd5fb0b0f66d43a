import BeaconSeal.Bytes.Base64
import BeaconSeal.Proofs.Rows
import Mathlib.Data.List.TakeWhile
/-! Base64 is canonical. Main statements: in either form, a text is read as certain bytes
exactly when it is what is written for those bytes. -/
namespace BeaconSeal.Base64
open Cut

theorem value?_symbol {n : Nat} (h : n < 64) : value? (symbol n) = some n := by
  revert n
  decide

theorem symbol_of_value? {c : Char} {n : Nat} (h : value? c = some n) :
    n < 64 ∧ symbol n = c := by
  have le (a b : Char) : a ≤ b ↔ a.toNat ≤ b.toNat := Iff.rfl
  unfold value? at h
  simp only [le] at h
  split at h
  · next hc =>
    simp only [Char.reduceToNat, Option.some.injEq] at hc h
    have hs : symbol n = Char.ofNat (65+n) := by rw [symbol, if_pos (by omega)]
    exact ⟨by omega, by rw [hs, show 65+n = c.toNat by omega, Char.ofNat_toNat]⟩
  split at h
  · next hc =>
    simp only [Char.reduceToNat, Option.some.injEq] at hc h
    have hs : symbol n = Char.ofNat (71+n) := by
      rw [symbol, if_neg (by omega), if_pos (by omega)]
    exact ⟨by omega, by rw [hs, show 71+n = c.toNat by omega, Char.ofNat_toNat]⟩
  split at h
  · next hc =>
    simp only [Char.reduceToNat, Option.some.injEq] at hc h
    have hs : symbol n = Char.ofNat (n-4) := by
      rw [symbol, if_neg (by omega), if_neg (by omega), if_pos (by omega)]
    exact ⟨by omega, by rw [hs, show n-4 = c.toNat by omega, Char.ofNat_toNat]⟩
  split at h
  · next hc =>
    cases h
    exact ⟨by decide, hc.symm⟩
  split at h
  · next hc =>
    cases h
    exact ⟨by decide, hc.symm⟩
  · cases h

theorem mapM_value?_eq_some_iff {t : List Char} {vs : List Nat} :
    t.mapM value? = some vs ↔ (∀ v ∈ vs, v < 64) ∧ t = vs.map symbol := by
  induction t generalizing vs with
  | nil => cases vs <;> simp
  | cons c t ih =>
    simp only [List.mapM_cons, Option.bind_eq_bind, Option.bind_eq_some_iff, Option.pure_def,
      Option.some.injEq]
    constructor
    · rintro ⟨v, hv, ws, hws, rfl⟩
      obtain ⟨hlt, hs⟩ := symbol_of_value? hv
      obtain ⟨hlts, rfl⟩ := ih.1 hws
      exact ⟨by simpa using ⟨hlt, hlts⟩, by simp [hs]⟩
    · rintro ⟨hvs, ht⟩
      cases vs with
      | nil => cases ht
      | cons v vs =>
        obtain ⟨rfl, rfl⟩ := List.cons.inj ht
        simp only [List.mem_cons, forall_eq_or_imp] at hvs
        exact ⟨v, value?_symbol hvs.1, vs, ih.2 ⟨hvs.2, rfl⟩, rfl⟩

def groupValues : Bytes → List Nat
  | [a] => [a.toNat/4, a.toNat%4*16]
  | [a, b] => [a.toNat/4, a.toNat%4*16 + b.toNat/16, b.toNat%16*4]
  | [a, b, c] => [a.toNat/4, a.toNat%4*16 + b.toNat/16, b.toNat%16*4 + c.toNat/64, c.toNat%64]
  | _ => []

theorem encodeGroup_eq (g : Bytes) : encodeGroup g = (groupValues g).map symbol := by
  match g with
  | [] | [_] | [_, _] | [_, _, _] | _ :: _ :: _ :: _ :: _ => rfl

theorem groupValues_lt (g : Bytes) : ∀ v ∈ groupValues g, v < 64 := by
  intro v hv
  match g with
  | [] | _ :: _ :: _ :: _ :: _ => cases hv
  | [a] =>
    have := a.toNat_lt
    simp only [groupValues, List.mem_cons, List.not_mem_nil, or_false] at hv
    omega
  | [a, b] =>
    have := a.toNat_lt
    have := b.toNat_lt
    simp only [groupValues, List.mem_cons, List.not_mem_nil, or_false] at hv
    omega
  | [a, b, c] =>
    have := a.toNat_lt
    have := b.toNat_lt
    have := c.toNat_lt
    simp only [groupValues, List.mem_cons, List.not_mem_nil, or_false] at hv
    omega

theorem joinValues_groupValues {g : Bytes} (h : g.length ≤ 3) :
    joinValues (groupValues g) = some g := by
  have ofNat (a : UInt8) (n : Nat) (hn : n = a.toNat) : UInt8.ofNat n = a := by
    rw [hn, UInt8.ofNat_toNat]
  match g with
  | [] => rfl
  | [a] =>
    rw [groupValues, joinValues, if_pos (by omega), ofNat a _ (by omega)]
  | [a, b] =>
    have := b.toNat_lt
    rw [groupValues, joinValues, if_pos (by omega), ofNat a _ (by omega), ofNat b _ (by omega)]
  | [a, b, c] =>
    have := b.toNat_lt
    have := c.toNat_lt
    rw [groupValues, joinValues, ofNat a _ (by omega), ofNat b _ (by omega), ofNat c _ (by omega)]
  | _ :: _ :: _ :: _ :: _ =>
    simp only [List.length_cons] at h
    omega

theorem groupValues_of_joinValues {vs : List Nat} {g : Bytes} (h : joinValues vs = some g)
    (hvs : ∀ v ∈ vs, v < 64) : g.length ≤ 3 ∧ groupValues g = vs := by
  match vs with
  | [] => cases h; exact ⟨by decide, rfl⟩
  | [_] => cases h
  | [a, b] =>
    simp only [List.mem_cons, List.not_mem_nil, forall_eq_or_imp] at hvs
    rw [joinValues] at h
    split at h
    · cases h
      refine ⟨by simp, ?_⟩
      simp only [groupValues, UInt8.toNat_ofNat', List.cons.injEq, and_true]
      omega
    · cases h
  | [a, b, c] =>
    simp only [List.mem_cons, List.not_mem_nil, forall_eq_or_imp] at hvs
    rw [joinValues] at h
    split at h
    · cases h
      refine ⟨by simp, ?_⟩
      simp only [groupValues, UInt8.toNat_ofNat', List.cons.injEq, and_true]
      omega
    · cases h
  | [a, b, c, d] =>
    simp only [List.mem_cons, List.not_mem_nil, forall_eq_or_imp] at hvs
    cases h
    refine ⟨by simp, ?_⟩
    simp only [groupValues, UInt8.toNat_ofNat', List.cons.injEq, and_true]
    omega
  | _ :: _ :: _ :: _ :: _ :: _ => cases h

theorem decodeGroup_eq_some_iff {t : List Char} {g : Bytes} :
    decodeGroup t = some g ↔ g.length ≤ 3 ∧ t = encodeGroup g := by
  simp only [decodeGroup, Option.bind_eq_bind, Option.bind_eq_some_iff, mapM_value?_eq_some_iff]
  constructor
  · rintro ⟨vs, ⟨hvs, rfl⟩, hg⟩
    obtain ⟨hlen, rfl⟩ := groupValues_of_joinValues hg hvs
    exact ⟨hlen, (encodeGroup_eq g).symm⟩
  · rintro ⟨hlen, rfl⟩
    exact ⟨groupValues g, ⟨groupValues_lt g, encodeGroup_eq g⟩, joinValues_groupValues hlen⟩

/-- A full group fills a row of the text, and only a full one does. -/
theorem length_encodeGroup {g : Bytes} (h : g.length ≤ 3) :
    (encodeGroup g).length = 4 ∧ g.length = 3 ∨ (encodeGroup g).length < 4 ∧ g.length < 3 := by
  match g with
  | [] | [_] | [_, _] | [_, _, _] => simp [encodeGroup]
  | _ :: _ :: _ :: _ :: _ =>
    simp only [List.length_cons] at h
    omega

theorem encodeBare_of_lt {b : Bytes} (h : b.length < 3) : encodeBare b = encodeGroup b := by
  simp [encodeBare, rows_of_lt h]

theorem encodeBare_append {g : Bytes} (hg : g.length = 3) (b : Bytes) :
    encodeBare (g ++ b) = encodeGroup g ++ encodeBare b := by
  simp [encodeBare, rows_append (by decide : 0 < 3) hg]

theorem decodeBare?_of_lt {t : List Char} (h : t.length < 4) : decodeBare? t = decodeGroup t := by
  simp only [decodeBare?, rows_of_lt h, List.mapM_cons, List.mapM_nil]
  cases h : decodeGroup t <;> simp

theorem decodeBare?_append_eq_some_iff {q : List Char} (hq : q.length = 4) {t : List Char}
    {b : Bytes} : decodeBare? (q ++ t) = some b ↔
      ∃ g b', decodeGroup q = some g ∧ decodeBare? t = some b' ∧ b = g ++ b' := by
  simp only [decodeBare?, rows_append (by decide : 0 < 4) hq, List.mapM_cons]
  cases decodeGroup q <;> cases (rows 4 t).mapM decodeGroup <;> simp [eq_comm]

theorem decodeBare?_encodeBare (b : Bytes) : decodeBare? (encodeBare b) = some b := by
  induction b using rows_induction (by decide : 0 < 3) with
  | short b h =>
    have hg : decodeGroup (encodeGroup b) = some b := decodeGroup_eq_some_iff.2 ⟨by omega, rfl⟩
    have hlen := length_encodeGroup (g := b) (by omega)
    rw [encodeBare_of_lt h, decodeBare?_of_lt (by omega), hg]
  | full g b hlen ih =>
    have hg : decodeGroup (encodeGroup g) = some g := decodeGroup_eq_some_iff.2 ⟨by omega, rfl⟩
    have hq := length_encodeGroup (g := g) (by omega)
    rw [encodeBare_append hlen]
    exact (decodeBare?_append_eq_some_iff (by omega)).2 ⟨g, b, hg, ih, rfl⟩

theorem eq_encodeBare_of_decodeBare? {t : List Char} {b : Bytes} (h : decodeBare? t = some b) :
    t = encodeBare b := by
  induction t using rows_induction (by decide : 0 < 4) generalizing b with
  | short t ht =>
    rw [decodeBare?_of_lt ht] at h
    obtain ⟨hlen, rfl⟩ := decodeGroup_eq_some_iff.1 h
    have := length_encodeGroup hlen
    rw [encodeBare_of_lt (by omega)]
  | full q t hq ih =>
    obtain ⟨g, b', hg, hb, rfl⟩ := (decodeBare?_append_eq_some_iff hq).1 h
    obtain ⟨hlen, rfl⟩ := decodeGroup_eq_some_iff.1 hg
    have := length_encodeGroup hlen
    rw [encodeBare_append (by omega), ← ih hb]

theorem decodeBare?_eq_some_iff {t : List Char} {b : Bytes} :
    decodeBare? t = some b ↔ t = encodeBare b :=
  ⟨eq_encodeBare_of_decodeBare?, fun h => h ▸ decodeBare?_encodeBare b⟩

theorem mem_encodeBare {b : Bytes} {c : Char} (h : c ∈ encodeBare b) :
    ∃ n < 64, c = symbol n := by
  obtain ⟨g, _, hc⟩ := List.mem_flatMap.mp h
  rw [encodeGroup_eq] at hc
  obtain ⟨n, hn, rfl⟩ := List.mem_map.mp hc
  exact ⟨n, groupValues_lt g n hn, rfl⟩

/-- Symbols are of seven bits, show on paper, and are no padding. -/
theorem symbol_graphic {n : Nat} (h : n < 64) :
    0x21 ≤ (symbol n).toNat ∧ (symbol n).toNat ≤ 0x7e ∧ symbol n ≠ '=' := by
  revert n
  decide

theorem newline_notMem_encodeBare (b : Bytes) : '\n' ∉ encodeBare b := by
  intro hc
  obtain ⟨n, hn, hnl⟩ := mem_encodeBare hc
  have hg := (symbol_graphic hn).1
  rw [← hnl] at hg
  exact absurd hg (by decide)

theorem graphic_of_mem_encode {b : Bytes} {c : Char} (h : c ∈ encode b) :
    0x21 ≤ c.toNat ∧ c.toNat ≤ 0x7e := by
  rcases List.mem_append.1 h with h | h
  · obtain ⟨n, hn, rfl⟩ := mem_encodeBare h
    exact ⟨(symbol_graphic hn).1, (symbol_graphic hn).2.1⟩
  · obtain rfl := List.eq_of_mem_replicate h
    decide

/-- The text without its padding. -/
theorem dropWhile_encode (b : Bytes) :
    ((encode b).reverse.dropWhile (· = '=')).reverse = encodeBare b := by
  have hbare : (encodeBare b).reverse.dropWhile (· = '=') = (encodeBare b).reverse := by
    refine List.dropWhile_eq_self_iff.2 ?_
    intro hl
    obtain ⟨n, hn, hc⟩ := mem_encodeBare (List.mem_reverse.1 (List.getElem_mem hl))
    simp [hc, (symbol_graphic hn).2.2]
  rw [encode, pad, List.reverse_append, List.reverse_replicate,
    List.dropWhile_append_of_pos (by simp), hbare, List.reverse_reverse]

theorem decode?_eq_some_iff {t : List Char} {b : Bytes} :
    decode? t = some b ↔ t = encode b := by
  constructor
  · intro h
    simp only [decode?] at h
    split at h
    · next hp => rw [← hp, encode, ← decodeBare?_eq_some_iff.1 h]
    · cases h
  · rintro rfl
    simp only [decode?, dropWhile_encode]
    rw [if_pos (by rfl), decodeBare?_encodeBare]

end BeaconSeal.Base64
