import BeaconSeal.Chain.Document
import BeaconSeal.Proofs.Members
import BeaconSeal.Proofs.Writable
/-! Descriptions of a chain as JSON documents. Main statement: however a validated description is
laid out as an object, with whatever other members, just that description is read from it; an
object in which a known member is repeated or a required one is missing is refused. -/
namespace BeaconSeal.ChainInfo
open Json

section Raw
variable {t v : Text} {rs : List (Text × Text)} {raw : Raw}

theorem readMetadata_eq_some_iff {id : Text} (h : object? v = some rs) :
    readMetadata v = some id ↔ Field rs "beaconID" text? id := by
  have hnames (v : Option Text) : ["beaconID".toList].mapM (single rs) = some [v] ↔
      single rs "beaconID".toList = some v := by
    rw [mapM_eq_some_iff]
    simp
  rw [readMetadata, record_of_object? _ h]
  constructor
  · intro hid
    split at hid
    next v heq => exact ⟨v, (hnames _).1 heq, hid⟩
    · cases hid
  · intro hid
    obtain ⟨v, hv, hid⟩ := hid
    rw [(hnames _).2 hv]
    exact hid

/-- The members of an object make a description when each field is there and can be read. -/
theorem readRaw_eq_some_iff (hdoc : document? t = some v) (h : object? v = some rs) :
    readRaw t = some raw ↔ Field rs "public_key" text? raw.publicKey ∧
      Field rs "period" word? raw.period ∧ Field rs "genesis_time" word? raw.genesisTime ∧
      Field rs "hash" text? raw.hash ∧ Field rs "schemeID" text? raw.scheme ∧
      ∃ metadata id, single rs "metadata".toList = some metadata ∧
        optional? readMetadata metadata = some id ∧ id.getD [] = raw.beaconId := by
  have hnames (key period genesis hash scheme metadata : Option Text) :
      fieldNames.mapM (single rs) = some [key, period, genesis, hash, scheme, metadata] ↔
        single rs "public_key".toList = some key ∧ single rs "period".toList = some period ∧
        single rs "genesis_time".toList = some genesis ∧ single rs "hash".toList = some hash ∧
        single rs "schemeID".toList = some scheme ∧
        single rs "metadata".toList = some metadata := by
    rw [mapM_eq_some_iff]
    simp [fieldNames]
  simp only [readRaw, hdoc, Option.bind_eq_bind, Option.bind_some, record_of_object? _ h]
  constructor
  · intro hraw
    split at hraw
    next key period genesis hash scheme metadata heq =>
      obtain ⟨hkey, hperiod, hgenesis, hhash, hscheme, hmetadata⟩ := (hnames _ _ _ _ _ _).1 heq
      simp only [Option.bind_eq_some_iff, Option.some.injEq] at hraw
      obtain ⟨k, hk, p, hp, g, hg, d, hd, s, hs, id, hid, rfl⟩ := hraw
      exact ⟨⟨key, hkey, hk⟩, ⟨period, hperiod, hp⟩, ⟨genesis, hgenesis, hg⟩, ⟨hash, hhash, hd⟩,
        ⟨scheme, hscheme, hs⟩, metadata, id, hmetadata, hid, rfl⟩
    · cases hraw
  · intro hraw
    obtain ⟨⟨key, hkey, hk⟩, ⟨period, hperiod, hp⟩, ⟨genesis, hgenesis, hg⟩, ⟨hash, hhash, hd⟩,
      ⟨scheme, hscheme, hs⟩, metadata, id, hmetadata, hid, hbeacon⟩ := hraw
    rw [(hnames _ _ _ _ _ _).2 ⟨hkey, hperiod, hgenesis, hhash, hscheme, hmetadata⟩]
    simp [hk, hp, hg, hd, hs, hid, hbeacon]

end Raw

def HexQuoted (b : Bytes) (v : Text) : Prop := ∃ s, s.map Char.toLower = Hex.encode b ∧ Quoted s v

def Metadata (id v : Text) : Prop := ∃ ms, Object ms v ∧ Once ms "beaconID" (Quoted id)

/-- Each field is written once, in any place, and other members have other names. Without a name
the beacon needs no metadata. -/
structure Describes (ms : List Member) (info : ChainInfo) : Prop where
  publicKey : Once ms "public_key" (HexQuoted info.publicKey)
  period : Once ms "period" (fun v => v = Text.ofNat info.period.toNat)
  genesisTime : Once ms "genesis_time" (fun v => v = Text.ofNat info.genesisTime.toNat)
  hash : Once ms "hash" (HexQuoted info.hash)
  scheme : Once ms "schemeID" (Quoted info.scheme.name)
  metadata : Once ms "metadata" (Metadata info.beaconId) ∨ info.beaconId = [] ∧
    (Once ms "metadata" (fun v => v = "null".toList) ∨ ∀ m ∈ ms, m.name ≠ "metadata".toList)

/-- A field is repeated, or one is missing that must be there. -/
inductive Unfit (ms : List Member) : Prop
  | repeated {name} : name ∈ fieldNames → 2 ≤ (ms.filter (fun m => m.name = name)).length → Unfit ms
  | missing {name} : name ∈ fieldNames → name ≠ "metadata".toList → (∀ m ∈ ms, m.name ≠ name) →
    Unfit ms
  | beaconId {m ns} : m ∈ ms → m.name = "metadata".toList → Object ns m.value →
    (ns.filter (fun n => n.name = "beaconID".toList)).length ≠ 1 → Unfit ms

section Documents
variable {E : PairingGroups} {ms : List Member} {rs : List (Text × Text)} {info : ChainInfo}
  {t v rest : Text}

theorem exists_members (h : Document ms t) : ∃ v rs, document? t = some v ∧ object? v = some rs ∧
    List.Forall₂ Reads ms rs := by
  obtain ⟨body, trail, hbody, hdoc⟩ := document?_append h
  obtain ⟨rs, hrs, hreads⟩ := object?_append hbody trail
  exact ⟨_, rs, hdoc, hrs, hreads⟩

theorem field_of_word {name : String} {n : UInt64} (h : List.Forall₂ Reads ms rs)
    (hone : Once ms name (fun v => v = Text.ofNat n.toNat)) : Field rs name word? n :=
  field_of_once h hone fun _ _ hv hrest => hv ▸ word?_append n hrest

theorem field_of_quoted {name : String} {s : Text} (h : List.Forall₂ Reads ms rs)
    (hone : Once ms name (Quoted s)) : Field rs name text? s :=
  field_of_once h hone fun _ rest hv _ => text?_append hv rest

theorem exists_field_of_hexQuoted {name : String} {b : Bytes} (h : List.Forall₂ Reads ms rs)
    (hone : Once ms name (HexQuoted b)) :
    ∃ s, Field rs name text? s ∧ Hex.decode (Text.utf8 s) = .ok b := by
  obtain ⟨m, hm, s, hs, hv⟩ := hone
  exact ⟨s, field_of_quoted h ⟨m, hm, hv⟩, Hex.decode_eq_ok_iff.2 hs⟩

theorem optional?_of_object (h : Object ms v) (rest : Text) :
    optional? readMetadata (some (v ++ rest)) = (readMetadata (v ++ rest)).map some := by
  cases h <;> rfl

theorem readMetadata_append {id : Text} (h : Metadata id v) (rest : Text) :
    optional? readMetadata (some (v ++ rest)) = some (some id) := by
  obtain ⟨ms, hobject, hone⟩ := h
  obtain ⟨rs, hrs, hreads⟩ := object?_append hobject rest
  rw [optional?_of_object hobject,
    (readMetadata_eq_some_iff hrs).2 (field_of_quoted hreads hone), Option.map_some]

/-- Metadata that are missing or null stand for an empty name. -/
theorem exists_metadata (h : List.Forall₂ Reads ms rs) (hinfo : Describes ms info) :
    ∃ metadata id, single rs "metadata".toList = some metadata ∧
      optional? readMetadata metadata = some id ∧ id.getD [] = info.beaconId := by
  rcases hinfo.metadata with ⟨m, hm, hv⟩ | ⟨hid, hnull | hnone⟩
  · obtain ⟨rest, -, hsingle⟩ := single_of_filter_eq h hm
    exact ⟨_, _, hsingle, readMetadata_append hv rest, rfl⟩
  · obtain ⟨m, hm, hv⟩ := hnull
    obtain ⟨rest, -, hsingle⟩ := single_of_filter_eq h hm
    rw [hv] at hsingle
    exact ⟨_, none, hsingle, rfl, hid.symm⟩
  · exact ⟨none, none, single_of_missing h hnone, rfl, hid.symm⟩

theorem ofJson_of_describes (hvalid : info.validate E = .ok ()) (hdoc : Document ms t)
    (hinfo : Describes ms info) : ofJson E t = .ok info := by
  obtain ⟨v, rs, hv, hrs, hreads⟩ := exists_members hdoc
  obtain ⟨key, hkey, hkeyHex⟩ := exists_field_of_hexQuoted hreads hinfo.publicKey
  obtain ⟨hash, hhash, hhashHex⟩ := exists_field_of_hexQuoted hreads hinfo.hash
  refine ofJson_eq_ok_iff.2 ⟨⟨key, info.period, info.genesisTime, hash, info.scheme.name,
    info.beaconId⟩, ?_, hhashHex, hkeyHex, Scheme.ofName_name _, rfl, rfl, rfl, hvalid⟩
  exact (readRaw_eq_some_iff hv hrs).2 ⟨hkey, field_of_word hreads hinfo.period,
    field_of_word hreads hinfo.genesisTime, hhash, field_of_quoted hreads hinfo.scheme,
    exists_metadata hreads hinfo⟩

theorem exists_metadata_of_id (id : Text) : ∃ v, Metadata id v ∧ Value v := by
  obtain ⟨v, hv⟩ := exists_quoted id
  have hname : ∀ c ∈ "beaconID".toList, Plain c := plain_of_all (by decide)
  obtain ⟨t, ht⟩ := exists_object [Member.bare "beaconID".toList v hname hv.value]
  exact ⟨t, ⟨_, ht, _, rfl, hv⟩, ht.value⟩

theorem exists_describes (info : ChainInfo) : ∃ ms, Describes ms info := by
  obtain ⟨key, hkey⟩ := exists_quoted (Hex.encode info.publicKey)
  obtain ⟨hash, hhash⟩ := exists_quoted (Hex.encode info.hash)
  obtain ⟨scheme, hscheme⟩ := exists_quoted info.scheme.name
  obtain ⟨metadata, hmetadata, hvalue⟩ := exists_metadata_of_id info.beaconId
  let ms : List Member := [
    .bare "public_key".toList key (plain_of_all (by decide)) hkey.value,
    .bare "period".toList _ (plain_of_all (by decide)) (.number (number_ofNat info.period.toNat)),
    .bare "genesis_time".toList _ (plain_of_all (by decide))
      (.number (number_ofNat info.genesisTime.toNat)),
    .bare "hash".toList hash (plain_of_all (by decide)) hhash.value,
    .bare "schemeID".toList scheme (plain_of_all (by decide)) hscheme.value,
    .bare "metadata".toList metadata (plain_of_all (by decide)) hvalue]
  refine ⟨ms, ⟨_, rfl, _, Hex.map_toLower_encode _, hkey⟩, ⟨_, rfl, rfl⟩, ⟨_, rfl, rfl⟩,
    ⟨_, rfl, _, Hex.map_toLower_encode _, hhash⟩, ⟨_, rfl, hscheme⟩, .inl ⟨_, rfl, hmetadata⟩⟩

/-- The descriptions that documents hold are the validated ones, every one of them. -/
theorem exists_ofJson_iff : (∃ t, ofJson E t = .ok info) ↔ info.validate E = .ok () := by
  constructor
  · intro h
    obtain ⟨t, ht⟩ := h
    exact validate_of_ofJson ht
  · intro hvalid
    obtain ⟨ms, hms⟩ := exists_describes info
    obtain ⟨t, ht⟩ := exists_document ms
    exact ⟨t, ofJson_of_describes hvalid ht hms⟩

/-- From a description each field is found, and all but the metadata have to be there. -/
theorem exists_single {raw : Raw} (hv : document? t = some v) (hrs : object? v = some rs)
    (hraw : readRaw t = some raw) {name : Text} (hname : name ∈ fieldNames) :
    ∃ found, single rs name = some found ∧ (name ≠ "metadata".toList → found.isSome) := by
  obtain ⟨⟨key, hkey, -⟩, ⟨period, hperiod, -⟩, ⟨genesis, hgenesis, -⟩, ⟨hash, hhash, -⟩,
    ⟨scheme, hscheme, -⟩, metadata, _, hmetadata, -⟩ := (readRaw_eq_some_iff hv hrs).1 hraw
  simp only [fieldNames, List.mem_cons, List.not_mem_nil, or_false] at hname
  rcases hname with rfl | rfl | rfl | rfl | rfl | rfl
  · exact ⟨_, hkey, fun _ => rfl⟩
  · exact ⟨_, hperiod, fun _ => rfl⟩
  · exact ⟨_, hgenesis, fun _ => rfl⟩
  · exact ⟨_, hhash, fun _ => rfl⟩
  · exact ⟨_, hscheme, fun _ => rfl⟩
  · exact ⟨_, hmetadata, fun h => absurd rfl h⟩

/-- In metadata that are read the name of the beacon is there once. -/
theorem length_filter_of_readMetadata {id : Option Text} (h : Object ms v)
    (hid : optional? readMetadata (some (v ++ rest)) = some id) :
    (ms.filter (fun m => m.name = "beaconID".toList)).length = 1 := by
  rw [optional?_of_object h, Option.map_eq_some_iff] at hid
  obtain ⟨id, hread, -⟩ := hid
  obtain ⟨rs, hrs, hreads⟩ := object?_append h rest
  obtain ⟨_, hsingle, -⟩ := (readMetadata_eq_some_iff hrs).1 hread
  exact length_filter_of_single hreads hsingle

theorem readRaw_of_unfit (hdoc : Document ms t) (h : Unfit ms) : readRaw t = none := by
  obtain ⟨v, rs, hv, hrs, hreads⟩ := exists_members hdoc
  rw [Option.eq_none_iff_forall_ne_some]
  intro raw hraw
  cases h with
  | repeated hname hmany =>
    obtain ⟨found, hfound, -⟩ := exists_single hv hrs hraw hname
    have hcount := length_filter_of_single hreads hfound
    have hle := found.length_toList_le
    omega
  | missing hname hne hnone =>
    obtain ⟨found, hfound, hsome⟩ := exists_single hv hrs hraw hname
    rw [single_of_missing hreads hnone] at hfound
    cases hfound
    cases hsome hne
  | @beaconId m ns hm hname hobject hlength =>
    obtain ⟨-, -, -, -, -, metadata, id, hmetadata, hid, -⟩ := (readRaw_eq_some_iff hv hrs).1 hraw
    have hmem : m ∈ ms.filter (fun m => m.name = "metadata".toList) := by simp [hm, hname]
    have hcount := length_filter_of_single hreads hmetadata
    -- the name is not repeated, so that the metadata are those of this member
    have hone : ms.filter (fun m => m.name = "metadata".toList) = [m] := by
      have hpos := List.length_pos_of_mem hmem
      have hle := metadata.length_toList_le
      have hlen : (ms.filter (fun m => m.name = "metadata".toList)).length = 1 := by omega
      obtain ⟨m', hm'⟩ := List.length_eq_one_iff.1 hlen
      rw [hm', List.mem_singleton] at hmem
      rw [hm', hmem]
    obtain ⟨rest, -, hsingle⟩ := single_of_filter_eq hreads hone
    rw [hsingle] at hmetadata
    cases hmetadata
    exact hlength (length_filter_of_readMetadata hobject hid)

/-- However a validated description is laid out, with the digits of its bytes in either case, with
blanks and escapes, with its members in any order and any others among them and in the metadata, it
is read as it is. Documents with a field too many or too few are refused for their form. The
validated descriptions are all that can be read. -/
theorem ofJson_any_layout (E : PairingGroups) :
    (∀ (info : ChainInfo) (ms : List Member) (t : Text), info.validate E = .ok () →
      Document ms t → Describes ms info → ofJson E t = .ok info) ∧
    (∀ (ms : List Member) (t : Text), Document ms t → Unfit ms →
      ofJson E t = .error (.invalidChainInfo .json)) ∧
    ∀ info : ChainInfo, (∃ t, ofJson E t = .ok info) ↔ info.validate E = .ok () := by
  refine ⟨fun info ms t => ofJson_of_describes, ?_, fun info => exists_ofJson_iff⟩
  intro ms t hdoc h
  rw [ofJson, readRaw_of_unfit hdoc h]

end Documents

/-! A document of a chain whose key is the generator. -/

section Generator
open Sealing (generatorKey validate_generator)

theorem quoted_plain {s : Text} (h : ∀ c ∈ s, Plain c) : Quoted s ('"' :: (s ++ ['"'])) :=
  ⟨s, spelled_plain h, rfl⟩

theorem blanks_space : Blanks [' '] := List.all_eq_true.1 (by decide)

/-- A string with half of a pair in it, and an object without members. -/
theorem value_unknown : Value "[\"\\ud800\", \x7b\x7d]".toList := by
  have hunit : FourDigits 0xd800 "d800".toList := by decide
  have hvalues : ∀ v ∈ ["\"\\ud800\"".toList, "\x7b\x7d".toList], Value v := by
    simp only [List.mem_cons, List.not_mem_nil, or_false, forall_eq_or_imp, forall_eq]
    exact ⟨.string (.unit hunit .nil), Object.value (.empty blanks_nil)⟩
  exact .array hvalues (.items (.cons blanks_nil blanks_nil (.one blanks_space blanks_nil)))

theorem spelled_escaped : Spelled "\\u0068ash".toList "hash".toList :=
  .unit (by decide : FourDigits 'h'.toNat "0068".toList)
    (spelled_plain (s := "ash".toList) (plain_of_all (by decide)))

def escapedHash : Member where
  name := "hash".toList
  key := "\\u0068ash".toList
  before := [' ']
  after := []
  value := '"' :: ("0A".toList ++ ['"'])
  spelled := spelled_escaped
  blanks_before := blanks_space
  blanks_after := blanks_nil
  isValue := (quoted_plain (plain_of_all (by decide))).value

def upperKey : Text := "97F1D3A73197D7942695638C4FA9AC0FC3688C4F9774B905".toList ++
  "A14E3A3F171BAC586C55E83FF97A1AEFFB3AF00ADB22C6BB".toList

theorem plain_upperKey : ∀ c ∈ upperKey, Plain c := plain_of_all (by decide)

theorem plain_unchained : ∀ c ∈ Scheme.unchained.name, Plain c := plain_of_all (by decide)

def periodMember : Member := .bare "period".toList _ (plain_of_all (by decide)) (.number (number_ofNat 3))

def looseMembers : List Member := [
  .bare "x".toList _ (plain_of_all (by decide)) value_unknown,
  escapedHash,
  periodMember,
  .bare "public_key".toList _ (plain_of_all (by decide)) (quoted_plain plain_upperKey).value,
  .bare "schemeID".toList _ (plain_of_all (by decide)) (quoted_plain plain_unchained).value,
  .bare "genesis_time".toList _ (plain_of_all (by decide)) (.number (number_ofNat 0))]

theorem describes_looseMembers :
    Describes looseMembers ⟨[10], generatorKey, 3, 0, .unchained, []⟩ where
  publicKey := ⟨_, rfl, upperKey, by decide +kernel, _, spelled_plain plain_upperKey, rfl⟩
  period := ⟨_, rfl, rfl⟩
  genesisTime := ⟨_, rfl, rfl⟩
  hash := ⟨_, rfl, "0A".toList, by decide, _, spelled_plain (plain_of_all (by decide)), rfl⟩
  scheme := ⟨_, rfl, _, spelled_plain plain_unchained, rfl⟩
  metadata := .inr ⟨rfl, .inr (by decide)⟩

/-- The loose members, and the same period twice. -/
theorem ofJson_any_layout_generator :
    ofJson bls12381 (" \x7b\"x\":[\"\\ud800\", \x7b\x7d], \"\\u0068ash\" :\"0A\",".toList ++
      "\"period\":3 ,\"public_key\":\"".toList ++ upperKey ++
      "\",\"schemeID\":\"pedersen-bls-unchained\",\"genesis_time\":0\x7d ".toList) =
        .ok ⟨[10], generatorKey, 3, 0, .unchained, []⟩ ∧
    ofJson bls12381 "\x7b\"period\":3,\"period\":3\x7d".toList =
      .error (.invalidChainInfo .json) := by
  constructor
  · refine (ofJson_any_layout bls12381).1 _ looseMembers _ (validate_generator [10]) ?_
      describes_looseMembers
    have hobject : Object looseMembers _ := .items (.cons blanks_nil blanks_nil
      (.cons blanks_space blanks_nil (.cons blanks_nil blanks_space (.cons blanks_nil blanks_nil
        (.cons blanks_nil blanks_nil (.one blanks_nil blanks_nil))))))
    exact ⟨[' '], _, [' '], blanks_space, hobject, blanks_space, by decide +kernel⟩
  · refine (ofJson_any_layout bls12381).2.1 [periodMember, periodMember] _ ?_
      (.repeated (by decide : "period".toList ∈ fieldNames) (by decide))
    have hobject : Object [periodMember, periodMember] _ :=
      .items (.cons blanks_nil blanks_nil (.one blanks_nil blanks_nil))
    exact ⟨[], _, [], blanks_nil, hobject, blanks_nil, rfl⟩

end Generator

end BeaconSeal.ChainInfo
