import Disclosure.Issuer
import Disclosure.Proofs.Bytes.Hex
import Disclosure.Proofs.Field

/-! The wire form of issuer payloads.

A payload has a text when its six elements are in the field: 64 lower-case digits for each. A
text is read when behind its prefixes it is such digits in either case, and writing what was
read gives them back in lower case (`wire_roundTrips`). -/
namespace Disclosure.BabyJubJub
open Hex (prefixes)
open Text (IsDigit IsHexDigit number)

/-- A text in wire form: any number of prefixes, and 384 hexadecimal digits. -/
structure IsWire (source : String) (digits : List Char) : Prop where
  prefixed : ∃ count, source.toList = prefixes count ++ digits
  length : digits.length = 384
  hexadecimal : ∀ c ∈ digits, IsHexDigit c

/-- The six numbers that the digits write. -/
def wireNumbers (digits : List Char) : List Nat :=
  (Bytes.chunks 64 6 digits).map (number 16)

def IsLowerDigit (c : Char) : Prop :=
  IsDigit c ∨ 'a' ≤ c ∧ c ≤ 'f'

/-- What writing payloads and reading texts owe each other. -/
structure RoundTrips (encode : Payload → Except Error String)
    (parse : String → Except Error Payload) : Prop where
  encodes : ∀ p : Payload, (∃ text, encode p = .ok text) ↔ ∀ n ∈ p.elements, n < Field.order
  lower : ∀ p text, encode p = .ok text →
    text.toList.length = 384 ∧ ∀ c ∈ text.toList, IsLowerDigit c
  /-- Prefixes and letter case do not matter. -/
  recovers : ∀ p text source digits count, encode p = .ok text → digits.map Char.toLower = text.toList →
    source.toList = prefixes count ++ digits → parse source = .ok p
  accepts : ∀ source p, parse source = .ok p ↔
    ∃ digits, IsWire source digits ∧
      (∀ n ∈ wireNumbers digits, n < Field.order) ∧ p.elements = wireNumbers digits
  rewrites : ∀ source p digits, parse source = .ok p → IsWire source digits →
    encode p = .ok (String.ofList (digits.map Char.toLower))
  malformed : ∀ source, (∃ fault, parse source = .error (.invalidProof fault)) ↔
    ∀ digits, ¬IsWire source digits
  /-- The first chunk that is out of the field is named. -/
  outOfField : ∀ source n, parse source = .error (.invalidElement (.outOfField n)) ↔
    ∃ digits, IsWire source digits ∧ (wireNumbers digits).find? (Field.order ≤ ·) = some n

variable {p : Payload} {source text : String} {digits : List Char} {bytes : Bytes}

/-! ### Writing -/

theorem encode_eq_ok_iff : encode p = .ok text ↔
    (∀ n ∈ p.elements, n < Field.order) ∧
    text = Hex.encode (p.elements.flatMap (Bytes.toBigEndian 32)) := by
  unfold encode
  rw [Outcome.bind_eq_ok_iff]
  constructor
  · intro h
    obtain ⟨es, hes, h⟩ := h
    cases h
    rw [Field.toElements_eq_ok_iff.mp hes]
    refine ⟨fun n hn => ?_, by rw [List.flatMap_map]; rfl⟩
    obtain ⟨e, _, rfl⟩ := List.mem_map.mp hn
    exact e.isLt
  · intro h
    obtain ⟨hlt, rfl⟩ := h
    obtain ⟨es, hes⟩ := Field.exists_elements hlt
    exact ⟨es, Field.toElements_eq_ok_iff.mpr hes, by rw [hes, List.flatMap_map]; rfl⟩

theorem length_elements (p : Payload) : p.elements.length = 6 := rfl

/-- Two digits of a text make one byte. -/
theorem wireNumbers_eq (h : digits.map Char.toLower = (Hex.encode bytes).toList) :
    wireNumbers digits = (Bytes.chunks 32 6 bytes).map Bytes.ofBigEndian :=
  @Hex.number_chunks digits bytes 32 6 h

/-- The text of a payload writes its elements. -/
theorem wireNumbers_of_encode (h : encode p = .ok text) (hlower : digits.map Char.toLower = text.toList) :
    wireNumbers digits = p.elements := by
  obtain ⟨hlt, rfl⟩ := encode_eq_ok_iff.mp h
  have hchunks := Bytes.chunks_flatMap (Bytes.length_toBigEndian 32) p.elements
  rw [length_elements] at hchunks
  rw [wireNumbers_eq hlower, hchunks, List.map_map]
  refine (List.map_congr_left fun n hn => ?_).trans (List.map_id p.elements)
  exact Bytes.ofBigEndian_toBigEndian (Field.lt_pow_of_lt_order (hlt n hn))

theorem length_of_encode (h : encode p = .ok text) : text.toList.length = 384 := by
  obtain ⟨_, rfl⟩ := encode_eq_ok_iff.mp h
  rw [Hex.length_encode, List.length_flatMap]
  simp [length_elements]

theorem isLowerDigit_of_encode (h : encode p = .ok text)
    {c : Char} (hc : c ∈ text.toList) : IsLowerDigit c := by
  obtain ⟨_, rfl⟩ := encode_eq_ok_iff.mp h
  obtain ⟨n, hn, rfl⟩ := Hex.exists_of_mem_encode hc
  unfold IsLowerDigit IsDigit
  interval_cases n <;> decide

theorem isWire_of_encode {count : Nat} (h : encode p = .ok text)
    (hlower : digits.map Char.toLower = text.toList)
    (hsource : source.toList = prefixes count ++ digits) : IsWire source digits := by
  refine ⟨⟨count, hsource⟩, ?_, fun c hc => ?_⟩
  · rw [← List.length_map Char.toLower, hlower, length_of_encode h]
  · obtain ⟨_, rfl⟩ := encode_eq_ok_iff.mp h
    exact Hex.isHexDigit_of_lower hlower hc

/-! ### Reading -/

theorem exists_bytes_of_isWire (h : IsWire source digits) : ∃ bytes : Bytes, bytes.length = payloadWidth ∧
    Hex.decode (Hex.stripped source.toList) = .ok bytes ∧
    digits.map Char.toLower = (Hex.encode bytes).toList := by
  obtain ⟨count, hsource⟩ := h.prefixed
  have hlength : digits.length = 2 * payloadWidth := h.length
  obtain ⟨bytes, hbytes, hdecode⟩ := Hex.exists_of_hexDigits hlength h.hexadecimal
  refine ⟨bytes, hbytes, ?_, Hex.decode_eq_ok_iff.mp hdecode⟩
  rw [hsource, Hex.stripped_prefixes, Hex.stripped_of_hexDigits h.hexadecimal, hdecode]

theorem isWire_of_decode (h : Hex.decode (Hex.stripped source.toList) = .ok bytes)
    (hlength : bytes.length = payloadWidth) :
    IsWire source (Hex.stripped source.toList) := by
  have hlower := Hex.decode_eq_ok_iff.mp h
  refine ⟨Hex.exists_prefixes source.toList, ?_, fun c hc => Hex.isHexDigit_of_lower hlower hc⟩
  rw [← List.length_map Char.toLower, hlower, Hex.length_encode, hlength]
  rfl

/-- The elements are read in order, and the first that is out of the field ends the reading. -/
theorem parse_of_decode (h : Hex.decode (Hex.stripped source.toList) = .ok bytes)
    (hlength : bytes.length = payloadWidth) :
    Outcome.FirstOf (((Bytes.chunks 32 6 bytes).map Bytes.ofBigEndian).flatMap Field.faults)
      (parse source) ∧
      ∀ p, parse source = .ok p → p.elements = (Bytes.chunks 32 6 bytes).map Bytes.ofBigEndian := by
  have hparse : parse source = (do
      let root ← elementAt bytes 0
      let x ← elementAt bytes 1
      let y ← elementAt bytes 2
      let r8x ← elementAt bytes 3
      let r8y ← elementAt bytes 4
      let s ← elementAt bytes 5
      .ok ⟨root, (x, y), (r8x, r8y, s)⟩) := by
    unfold parse
    rw [h]
    show (if bytes.length ≠ payloadWidth then _ else _) = _
    rw [if_neg (not_not_intro hlength)]
  rw [hparse]
  simp only [Bytes.chunks, List.map_cons, List.map_nil, List.flatMap_cons, List.flatMap_nil, List.drop_drop]
  constructor
  · refine (Field.firstOf_ofBytes _).bind fun _ _ => ?_
    refine (Field.firstOf_ofBytes _).bind fun _ _ => ?_
    refine (Field.firstOf_ofBytes _).bind fun _ _ => ?_
    refine (Field.firstOf_ofBytes _).bind fun _ _ => ?_
    refine (Field.firstOf_ofBytes _).bind fun _ _ => ?_
    exact (Field.firstOf_ofBytes _).bind fun _ _ => .ok _
  · intro p h
    obtain ⟨root, hroot, h⟩ := Outcome.bind_eq_ok_iff.mp h
    obtain ⟨x, hx, h⟩ := Outcome.bind_eq_ok_iff.mp h
    obtain ⟨y, hy, h⟩ := Outcome.bind_eq_ok_iff.mp h
    obtain ⟨r8x, hr8x, h⟩ := Outcome.bind_eq_ok_iff.mp h
    obtain ⟨r8y, hr8y, h⟩ := Outcome.bind_eq_ok_iff.mp h
    obtain ⟨s, hs, h⟩ := Outcome.bind_eq_ok_iff.mp h
    cases h
    rw [Field.ofBytes_eq hroot, Field.ofBytes_eq hx, Field.ofBytes_eq hy, Field.ofBytes_eq hr8x,
      Field.ofBytes_eq hr8y, Field.ofBytes_eq hs]
    rfl

/-- A text in wire form is refused for its numbers only. -/
theorem parse_of_isWire (h : IsWire source digits) :
    Outcome.FirstOf ((wireNumbers digits).flatMap Field.faults) (parse source) ∧
      ∀ p, parse source = .ok p → p.elements = wireNumbers digits := by
  obtain ⟨bytes, hlength, hdecode, hlower⟩ := exists_bytes_of_isWire h
  rw [wireNumbers_eq hlower]
  exact parse_of_decode hdecode hlength

/-- Any other text is refused for its form. -/
theorem parse_of_not_isWire (h : ∀ digits, ¬IsWire source digits) :
    ∃ fault, parse source = .error (.invalidProof fault) := by
  unfold parse
  cases hdecode : Hex.decode (Hex.stripped source.toList) with
  | error fault => exact ⟨.hex fault, rfl⟩
  | ok bytes =>
    have hlength : bytes.length ≠ payloadWidth := fun hlength => h _ (isWire_of_decode hdecode hlength)
    refine ⟨.length payloadWidth bytes.length, ?_⟩
    show (if bytes.length ≠ payloadWidth then _ else _) = _
    rw [if_pos hlength]

theorem error_of_isWire (h : IsWire source digits) {e : Error} (he : parse source = .error e) :
    ∃ n, (wireNumbers digits).find? (Field.order ≤ ·) = some n ∧ e = .invalidElement (.outOfField n) :=
  Field.head?_flatMap_faults.mp (((parse_of_isWire h).1.error_iff e).mp he)

theorem exists_isWire_of_parse (source : String)
    (h : ∀ fault, parse source ≠ .error (.invalidProof fault)) :
    ∃ digits, IsWire source digits := by
  by_contra hnone
  obtain ⟨fault, hfault⟩ := parse_of_not_isWire fun digits hdigits => hnone ⟨digits, hdigits⟩
  exact h fault hfault

theorem elements_inj {q : Payload} (h : p.elements = q.elements) : p = q := by
  obtain ⟨root, ⟨x, y⟩, r8x, r8y, s⟩ := p
  obtain ⟨root', ⟨x', y'⟩, r8x', r8y', s'⟩ := q
  simp only [Payload.elements, Payload.issuerKeyElements, Payload.signatureElements, List.cons_append,
    List.nil_append, List.cons.injEq, and_true] at h
  simp only [h]

theorem parse_eq_ok_iff : parse source = .ok p ↔
    ∃ digits, IsWire source digits ∧ (∀ n ∈ wireNumbers digits, n < Field.order) ∧
      p.elements = wireNumbers digits := by
  constructor
  · intro h
    obtain ⟨digits, hwire⟩ := exists_isWire_of_parse source (by rw [h]; exact nofun)
    obtain ⟨hfirst, helements⟩ := parse_of_isWire hwire
    have hnone := List.flatMap_eq_nil_iff.mp (hfirst.ok_iff.mp ⟨p, h⟩)
    exact ⟨digits, hwire, fun n hn => Field.faults_eq_nil_iff.mp (hnone n hn), helements p h⟩
  · intro h
    obtain ⟨digits, hwire, hlt, hp⟩ := h
    obtain ⟨hfirst, helements⟩ := parse_of_isWire hwire
    have hnone : (wireNumbers digits).flatMap Field.faults = [] :=
      List.flatMap_eq_nil_iff.mpr fun n hn => Field.faults_eq_nil_iff.mpr (hlt n hn)
    obtain ⟨q, hq⟩ := hfirst.ok_iff.mpr hnone
    rw [hq, elements_inj (hp.trans (helements q hq).symm)]

theorem lt_of_parse (h : parse source = .ok p) : ∀ n ∈ p.elements, n < Field.order := by
  obtain ⟨_, _, hlt, helements⟩ := parse_eq_ok_iff.mp h
  rwa [helements]

/-- The digits of a text that was read are its payload's text, but for their case. -/
theorem encode_of_parse (h : parse source = .ok p) (hwire : IsWire source digits) :
    encode p = .ok (String.ofList (digits.map Char.toLower)) := by
  obtain ⟨bytes, hlength, hdecode, hlower⟩ := exists_bytes_of_isWire hwire
  have hchunks : (Bytes.chunks 32 6 bytes).flatMap
      (fun chunk => Bytes.toBigEndian 32 (Bytes.ofBigEndian chunk)) = bytes := by
    have hcount : bytes.length = 6 * 32 := hlength
    have hsame : ∀ chunk ∈ Bytes.chunks 32 6 bytes,
        Bytes.toBigEndian 32 (Bytes.ofBigEndian chunk) = chunk :=
      fun chunk hchunk => Bytes.toBigEndian_ofBigEndian (Bytes.length_of_mem_chunks hcount hchunk)
    rw [List.flatMap_congr hsame, List.flatMap_id', Bytes.flatten_chunks hcount]
  refine encode_eq_ok_iff.mpr ⟨lt_of_parse h, ?_⟩
  rw [hlower, String.ofList_toList, (parse_of_decode hdecode hlength).2 p h, List.flatMap_map, hchunks]

/-- **Payloads and their wire form round-trip in both directions.** -/
theorem wire_roundTrips : RoundTrips encode parse where
  encodes p :=
    ⟨fun ⟨_, h⟩ => (encode_eq_ok_iff.mp h).1, fun h => ⟨_, encode_eq_ok_iff.mpr ⟨h, rfl⟩⟩⟩
  lower _ _ h := ⟨length_of_encode h, fun _ hc => isLowerDigit_of_encode h hc⟩
  recovers p text source digits count h hlower hsource := by
    have hwire := isWire_of_encode h hlower hsource
    have hnumbers := wireNumbers_of_encode h hlower
    refine parse_eq_ok_iff.mpr ⟨digits, hwire, ?_, hnumbers.symm⟩
    rw [hnumbers]
    exact (encode_eq_ok_iff.mp h).1
  accepts _ _ := parse_eq_ok_iff
  rewrites _ _ _ h hwire := encode_of_parse h hwire
  malformed source := by
    constructor
    · intro h digits hwire
      obtain ⟨fault, hfault⟩ := h
      obtain ⟨n, _, hn⟩ := error_of_isWire hwire hfault
      cases hn
    · exact parse_of_not_isWire
  outOfField source n := by
    constructor
    · intro h
      obtain ⟨digits, hwire⟩ := exists_isWire_of_parse source (by rw [h]; exact nofun)
      obtain ⟨m, hm, heq⟩ := error_of_isWire hwire h
      cases heq
      exact ⟨digits, hwire, hm⟩
    · intro h
      obtain ⟨digits, hwire, hn⟩ := h
      exact ((parse_of_isWire hwire).1.error_iff _).mpr (Field.head?_flatMap_faults.mpr ⟨n, hn, rfl⟩)

/-- The digits of six small numbers. -/
def paddedDigits (last : List Char) : List Char :=
  last.flatMap (List.replicate 63 '0' ++ [·])

/-- A payload is read behind two prefixes, with a digit in upper case. -/
theorem prefixedPayload_roundTrips :
    encode ⟨1, (2, 3), (4, 5, 11)⟩ = .ok (String.ofList (paddedDigits ['1', '2', '3', '4', '5', 'b'])) ∧
      parse (String.ofList (prefixes 2 ++ paddedDigits ['1', '2', '3', '4', '5', 'B'])) =
        .ok ⟨1, (2, 3), (4, 5, 11)⟩ := by
  have hencode : encode ⟨1, (2, 3), (4, 5, 11)⟩ =
      .ok (String.ofList (paddedDigits ['1', '2', '3', '4', '5', 'b'])) :=
    encode_eq_ok_iff.mpr ⟨by decide, congrArg String.ofList (by decide +kernel)⟩
  refine ⟨hencode, wire_roundTrips.recovers _ _ _ _ 2 hencode ?_ String.toList_ofList⟩
  rw [String.toList_ofList]
  decide +kernel

end Disclosure.BabyJubJub
