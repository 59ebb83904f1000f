import Disclosure.Json.Decoder
import Disclosure.Proofs.Claim.Flattening
import Disclosure.Proofs.Json.Printed
import Disclosure.Proofs.Field.Codec

/-! The numbers that scalars are committed as.

A text of digits is its number as long as that is in the field, whatever zeros it begins with,
and so agrees with the JSON number. Every other text is committed by the digest of its bytes,
even where the field would read a sign or underscores (`encode_canonical`). -/
namespace Disclosure.Claim
open Text (IsDigit)

/-- Digits and nothing else, at least one. -/
def AllDigits (text : String) : Prop :=
  text.toList ≠ [] ∧ ∀ c ∈ text.toList, IsDigit c

/-- A numeral behind zeros. -/
def zeroPadded (count n : Nat) : String :=
  String.ofList (List.replicate count '0' ++ (Decimal.write n).toList)

/-- The SHA-256 digest of the UTF-8 bytes of a text, read big-endian and reduced into the field. -/
def textDigest (text : String) : Nat :=
  Bytes.ofBigEndian (Sha256.digest (Text.bytes text)) % Field.order

variable {text : String} {n : Nat}

/-! ### Texts -/

theorem hashText_val (text : String) : (Field.hashText text).val = textDigest text := rfl

theorem allDigits_iff : AllDigits text ↔ text.toList ≠ [] ∧ text.toList.all Char.isDigit = true := by
  unfold AllDigits
  simp only [List.all_eq_true, Text.isDigit_iff]

theorem encodeText_of_allDigits (h : AllDigits text) : encodeText text =
    if Text.number 10 text.toList < Field.order then Text.number 10 text.toList else textDigest text := by
  obtain ⟨hne, hall⟩ := allDigits_iff.mp h
  unfold encodeText
  dsimp only
  rw [Text.ofDigits_eq_number h.2, hashText_val]
  simp only [ne_eq, hne, not_false_eq_true, hall, true_and]

theorem encodeText_of_not_allDigits (h : ¬AllDigits text) : encodeText text = textDigest text := by
  unfold encodeText
  rw [← hashText_val]
  exact if_neg fun hdigits => h (allDigits_iff.mpr ⟨hdigits.1, hdigits.2.1⟩)

/-- Digits denote their own number. -/
theorem denotes_of_allDigits (h : AllDigits text) :
    Decimal.Denotes text.toList (Text.number 10 text.toList) := by
  obtain ⟨hne, hdigits⟩ := h
  have hfilter : text.toList.filter (· ≠ '_') = text.toList := by
    refine List.filter_eq_self.mpr fun c hc => decide_eq_true ?_
    rintro rfl
    exact absurd (hdigits '_' hc) (by decide)
  have hunsigned : Decimal.IsUnsigned text.toList := by
    generalize text.toList = cs at hne hdigits
    cases cs with
    | nil => exact absurd rfl hne
    | cons c rest =>
      refine .intro (hdigits c List.mem_cons_self) fun d hd => .inl ?_
      exact hdigits d (List.mem_cons_of_mem c hd)
  have hbare := Decimal.Denotes.bare hunsigned
  rwa [hfilter] at hbare

theorem encodeText_of_ofDecimal (h : AllDigits text) : encodeText text =
    match Field.ofDecimal text with
    | .ok n => n
    | .error _ => textDigest text := by
  rw [encodeText_of_allDigits h]
  by_cases hlt : Text.number 10 text.toList < Field.order
  · rw [if_pos hlt, Field.ofDecimal_eq_ok_iff.mpr ⟨denotes_of_allDigits h, hlt⟩]
  · rw [if_neg hlt, Field.ofDecimal_eq_error (denotes_of_allDigits h) (Nat.not_lt.mp hlt)]

/-! ### Zeros in front -/

theorem allDigits_zeroPadded (count n : Nat) : AllDigits (zeroPadded count n) := by
  unfold AllDigits zeroPadded
  rw [String.toList_ofList]
  constructor
  · exact List.append_ne_nil_of_right_ne_nil _ (Decimal.write_ne_nil n)
  · refine List.forall_mem_append.mpr ⟨fun c hc => ?_, fun c hc => ?_⟩
    · rw [List.eq_of_mem_replicate hc]
      decide
    · exact Text.isDigit_iff.mp (Decimal.isDigit_of_mem_write hc)

theorem encodeText_zeroPadded (count : Nat) (h : n < Field.order) : encodeText (zeroPadded count n) = n := by
  have hnumber : Text.number 10 (zeroPadded count n).toList = n := by
    rw [zeroPadded, String.toList_ofList, Text.number_zeros_append, Text.number_write]
  rw [encodeText_of_allDigits (allDigits_zeroPadded count n), hnumber, if_pos h]

/-- A numeral below `2^64` is the text of a JSON number. -/
theorem decodeText_write (n : UInt64) :
    Json.decodeText Json.Decoder.json (Decimal.write n.toNat) = .ok (.number (.natural n)) := by
  have hread : Json.Document.ofText (Decimal.write n.toNat).toList = ⟨.number (.natural n), false⟩ :=
    Json.Document.ofText_chars (v := .number (.natural n)) trivial
  rw [Json.decodeText, hread]
  rfl

/-! ### Scalars -/

/-- What encoding owes the scalars. -/
structure EncodesScalars : Prop where
  refuses : ∀ value, (∃ e, encode value = .error e) ↔ value.isScalar = false
  omits : ∀ value, encode value = .ok none ↔ value = .null
  total : ∀ value, value.isLeaf = true → ∃ n < Field.order, encode value = .ok (some n)
  bools : ∀ b, encode (.bool b) = .ok (some (if b then 1 else 0))
  /-- A JSON number and its digits behind any zeros are one claim. -/
  naturals : ∀ n : UInt64,
    Json.decodeText Json.Decoder.json (Decimal.write n.toNat) = .ok (.number (.natural n)) ∧
    encode (.number (.natural n)) = .ok (some n.toNat) ∧
    ∀ count, encode (.string (zeroPadded count n.toNat)) = .ok (some n.toNat)
  otherNumbers : ∀ x : Number, (∀ n, x ≠ .natural n) →
    encode (.number x) = .ok (some (textDigest x.text))
  digits : ∀ text, AllDigits text → encode (.string text) = .ok (some
    (if Text.number 10 text.toList < Field.order then Text.number 10 text.toList else textDigest text))
  /-- Digits are what the field reads in them, and hashed where it refuses them. -/
  guarded : ∀ text, AllDigits text → encode (.string text) = .ok (some
    (match Field.ofDecimal text with
      | .ok n => n
      | .error _ => textDigest text))
  others : ∀ text, ¬AllDigits text → encode (.string text) = .ok (some (textDigest text))
  /-- The field would read these texts. -/
  liberal : ∀ text n, Decimal.Denotes text.toList n → n < Field.order →
    '+' ∈ text.toList ∨ '_' ∈ text.toList →
    Field.ofDecimal text = .ok n ∧ encode (.string text) = .ok (some (textDigest text))

theorem not_allDigits_of_mem (h : '+' ∈ text.toList ∨ '_' ∈ text.toList) : ¬AllDigits text := by
  intro hdigits
  obtain hplus | hscore := h
  · exact absurd (hdigits.2 '+' hplus) (by decide)
  · exact absurd (hdigits.2 '_' hscore) (by decide)

theorem encode_error_iff (value : Json) : (∃ e, encode value = .error e) ↔ value.isScalar = false := by
  cases hscalar : value.isScalar with
  | true =>
    rw [encode_of_isScalar hscalar]
    exact ⟨nofun, nofun⟩
  | false =>
    refine ⟨fun _ => rfl, fun _ => ?_⟩
    cases value with
    | array items => exact ⟨_, rfl⟩
    | object members => exact ⟨_, rfl⟩
    | _ => cases hscalar

theorem encode_none_iff (value : Json) : encode value = .ok none ↔ value = .null := by
  refine ⟨fun h => ?_, fun h => h ▸ rfl⟩
  cases value with
  | null => rfl
  | array items => cases h
  | object members => cases h
  | number x => cases x <;> cases h
  | _ => cases h

/-- **Every scalar but null has one number of the field**, and digits agree with numbers. -/
theorem encode_canonical : EncodesScalars where
  refuses := encode_error_iff
  omits := encode_none_iff
  total value h := ⟨number value, encodeScalar?_lt (encodeScalar?_of_isLeaf h), encode_of_isLeaf h⟩
  bools b := by cases b <;> rfl
  naturals n := by
    have hlt : n.toNat < Field.order := Nat.lt_trans n.toNat_lt (by decide)
    refine ⟨decodeText_write n, rfl, fun count => ?_⟩
    show Except.ok (some (encodeText (zeroPadded count n.toNat))) = _
    rw [encodeText_zeroPadded count hlt]
  otherNumbers x h := by
    cases x with
    | natural n => exact absurd rfl (h n)
    | negative n => rfl
    | double x => rfl
  digits text h := by
    show Except.ok (some (encodeText text)) = _
    rw [encodeText_of_allDigits h]
  guarded text h := by
    show Except.ok (some (encodeText text)) = _
    rw [encodeText_of_ofDecimal h]
  others text h := by
    show Except.ok (some (encodeText text)) = _
    rw [encodeText_of_not_allDigits h]
  liberal text n hdenotes hlt hmem := by
    refine ⟨Field.ofDecimal_eq_ok_iff.mpr ⟨hdenotes, hlt⟩, ?_⟩
    show Except.ok (some (encodeText text)) = _
    rw [encodeText_of_not_allDigits (not_allDigits_of_mem hmem)]

/-- Zeros before digits do not matter, and a sign or an underscore does. -/
theorem encode_canonical_seven : encode (.string "007") = .ok (some 7) ∧
    Field.ofDecimal "+7" = .ok 7 ∧ encode (.string "+7") = .ok (some (textDigest "+7")) ∧
    Field.ofDecimal "0_7" = .ok 7 ∧ encode (.string "0_7") = .ok (some (textDigest "0_7")) := by
  have hseven : Decimal.IsUnsigned ['7'] := Decimal.isUnsigned_iff.mpr (by decide)
  have hbody : Decimal.IsUnsigned ['0', '_', '7'] := Decimal.isUnsigned_iff.mpr (by decide)
  have hsigned := encode_canonical.liberal "+7" 7 (.signed hseven) (by decide) (by decide +kernel)
  have hscored := encode_canonical.liberal "0_7" 7 (.bare hbody) (by decide) (by decide +kernel)
  have hpadded := encode_canonical.digits "007" (allDigits_iff.mpr (by decide +kernel))
  exact ⟨hpadded, hsigned.1, hsigned.2, hscored.1, hscored.2⟩

end Disclosure.Claim
