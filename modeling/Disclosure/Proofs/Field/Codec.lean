import Disclosure.Proofs.Bytes.Number
import Disclosure.Proofs.Text.DecimalGrammar

/-! The forms of a field number.

A number below the order is written as bytes, as few as it takes, as a numeral, and as an
element with its 32 bytes. Each form gives the number back, and bytes or digits that were read
are written again without the zeros in front of them. What is out of the field is refused in
every form and reduced in none (`codecs_invert`). -/
namespace Disclosure

/-! ### Zeros in front -/

/-- A list from its first member that is no zero, or a single zero where there is none. -/
def trimmed {α : Type} [DecidableEq α] (zero : α) (xs : List α) : List α :=
  match xs.dropWhile (· = zero) with
  | [] => [zero]
  | rest => rest

section Trimmed
variable {α : Type} [DecidableEq α] {zero x : α} {xs : List α}

theorem trimmed_cons_zero : trimmed zero (zero :: xs) = trimmed zero xs := by
  unfold trimmed
  rw [List.dropWhile_cons_of_pos (by simp)]

theorem trimmed_cons_of_ne (h : x ≠ zero) : trimmed zero (x :: xs) = x :: xs := by
  rw [trimmed, List.dropWhile_cons_of_neg (by simpa using h)]

theorem trimmed_zeros_append (count : Nat) :
    trimmed zero (List.replicate count zero ++ xs) = trimmed zero xs := by
  induction count with
  | zero => rfl
  | succ count ih => rw [List.replicate_succ, List.cons_append, trimmed_cons_zero, ih]

end Trimmed

/-! ### Bytes -/

namespace Bytes

theorem lt_pow_byteWidth (n : Nat) : n < 256 ^ byteWidth n := by
  have hwidth : n.log2 + 1 ≤ 8 * byteWidth n := by
    unfold byteWidth
    omega
  calc n < 2 ^ (n.log2 + 1) := Nat.lt_log2_self
    _ ≤ 2 ^ (8 * byteWidth n) := Nat.pow_le_pow_right (by decide) hwidth
    _ = 256 ^ byteWidth n := by rw [Nat.pow_mul]

/-- The width is the number of digits to base 256. -/
theorem byteWidth_eq {n width : Nat} (hlow : 256 ^ width ≤ n) (hhigh : n < 256 ^ (width + 1)) :
    byteWidth n = width + 1 := by
  have hbase : 256 = 2 ^ 8 := rfl
  rw [hbase, ← Nat.pow_mul] at hlow hhigh
  have hne : n ≠ 0 := Nat.ne_of_gt (Nat.lt_of_lt_of_le (Nat.two_pow_pos _) hlow)
  have hlow : 8 * width ≤ n.log2 := (Nat.le_log2 hne).mpr hlow
  have hhigh : n.log2 < 8 * (width + 1) := (Nat.log2_lt hne).mpr hhigh
  unfold byteWidth
  omega

theorem ofBigEndian_lt (bytes : Bytes) : ofBigEndian bytes < 256 ^ bytes.length := by
  have hmod := ofLittleEndian_toLittleEndian bytes.reverse.length (ofLittleEndian bytes.reverse)
  rw [toLittleEndian_ofLittleEndian, ← ofBigEndian_reverse,
    List.reverse_reverse, List.length_reverse] at hmod
  rw [hmod]
  exact Nat.mod_lt _ (Nat.pow_pos (by decide))

theorem ofBigEndian_cons (b : UInt8) (rest : Bytes) :
    ofBigEndian (b :: rest) = b.toNat * 256 ^ rest.length + ofBigEndian rest := by
  have hcut := ofLittleEndian_append rest.reverse [b]
  rw [← List.reverse_cons, ← ofBigEndian_reverse,
    ← ofBigEndian_reverse, List.reverse_reverse, List.reverse_reverse,
    List.length_reverse] at hcut
  rw [hcut, Nat.add_comm, Nat.mul_comm]
  rfl

theorem ofBigEndian_minimalBigEndian (n : Nat) : ofBigEndian (minimalBigEndian n) = n :=
  ofBigEndian_toBigEndian (lt_pow_byteWidth n)

/-- Bytes that do not begin with a zero are as few as their number takes. -/
theorem byteWidth_ofBigEndian {b : UInt8} (h : b ≠ 0) (rest : Bytes) :
    byteWidth (ofBigEndian (b :: rest)) = rest.length + 1 := by
  have hpos : 1 ≤ b.toNat := Nat.pos_of_ne_zero fun hzero => h (UInt8.toNat.inj hzero)
  refine byteWidth_eq ?_ (ofBigEndian_lt (b :: rest))
  rw [ofBigEndian_cons]
  exact Nat.le_add_right_of_le (Nat.le_mul_of_pos_left _ hpos)

/-- **Bytes are written again without their zeros.** -/
theorem minimalBigEndian_ofBigEndian (bytes : Bytes) :
    minimalBigEndian (ofBigEndian bytes) = trimmed 0 bytes := by
  induction bytes with
  | nil => decide
  | cons b rest ih =>
    by_cases hzero : b = 0
    · rw [hzero, trimmed_cons_zero, ← ih, ofBigEndian_cons]
      simp
    · rw [trimmed_cons_of_ne hzero, minimalBigEndian, byteWidth_ofBigEndian hzero]
      exact toBigEndian_ofBigEndian List.length_cons

end Bytes

/-! ### Numerals -/

namespace Decimal
open Text (IsDigit number)

/-- A text spells digits that may have a plus sign in front and underscores behind the first. -/
def Spells (text digits : List Char) : Prop :=
  ∃ body, (text = body ∨ text = '+' :: body) ∧ IsUnsigned body ∧ body.filter (· ≠ '_') = digits

variable {text digits : List Char} {n : Nat}

theorem denotes_iff : Denotes text n ↔ ∃ digits, Spells text digits ∧ number 10 digits = n := by
  constructor
  · intro h
    cases h with
    | bare hbody => exact ⟨_, ⟨_, .inl rfl, hbody, rfl⟩, rfl⟩
    | signed hbody => exact ⟨_, ⟨_, .inr rfl, hbody, rfl⟩, rfl⟩
  · rintro ⟨_, ⟨body, rfl | rfl, hbody, rfl⟩, rfl⟩
    · exact .bare hbody
    · exact .signed hbody

theorem isDigit_of_spells (h : Spells text digits) : ∀ c ∈ digits, IsDigit c := by
  obtain ⟨body, _, hbody, rfl⟩ := h
  exact isDigit_of_mem_filter hbody

theorem ne_nil_of_spells (h : Spells text digits) : digits ≠ [] := by
  obtain ⟨body, _, hbody, rfl⟩ := h
  cases hbody with
  | @intro c rest first _ =>
    have hscore : c ≠ '_' := by
      rintro rfl
      exact absurd first (by decide)
    rw [List.filter_cons_of_pos (by simpa using hscore)]
    exact List.cons_ne_nil _ _

theorem trimmed_write (n : Nat) : trimmed '0' (write n).toList = (write n).toList := by
  rw [write, Nat.toList_repr]
  obtain hzero | ⟨c, ds, hds, hne⟩ := toDigits_head (n := n)
  · rw [hzero]
    rfl
  · rw [hds, trimmed_cons_of_ne hne]

/-- **Digits are written again without their zeros.** -/
theorem write_number (hne : digits ≠ []) (h : ∀ c ∈ digits, IsDigit c) :
    (write (number 10 digits)).toList = trimmed '0' digits := by
  obtain ⟨count, hcount⟩ := Text.exists_zeros hne h
  conv_rhs => rw [hcount, trimmed_zeros_append, trimmed_write]

end Decimal

/-! ### The field -/

namespace Field
open Text (number)
open Decimal (Spells)

variable {bytes : Bytes} {text : String} {n : Nat}

theorem ofBytes_eq_ok_iff : ofBytes bytes = .ok n ↔ Bytes.ofBigEndian bytes = n ∧ n < order := by
  constructor
  · intro h
    exact ⟨(ofBytes_eq h).symm, lt_of_ofBytes h⟩
  · rintro ⟨rfl, hlt⟩
    exact Outcome.bind_eq_ok_iff.mpr ⟨(), check_eq_ok_iff.mpr hlt, rfl⟩

theorem ofDecimal_eq_ok_iff_spells :
    ofDecimal text = .ok n ↔
      ∃ digits, Spells text.toList digits ∧ number 10 digits = n ∧ n < order := by
  rw [ofDecimal_eq_ok_iff, Decimal.denotes_iff]
  simp only [← and_assoc, exists_and_right]

/-! ### Elements -/

theorem toElement_val (e : Element) : toElement e.val = .ok e :=
  toElement_eq_ok_iff.mpr ⟨e.isLt, (reduce_eq e.isLt).symm⟩

theorem Element.length_bytes (e : Element) : e.bytes.length = 32 :=
  Bytes.length_toBigEndian 32 e.val

theorem Element.ofBigEndian_bytes (e : Element) : Bytes.ofBigEndian e.bytes = e.val :=
  Bytes.ofBigEndian_toBigEndian (lt_pow_of_lt_order e.isLt)

theorem Element.bytes_inj {e f : Element} (h : e.bytes = f.bytes) : e = f :=
  Fin.ext (by rw [← e.ofBigEndian_bytes, h, f.ofBigEndian_bytes])

/-- Two elements are told from their bytes, one after the other. -/
theorem Element.append_bytes_inj {left right left' right' : Element}
    (h : left'.bytes ++ right'.bytes = left.bytes ++ right.bytes) : left' = left ∧ right' = right := by
  have hlength : left'.bytes.length = left.bytes.length := left'.length_bytes.trans left.length_bytes.symm
  obtain ⟨hleft, hright⟩ := List.append_inj h hlength
  exact ⟨bytes_inj hleft, bytes_inj hright⟩

/-! ### Refusals -/

theorem check_eq_error (h : order ≤ n) : check n = .error (.invalidElement (.outOfField n)) :=
  if_neg (Nat.not_lt.mpr h)

theorem toElement_eq_error (h : order ≤ n) : toElement n = .error (.invalidElement (.outOfField n)) :=
  dif_neg (Nat.not_lt.mpr h)

theorem ofBytes_eq_error (h : order ≤ Bytes.ofBigEndian bytes) :
    ofBytes bytes = .error (.invalidElement (.outOfField (Bytes.ofBigEndian bytes))) := by
  show (check (Bytes.ofBigEndian bytes) >>= fun _ => _) = _
  rw [check_eq_error h]
  rfl

theorem ofDecimal_eq_error (hdenotes : Decimal.Denotes text.toList n) (h : order ≤ n) :
    ofDecimal text = .error (.invalidElement (.outOfField n)) := by
  unfold ofDecimal
  rw [Decimal.read_eq_ok_iff.mpr hdenotes]
  show (check n >>= fun _ => _) = _
  rw [check_eq_error h]
  rfl

/-- What the forms of a number owe each other. -/
structure CodecsInvert : Prop where
  bytes : ∀ n < order, ofBytes (Bytes.minimalBigEndian n) = .ok n
  numerals : ∀ n < order, ofDecimal (Decimal.write n) = .ok n
  elements : ∀ n < order, ∃ e, toElement n = .ok e ∧
    e.val = n ∧ e.bytes.length = 32 ∧ ofBytes e.bytes = .ok n
  /-- A pair is hashed by its own message and by no other pair's. -/
  messages : ∀ left right : Element, hashPair left right = hashBytes (left.bytes ++ right.bytes) ∧
    (left.bytes ++ right.bytes).length = 64 ∧
    ∀ left' right' : Element, left'.bytes ++ right'.bytes = left.bytes ++ right.bytes →
      left' = left ∧ right' = right
  readsBytes : ∀ bytes n, ofBytes bytes = .ok n ↔ Bytes.ofBigEndian bytes = n ∧ n < order
  rewritesBytes : ∀ bytes n, ofBytes bytes = .ok n → Bytes.minimalBigEndian n = trimmed 0 bytes
  readsTexts : ∀ text n, ofDecimal text = .ok n ↔
    ∃ digits, Spells text.toList digits ∧ number 10 digits = n ∧ n < order
  rewritesTexts : ∀ text digits n, ofDecimal text = .ok n → Spells text.toList digits →
    (Decimal.write n).toList = trimmed '0' digits
  /-- Nothing is reduced. -/
  refuses : ∀ n, order ≤ n → toElement n = .error (.invalidElement (.outOfField n)) ∧
    (∀ bytes, Bytes.ofBigEndian bytes = n → ofBytes bytes = .error (.invalidElement (.outOfField n))) ∧
    ∀ text digits, Spells text.toList digits → number 10 digits = n →
      ofDecimal text = .error (.invalidElement (.outOfField n))

/-- **The forms of a field number are inverse to each other**, and no two numbers share one. -/
theorem codecs_invert : CodecsInvert where
  bytes n hlt := ofBytes_eq_ok_iff.mpr ⟨Bytes.ofBigEndian_minimalBigEndian n, hlt⟩
  numerals _ hlt := ofDecimal_write_eq_ok_iff.mpr ⟨hlt, rfl⟩
  elements n hlt := by
    have hread := Element.ofBigEndian_bytes ⟨n, hlt⟩
    exact ⟨⟨n, hlt⟩, toElement_val ⟨n, hlt⟩, rfl, Element.length_bytes _,
      ofBytes_eq_ok_iff.mpr ⟨hread, hlt⟩⟩
  messages left right := by
    refine ⟨rfl, ?_, fun _ _ h => Element.append_bytes_inj h⟩
    rw [List.length_append, left.length_bytes, right.length_bytes]
  readsBytes _ _ := ofBytes_eq_ok_iff
  rewritesBytes bytes n h := by
    rw [ofBytes_eq h]
    exact Bytes.minimalBigEndian_ofBigEndian bytes
  readsTexts _ _ := ofDecimal_eq_ok_iff_spells
  rewritesTexts text digits n h hspells := by
    have hread := Decimal.read_eq_ok_iff.mpr (Decimal.denotes_iff.mpr ⟨digits, hspells, rfl⟩)
    obtain ⟨hdenotes, _⟩ := ofDecimal_eq_ok_iff.mp h
    cases hread.symm.trans (Decimal.read_eq_ok_iff.mpr hdenotes)
    exact Decimal.write_number (Decimal.ne_nil_of_spells hspells) (Decimal.isDigit_of_spells hspells)
  refuses n hle := by
    refine ⟨toElement_eq_error hle, fun bytes hn => ?_, fun text digits hspells hn => ?_⟩
    · subst hn
      exact ofBytes_eq_error hle
    · exact ofDecimal_eq_error (Decimal.denotes_iff.mpr ⟨digits, hspells, hn⟩) hle

/-- The greatest number of the field in bytes, the order refused as an element, and zeros that
are dropped from bytes and from digits with a sign and an underscore. -/
theorem codecs_invert_at_order : ofBytes (Bytes.minimalBigEndian (order - 1)) = .ok (order - 1) ∧
    toElement order = .error (.invalidElement (.outOfField order)) ∧
    Bytes.minimalBigEndian 256 = trimmed 0 [0, 0, 1, 0] ∧
    (Decimal.write 70).toList = trimmed '0' ['0', '0', '7', '0'] := by
  have hbody : Decimal.IsUnsigned ['0', '0', '_', '7', '0'] := Decimal.isUnsigned_iff.mpr (by decide)
  have hspells : Spells "+00_70".toList ['0', '0', '7', '0'] := ⟨_, .inr rfl, hbody, by decide⟩
  exact ⟨codecs_invert.bytes _ (by decide), (codecs_invert.refuses order (Nat.le_refl order)).1,
    codecs_invert.rewritesBytes [0, 0, 1, 0] 256 (by decide),
    codecs_invert.rewritesTexts "+00_70" _ 70 (by decide +kernel) hspells⟩

end Field
end Disclosure
