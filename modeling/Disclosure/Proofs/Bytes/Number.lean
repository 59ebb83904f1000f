import Disclosure.Bytes
import Mathlib.Data.Nat.Digits.Defs

/-! Byte strings as numbers.

Numbers written little-endian in one width, one after the other, are the digits of one
number to the base `256 ^ width`: `ofLittleEndian_flatMap` reads them as that number,
and `digit_ofDigits` takes each of them out of it again. A wider width only adds zeros
at the end (`toLittleEndian_add`).

Big-endian, a number that fits its width is read back from its bytes, and bytes are written
again from their number. -/
namespace Disclosure.Bytes

theorem ofLittleEndian_append (a b : Bytes) :
    ofLittleEndian (a ++ b) = ofLittleEndian a + 256 ^ a.length * ofLittleEndian b := by
  induction a with
  | nil => simp [ofLittleEndian]
  | cons x rest ih =>
    rw [List.cons_append, ofLittleEndian, ofLittleEndian, ih, List.length_cons, Nat.pow_succ,
      Nat.mul_comm (256 ^ rest.length) 256, Nat.mul_add, Nat.mul_assoc, Nat.add_assoc]

/-- A number is read back as far as its width holds it. -/
theorem ofLittleEndian_toLittleEndian (width n : Nat) :
    ofLittleEndian (toLittleEndian width n) = n % 256 ^ width := by
  induction width generalizing n with
  | zero => simp [toLittleEndian, ofLittleEndian, Nat.mod_one]
  | succ width ih =>
    have hbyte : (UInt8.ofNat n).toNat = n % 256 := UInt8.toNat_ofNat'
    rw [toLittleEndian, ofLittleEndian, ih, hbyte, Nat.pow_succ', Nat.mod_mul]

theorem ofLittleEndian_toLittleEndian_of_lt {width n : Nat} (h : n < 256 ^ width) :
    ofLittleEndian (toLittleEndian width n) = n := by
  rw [ofLittleEndian_toLittleEndian, Nat.mod_eq_of_lt h]

theorem toLittleEndian_zero (width : Nat) : toLittleEndian width 0 = List.replicate width 0 := by
  induction width with
  | zero => rfl
  | succ width ih =>
    rw [toLittleEndian, Nat.zero_div, ih, List.replicate_succ]
    rfl

/-- A number that a width holds takes only zeros beyond it. -/
theorem toLittleEndian_add {width n : Nat} (h : n < 256 ^ width) (more : Nat) :
    toLittleEndian (width + more) n = toLittleEndian width n ++ List.replicate more 0 := by
  induction width generalizing n with
  | zero =>
    have hzero : n = 0 := Nat.lt_one_iff.mp h
    rw [hzero, Nat.zero_add, toLittleEndian_zero]
    rfl
  | succ width ih =>
    have hrest : n / 256 < 256 ^ width := Nat.div_lt_of_lt_mul (Nat.pow_succ' ▸ h)
    rw [Nat.add_right_comm, toLittleEndian, ih hrest, toLittleEndian, List.cons_append]

/-- **Packed numbers are digits.** -/
theorem ofLittleEndian_flatMap {width : Nat} {ns : List Nat} (h : ∀ n ∈ ns, n < 256 ^ width) :
    ofLittleEndian (ns.map (toLittleEndian width)).flatten = Nat.ofDigits (256 ^ width) ns := by
  induction ns with
  | nil => rfl
  | cons n rest ih =>
    have hn := h n List.mem_cons_self
    rw [List.map_cons, List.flatten_cons, ofLittleEndian_append,
      ofLittleEndian_toLittleEndian_of_lt hn, length_toLittleEndian,
      ih fun m hm => h m (List.mem_cons_of_mem n hm), Nat.ofDigits_cons]

/-- Each digit is found at its place. -/
theorem digit_ofDigits {base : Nat} {ns : List Nat} (h : ∀ n ∈ ns, n < base) {i : Nat}
    (hi : i < ns.length) : Nat.ofDigits base ns / base ^ i % base = ns[i] := by
  have hlt : ns[i] < base := h _ (List.getElem_mem hi)
  rw [Nat.ofDigits_div_pow_eq_ofDigits_drop i (Nat.zero_lt_of_lt hlt) ns h,
    List.drop_eq_getElem_cons hi, Nat.ofDigits_cons, Nat.add_mul_mod_self_left,
    Nat.mod_eq_of_lt hlt]

/-! ### Big-endian numbers -/

theorem ofBigEndian_concat (bytes : Bytes) (b : UInt8) :
    ofBigEndian (bytes ++ [b]) = 256 * ofBigEndian bytes + b.toNat := by
  simp [ofBigEndian]

theorem ofBigEndian_reverse (bytes : Bytes) : ofBigEndian bytes.reverse = ofLittleEndian bytes := by
  induction bytes with
  | nil => rfl
  | cons b rest ih => rw [List.reverse_cons, ofBigEndian_concat, ih, ofLittleEndian, Nat.add_comm]

/-- **A number that fits is read back.** -/
theorem ofBigEndian_toBigEndian {width n : Nat} (h : n < 256 ^ width) :
    ofBigEndian (toBigEndian width n) = n := by
  rw [toBigEndian, ofBigEndian_reverse, ofLittleEndian_toLittleEndian_of_lt h]

theorem toLittleEndian_ofLittleEndian (bytes : Bytes) :
    toLittleEndian bytes.length (ofLittleEndian bytes) = bytes := by
  induction bytes with
  | nil => rfl
  | cons b rest ih =>
    have hlt := b.toNat_lt
    have hbyte : UInt8.ofNat (b.toNat + 256 * ofLittleEndian rest) = b := by
      apply UInt8.toNat.inj
      rw [UInt8.toNat_ofNat']
      omega
    have hrest : (b.toNat + 256 * ofLittleEndian rest) / 256 = ofLittleEndian rest := by omega
    rw [List.length_cons, toLittleEndian, ofLittleEndian, hbyte, hrest, ih]

/-- **Bytes are written again**, in as many bytes. -/
theorem toBigEndian_ofBigEndian {width : Nat} {bytes : Bytes} (h : bytes.length = width) :
    toBigEndian width (ofBigEndian bytes) = bytes := by
  have hread := ofBigEndian_reverse bytes.reverse
  rw [List.reverse_reverse] at hread
  rw [toBigEndian, hread, ← h, ← List.length_reverse, toLittleEndian_ofLittleEndian, List.reverse_reverse]

/-! ### Chunks -/

/-- As many chunks of one width. -/
def chunks {α : Type} (width : Nat) : Nat → List α → List (List α)
  | 0, _ => []
  | count + 1, as => as.take width :: chunks width count (as.drop width)

theorem length_of_mem_chunks {α : Type} {width count : Nat}
    {as chunk : List α} (h : as.length = count * width)
    (hchunk : chunk ∈ chunks width count as) : chunk.length = width := by
  induction count generalizing as with
  | zero => cases hchunk
  | succ count ih =>
    rw [Nat.succ_mul] at h
    cases hchunk with
    | head =>
      rw [List.length_take]
      omega
    | tail _ hrest =>
      have hdrop : (as.drop width).length = count * width := by
        rw [List.length_drop]
        omega
      exact ih hdrop hrest

theorem flatten_chunks {α : Type} {width count : Nat} {as : List α} (h : as.length = count * width) :
    (chunks width count as).flatten = as := by
  induction count generalizing as with
  | zero => simpa [chunks] using h
  | succ count ih =>
    have hrest : (as.drop width).length = count * width := by
      rw [List.length_drop, h, Nat.succ_mul]
      omega
    rw [chunks, List.flatten_cons, ih hrest, List.take_append_drop]

theorem chunks_flatMap {α β : Type} {width : Nat}
    {f : β → List α} (hf : ∀ b, (f b).length = width) (bs : List β) :
    chunks width bs.length (bs.flatMap f) = bs.map f := by
  induction bs with
  | nil => rfl
  | cons b rest ih =>
    rw [List.flatMap_cons, List.length_cons, chunks,
      List.take_left' (hf b), List.drop_left' (hf b), ih, List.map_cons]

end Disclosure.Bytes
