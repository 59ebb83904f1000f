import Disclosure.Proofs.Bytes.Number
import Disclosure.Proofs.Text.Numeral
import Mathlib.Data.String.Basic

/-! Hexadecimal text.

What is written are pairs of digits, so it holds no prefix to strip and reads as the bytes it
was written from (`decode_encode`).

A text is decoded exactly when in lower case it is the text that its bytes are written as
(`decode_eq_ok_iff`), and that is the case for an even number of digits, whatever their
case (`exists_of_hexDigits`). The number of the digits is the number of the bytes. -/
namespace Disclosure.Hex
open Text (IsHexDigit number digitValue)

variable {c : Char} {cs : List Char} {n : Nat} {bytes : Bytes}

/-! ### What is written -/

theorem digit?_digit (h : n < 16) : digit? (digit n) = some n := by
  have hall : ∀ n : Fin 16, digit? (digit n) = some n.val := by decide
  exact hall ⟨n, h⟩

/-- A digit takes one byte and is no letter of a prefix. -/
theorem digit_plain (h : n < 16) : (digit n).utf8Size = 1 ∧ digit n ≠ 'x' := by
  have hall : ∀ n : Fin 16, (digit n).utf8Size = 1 ∧ digit n ≠ 'x' := by decide
  exact hall ⟨n, h⟩

theorem high_lt (b : UInt8) : b.toNat / 16 < 16 :=
  Nat.div_lt_of_lt_mul b.toNat_lt

theorem low_lt (b : UInt8) : b.toNat % 16 < 16 :=
  Nat.mod_lt _ (by decide)

theorem encode_cons (b : UInt8) (bytes : Bytes) :
    (encode (b :: bytes)).toList = digit (b.toNat / 16) :: digit (b.toNat % 16) :: (encode bytes).toList := by
  rw [encode, encode, String.toList_ofList, String.toList_ofList]
  rfl

/-- Two bytes of text for each byte. -/
theorem utf8Len_encode (bytes : Bytes) : String.utf8Len (encode bytes).toList = 2 * bytes.length := by
  induction bytes with
  | nil => rfl
  | cons b rest ih =>
    rw [encode_cons, String.utf8Len_cons, String.utf8Len_cons, ih, (digit_plain (high_lt b)).1,
      (digit_plain (low_lt b)).1, List.length_cons]
    omega

theorem pairs_encode (position : Nat) (bytes : Bytes) : pairs position (encode bytes).toList = .ok bytes := by
  induction bytes generalizing position with
  | nil => rfl
  | cons b rest ih =>
    have hbyte : UInt8.ofNat (16 * (b.toNat / 16) + b.toNat % 16) = b := by
      rw [Nat.div_add_mod, UInt8.ofNat_toNat]
    rw [encode_cons, pairs, digitAt, digitAt, digit?_digit (high_lt b), digit?_digit (low_lt b), ih]
    exact congrArg (fun b => Except.ok (b :: rest)) hbyte

theorem decode_encode (bytes : Bytes) : decode (encode bytes).toList = .ok bytes := by
  have hsize : (String.ofList (encode bytes).toList).utf8ByteSize % 2 ≠ 1 := by
    rw [String.utf8ByteSize_ofList, utf8Len_encode]
    omega
  rw [decode, if_neg hsize, pairs_encode]

/-- Nothing is stripped off what was written. -/
theorem stripped_encode (bytes : Bytes) : stripped (encode bytes).toList = (encode bytes).toList := by
  cases bytes with
  | nil => rfl
  | cons b rest =>
    rw [encode_cons, stripped.eq_def]
    split
    · rename_i heq
      exact absurd (List.cons.inj (List.cons.inj heq).2).1 (digit_plain (low_lt b)).2
    · rfl

/-! ### One digit -/

theorem exists_of_isHexDigit (h : IsHexDigit c) :
    ∃ n < 16, c.toLower = digit n ∧ digit? c = some n ∧ digitValue c = n := by
  rw [← Char.ofNat_toNat c]
  obtain ⟨hlow, hhigh⟩ | ⟨hlow, hhigh⟩ | ⟨hlow, hhigh⟩ := h
  · have hlow : 48 ≤ c.toNat := hlow
    have hhigh : c.toNat ≤ 57 := hhigh
    refine ⟨c.toNat - 48, by omega, ?_⟩
    generalize c.toNat = m at hlow hhigh
    interval_cases m <;> decide
  · have hlow : 97 ≤ c.toNat := hlow
    have hhigh : c.toNat ≤ 102 := hhigh
    refine ⟨c.toNat - 87, by omega, ?_⟩
    generalize c.toNat = m at hlow hhigh
    interval_cases m <;> decide
  · have hlow : 65 ≤ c.toNat := hlow
    have hhigh : c.toNat ≤ 70 := hhigh
    refine ⟨c.toNat - 55, by omega, ?_⟩
    generalize c.toNat = m at hlow hhigh
    interval_cases m <;> decide

theorem isHexDigit_of_digit? (h : digit? c = some n) : IsHexDigit c := by
  unfold digit? at h
  split at h
  · rename_i hdigit
    exact .inl (Text.isDigit_iff.mp hdigit)
  · split at h
    · rename_i hlower
      exact .inr (.inl hlower)
    · split at h
      · rename_i hupper
        exact .inr (.inr hupper)
      · cases h

/-- Only letters have another case. -/
theorem isHexDigit_of_toLower (h : IsHexDigit c.toLower) : IsHexDigit c := by
  by_cases hupper : 'A' ≤ c ∧ c ≤ 'Z'
  · have hlow : 65 ≤ c.toNat := hupper.1
    have hhigh : c.toNat ≤ 90 := hupper.2
    rw [← Char.ofNat_toNat c] at h ⊢
    unfold IsHexDigit Text.IsDigit at h ⊢
    generalize c.toNat = m at h hlow hhigh
    revert h
    interval_cases m <;> decide
  · have hsame : c.toLower = c := dif_neg hupper
    rwa [hsame] at h

theorem isHexDigit_digit (h : n < 16) : IsHexDigit (digit n) :=
  isHexDigit_of_digit? (digit?_digit h)

theorem digit_inj {m : Nat} (hm : m < 16) (hn : n < 16) (h : digit m = digit n) : m = n := by
  have hread := digit?_digit hm
  rw [h, digit?_digit hn] at hread
  exact (Option.some.inj hread).symm

theorem digit?_of_toLower (hn : n < 16) (h : c.toLower = digit n) : digit? c = some n := by
  have hc : IsHexDigit c := isHexDigit_of_toLower (h ▸ isHexDigit_digit hn)
  obtain ⟨m, hm, hlower, hread, _⟩ := exists_of_isHexDigit hc
  rw [hread, digit_inj hm hn (hlower.symm.trans h)]

theorem toLower_of_digit? (h : digit? c = some n) : n < 16 ∧ c.toLower = digit n := by
  obtain ⟨m, hm, hlower, hread, _⟩ := exists_of_isHexDigit (isHexDigit_of_digit? h)
  rw [h] at hread
  cases hread
  exact ⟨hm, hlower⟩

/-! ### Texts -/

theorem encode_append (a b : Bytes) : (encode (a ++ b)).toList = (encode a).toList ++ (encode b).toList := by
  simp [encode]

@[simp] theorem length_encode (bytes : Bytes) : (encode bytes).toList.length = 2 * bytes.length := by
  induction bytes with
  | nil => rfl
  | cons b rest ih =>
    simp only [encode_cons, List.length_cons, ih]
    omega

/-- Two digits of one byte. -/
theorem encode_cons_ofNat {m n : Nat} (hm : m < 16) (hn : n < 16) (bytes : Bytes) :
    (encode (UInt8.ofNat (16 * m + n) :: bytes)).toList = digit m :: digit n :: (encode bytes).toList := by
  have hbyte : (UInt8.ofNat (16 * m + n)).toNat = 16 * m + n := by
    rw [UInt8.toNat_ofNat', Nat.mod_eq_of_lt (by omega)]
  have hhigh : (16 * m + n) / 16 = m := by omega
  have hlow : (16 * m + n) % 16 = n := by omega
  rw [encode_cons, hbyte, hhigh, hlow]

theorem digitAt_eq_ok_iff {position : Nat} : digitAt c position = .ok n ↔ digit? c = some n := by
  unfold digitAt
  cases digit? c with
  | none => exact ⟨nofun, nofun⟩
  | some m => simp

/-- **Bytes are decoded from what they are written as**, in either case. -/
theorem pairs_eq_ok_iff {position : Nat} : pairs position cs = .ok bytes ↔
    cs.map Char.toLower = (encode bytes).toList := by
  fun_induction pairs position cs generalizing bytes with
  | case1 =>
    cases bytes with
    | nil => simp [encode]
    | cons b rest =>
      rw [encode_cons]
      constructor <;> intro h <;> cases h
  | case2 position c =>
    constructor
    · intro h
      obtain ⟨_, _, h⟩ := Outcome.bind_eq_ok_iff.mp h
      cases h
    · intro h
      have hlength := congrArg List.length h
      simp only [List.map_cons, List.map_nil, List.length_cons, List.length_nil, length_encode] at hlength
      omega
  | case3 position high low rest ih =>
    constructor
    · intro h
      obtain ⟨m, hm, h⟩ := Outcome.bind_eq_ok_iff.mp h
      obtain ⟨n, hn, h⟩ := Outcome.bind_eq_ok_iff.mp h
      obtain ⟨bytes, hbytes, h⟩ := Outcome.bind_eq_ok_iff.mp h
      cases h
      obtain ⟨hm, hhigh⟩ := toLower_of_digit? (digitAt_eq_ok_iff.mp hm)
      obtain ⟨hn, hlow⟩ := toLower_of_digit? (digitAt_eq_ok_iff.mp hn)
      rw [encode_cons_ofNat hm hn, List.map_cons, List.map_cons, hhigh, hlow, ih.mp hbytes]
    · intro h
      cases bytes with
      | nil => cases h
      | cons b bytes =>
        rw [encode_cons, List.map_cons, List.map_cons] at h
        obtain ⟨hhigh, h⟩ := List.cons.inj h
        obtain ⟨hlow, hrest⟩ := List.cons.inj h
        have hbyte : UInt8.ofNat (16 * (b.toNat / 16) + b.toNat % 16) = b := by
          rw [Nat.div_add_mod, UInt8.ofNat_toNat]
        rw [digitAt_eq_ok_iff.mpr (digit?_of_toLower (high_lt b) hhigh),
          digitAt_eq_ok_iff.mpr (digit?_of_toLower (low_lt b) hlow), ih.mpr hrest]
        exact congrArg (fun b => Except.ok (b :: bytes)) hbyte

theorem exists_of_mem_encode (h : c ∈ (encode bytes).toList) : ∃ n < 16, c = digit n := by
  have hencoded : ∃ b ∈ bytes, c = digit (b.toNat / 16) ∨ c = digit (b.toNat % 16) := by
    simpa [encode] using h
  obtain ⟨b, _, hdigit | hdigit⟩ := hencoded
  · exact ⟨_, high_lt b, hdigit⟩
  · exact ⟨_, low_lt b, hdigit⟩

theorem isHexDigit_of_lower (h : cs.map Char.toLower = (encode bytes).toList)
    (hc : c ∈ cs) : IsHexDigit c := by
  have hlower : c.toLower ∈ (encode bytes).toList := h ▸ List.mem_map_of_mem hc
  obtain ⟨n, hn, hdigit⟩ := exists_of_mem_encode hlower
  exact isHexDigit_of_toLower (hdigit ▸ isHexDigit_digit hn)

/-- Hexadecimal digits take one byte each. -/
theorem utf8Len_of_hexDigits (h : ∀ c ∈ cs, IsHexDigit c) : String.utf8Len cs = cs.length := by
  induction cs with
  | nil => rfl
  | cons c rest ih =>
    obtain ⟨hc, hrest⟩ := List.forall_mem_cons.mp h
    have hsize : c.utf8Size = 1 := by
      have hbound : c.toNat ≤ 127 := by
        obtain ⟨_, hle⟩ | ⟨_, hle⟩ | ⟨_, hle⟩ := hc
        · exact Nat.le_trans hle (by decide)
        · exact Nat.le_trans hle (by decide)
        · exact Nat.le_trans hle (by decide)
      exact Char.utf8Size_eq_one_iff.mpr hbound
    rw [String.utf8Len_cons, ih hrest, hsize, List.length_cons]

theorem decode_eq_ok_iff : decode cs = .ok bytes ↔ cs.map Char.toLower = (encode bytes).toList := by
  unfold decode
  split
  · rename_i hodd
    refine ⟨nofun, fun h => ?_⟩
    have hlength := congrArg List.length h
    have hsize := utf8Len_of_hexDigits fun c hc => isHexDigit_of_lower h hc
    rw [List.length_map, length_encode] at hlength
    rw [String.utf8ByteSize_ofList, hsize] at hodd
    omega
  · exact pairs_eq_ok_iff

/-- Any even number of digits is decoded. -/
theorem exists_of_hexDigits {count : Nat} (hlength : cs.length = 2 * count) (h : ∀ c ∈ cs, IsHexDigit c) :
    ∃ bytes : Bytes, bytes.length = count ∧ decode cs = .ok bytes := by
  induction count generalizing cs with
  | zero =>
    obtain rfl := List.length_eq_zero_iff.mp hlength
    exact ⟨[], rfl, rfl⟩
  | succ count ih =>
    match cs, hlength, h with
    | high :: low :: rest, hlength, h =>
      obtain ⟨hhigh, h⟩ := List.forall_mem_cons.mp h
      obtain ⟨hlow, hrest⟩ := List.forall_mem_cons.mp h
      simp only [List.length_cons] at hlength
      obtain ⟨bytes, hcount, hbytes⟩ := ih (by omega) hrest
      obtain ⟨m, hm, hhigh, _⟩ := exists_of_isHexDigit hhigh
      obtain ⟨n, hn, hlow, _⟩ := exists_of_isHexDigit hlow
      refine ⟨UInt8.ofNat (16 * m + n) :: bytes, by simp [hcount], ?_⟩
      rw [decode_eq_ok_iff, encode_cons_ofNat hm hn, List.map_cons, List.map_cons, hhigh, hlow,
        decode_eq_ok_iff.mp hbytes]

/-! ### Numbers -/

theorem number_toLower (h : ∀ c ∈ cs, IsHexDigit c) : number 16 (cs.map Char.toLower) = number 16 cs := by
  have hvalue : ∀ c ∈ cs, digitValue c.toLower = digitValue c := by
    intro c hc
    obtain ⟨n, hn, hlower, _, hvalue⟩ := exists_of_isHexDigit (h c hc)
    rw [hlower, hvalue]
    exact Text.digitValue_digitChar hn
  rw [number, number, ← List.map_reverse, List.map_map]
  congr 1
  exact List.map_congr_left fun c hc => hvalue c (List.mem_reverse.mp hc)

theorem number_encode (bytes : Bytes) : number 16 (encode bytes).toList = Bytes.ofBigEndian bytes := by
  induction bytes using List.reverseRecOn with
  | nil => rfl
  | append_singleton bytes b ih =>
    have hlast : (encode [b]).toList = [digit (b.toNat / 16)] ++ [digit (b.toNat % 16)] := encode_cons b []
    have hhigh : digitValue (digit (b.toNat / 16)) = b.toNat / 16 := Text.digitValue_digitChar (high_lt b)
    have hlow : digitValue (digit (b.toNat % 16)) = b.toNat % 16 := Text.digitValue_digitChar (low_lt b)
    rw [encode_append, hlast, ← List.append_assoc, Text.number_concat, Text.number_concat, ih, hhigh, hlow,
      Bytes.ofBigEndian_concat]
    omega

theorem encode_take (count : Nat) (bytes : Bytes) :
    (encode bytes).toList.take (2 * count) = (encode (bytes.take count)).toList := by
  induction bytes generalizing count with
  | nil => simp [encode]
  | cons b rest ih =>
    cases count with
    | zero => rfl
    | succ count =>
      rw [encode_cons, Nat.mul_succ, List.take_succ_cons, List.take_succ_cons, ih, List.take_succ_cons,
        encode_cons]

theorem encode_drop (count : Nat) (bytes : Bytes) :
    (encode bytes).toList.drop (2 * count) = (encode (bytes.drop count)).toList := by
  have hwhole : (encode (bytes.take count)).toList ++ (encode bytes).toList.drop (2 * count) =
      (encode (bytes.take count)).toList ++ (encode (bytes.drop count)).toList := by
    rw [← encode_take, List.take_append_drop, encode_take, ← encode_append, List.take_append_drop]
  exact List.append_cancel_left hwhole

/-- Twice as many digits as bytes make the same number, chunk by chunk. -/
theorem number_chunks {width count : Nat} (h : cs.map Char.toLower = (encode bytes).toList) :
    (Bytes.chunks (2 * width) count cs).map (number 16) =
      (Bytes.chunks width count bytes).map Bytes.ofBigEndian := by
  induction count generalizing cs bytes with
  | zero => rfl
  | succ count ih =>
    have htake : (cs.take (2 * width)).map Char.toLower = (encode (bytes.take width)).toList := by
      rw [List.map_take, h, encode_take]
    have hdrop : (cs.drop (2 * width)).map Char.toLower = (encode (bytes.drop width)).toList := by
      rw [List.map_drop, h, encode_drop]
    have hnumber := number_toLower fun c hc => isHexDigit_of_lower htake hc
    rw [htake, number_encode] at hnumber
    rw [Bytes.chunks, Bytes.chunks, List.map_cons, List.map_cons, ih hdrop, hnumber]

/-! ### Prefixes -/

/-- So many prefixes one after the other. -/
def prefixes (count : Nat) : List Char :=
  (List.replicate count ['0', 'x']).flatten

theorem prefixes_succ (count : Nat) (cs : List Char) :
    prefixes (count + 1) ++ cs = '0' :: 'x' :: (prefixes count ++ cs) := by
  simp [prefixes, List.replicate_succ]

theorem stripped_prefixes (count : Nat) (cs : List Char) : stripped (prefixes count ++ cs) = stripped cs := by
  induction count with
  | zero => rfl
  | succ count ih => rw [prefixes_succ, stripped, ih]

theorem exists_prefixes (cs : List Char) : ∃ count, cs = prefixes count ++ stripped cs := by
  fun_induction stripped cs with
  | case1 rest ih =>
    obtain ⟨count, hcount⟩ := ih
    exact ⟨count + 1, by rw [prefixes_succ, ← hcount]⟩
  | case2 cs => exact ⟨0, rfl⟩

theorem stripped_of_hexDigits (h : ∀ c ∈ cs, IsHexDigit c) : stripped cs = cs := by
  fun_cases stripped cs with
  | case1 rest =>
    have hx : IsHexDigit 'x' := h 'x' (by simp)
    exact absurd hx (by unfold IsHexDigit Text.IsDigit; decide)
  | case2 => rfl

end Disclosure.Hex
