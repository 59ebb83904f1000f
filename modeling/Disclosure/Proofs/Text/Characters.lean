import Disclosure.Bytes
import Mathlib.Data.List.TakeDrop
import Mathlib.Data.List.TakeWhile
import Mathlib.Tactic.SplitIfs

/-! Texts as lists of characters: their order, and cutting them.

Texts are compared by their characters. `lt_iff_bytes_lt` says that this is the order of
their UTF-8 forms byte for byte, so that sorting by characters sorts by bytes.

A text without a separator is not cut there (`span_of_not_mem`), and another one is cut at the
first separator it has (`span_append_cons`). What the two halves hold shows in turn what was cut. -/
namespace Disclosure.Text

/-- The UTF-8 form of a text. -/
def bytes (text : String) : Bytes :=
  text.toUTF8.data.toList

theorem bytes_eq_flatMap (text : String) : bytes text = text.toList.flatMap String.utf8EncodeChar := by
  show text.toByteArray.data.toList = _
  rw [← String.utf8Encode_toList]
  simp [List.utf8Encode]

/-! ### Single characters -/

theorem toNat_val_lt (c : Char) : c.val.toNat < 1114112 := by
  rcases c.valid with h | h
  · exact Nat.lt_trans h (by decide)
  · exact h.2

theorem ofNat_lt_ofNat {m n : Nat} (hm : m < 256) (hn : n < 256) :
    UInt8.ofNat m < UInt8.ofNat n ↔ m < n := by
  rw [UInt8.lt_iff_toNat_lt, UInt8.toNat_ofNat', UInt8.toNat_ofNat', Nat.mod_eq_of_lt hm,
    Nat.mod_eq_of_lt hn]

theorem ofNat_eq_ofNat {m n : Nat} (hm : m < 256) (hn : n < 256) :
    UInt8.ofNat m = UInt8.ofNat n ↔ m = n := by
  rw [← UInt8.toNat_inj, UInt8.toNat_ofNat', UInt8.toNat_ofNat', Nat.mod_eq_of_lt hm,
    Nat.mod_eq_of_lt hn]

theorem lt_iff_base64 (m n : Nat) :
    m < n ↔ m / 64 < n / 64 ∨ m / 64 = n / 64 ∧ m % 64 < n % 64 := by
  omega

/-- The smaller of two characters has the smaller bytes, whatever follows them: neither
is the start of the other. -/
theorem encode_append_lt {c d : Char} (h : c < d) (xs ys : Bytes) :
    String.utf8EncodeChar c ++ xs < String.utf8EncodeChar d ++ ys := by
  have hlt : c.val.toNat < d.val.toNat := h
  have hd : d.val.toNat < 1114112 := toNat_val_lt d
  unfold String.utf8EncodeChar
  generalize c.val.toNat = m at *
  generalize d.val.toNat = n at *
  -- The continuation bytes are the digits of the code point to base 64.
  have h1 := (lt_iff_base64 m n).mp hlt
  have h2 := lt_iff_base64 (m / 64) (n / 64)
  have h3 := lt_iff_base64 (m / 4096) (n / 4096)
  simp only [Nat.div_div_eq_div_mul, Nat.reduceMul] at h2 h3
  have hm8 : m / 262144 % 8 = m / 262144 := by omega
  have hn8 : n / 262144 % 8 = n / 262144 := by omega
  dsimp only
  rw [hm8, hn8]
  split_ifs <;>
    simp (disch := omega) only [List.cons_append, List.nil_append, List.cons_lt_cons_iff,
      ofNat_lt_ofNat, ofNat_eq_ofNat] <;>
    omega

/-! ### Texts -/

theorem flatMap_encode_lt {cs ds : List Char} (h : cs < ds) :
    cs.flatMap String.utf8EncodeChar < ds.flatMap String.utf8EncodeChar := by
  induction h with
  | @nil d ds =>
    have hne : String.utf8EncodeChar d ≠ [] := String.utf8EncodeChar_ne_nil
    rw [List.flatMap_nil, List.flatMap_cons]
    cases hb : String.utf8EncodeChar d with
    | nil => exact absurd hb hne
    | cons b bs => exact List.nil_lt_cons _ _
  | rel h => exact encode_append_lt h _ _
  | cons _ ih => exact List.append_left_lt ih

theorem bytes_lt_of_lt {a b : String} (h : a < b) : bytes a < bytes b := by
  rw [bytes_eq_flatMap, bytes_eq_flatMap]
  exact flatMap_encode_lt (String.lt_iff.mp h)

/-- **The order of texts is the order of their bytes.** -/
theorem lt_iff_bytes_lt {a b : String} : a < b ↔ bytes a < bytes b := by
  refine ⟨bytes_lt_of_lt, fun h => ?_⟩
  apply String.not_le.mp
  intro hba
  by_cases heq : b = a
  · subst heq
    exact List.lt_irrefl _ h
  · have hlt : b < a := String.not_le.mp fun hab => heq (String.le_antisymm hba hab)
    exact List.lt_asymm h (bytes_lt_of_lt hlt)

/-! ### Cutting at a separator -/

variable {sep c : Char} {cs before after : List Char}

theorem ne_of_not_mem (h : sep ∉ cs) : ∀ c ∈ cs, decide (c ≠ sep) = true :=
  fun _ hc => decide_eq_true fun heq => h (heq ▸ hc)

theorem span_of_not_mem (h : sep ∉ cs) : cs.span (· ≠ sep) = (cs, []) := by
  rw [List.span_eq_takeWhile_dropWhile, List.takeWhile_eq_self_iff.mpr (ne_of_not_mem h),
    List.dropWhile_eq_nil_iff.mpr (ne_of_not_mem h)]

theorem span_append_cons (h : sep ∉ before) (after : List Char) :
    (before ++ sep :: after).span (· ≠ sep) = (before, sep :: after) := by
  have hall := ne_of_not_mem h
  rw [List.span_eq_takeWhile_dropWhile, List.takeWhile_append_of_pos hall, List.dropWhile_append_of_pos hall,
    List.takeWhile_cons_of_neg (by simp), List.dropWhile_cons_of_neg (by simp), List.append_nil]

theorem not_mem_of_span (h : cs.span (· ≠ sep) = (before, after)) : sep ∉ before := by
  rw [List.span_eq_takeWhile_dropWhile] at h
  obtain ⟨rfl, rfl⟩ := Prod.mk.inj h
  intro hsep
  exact absurd (List.mem_takeWhile_imp hsep) (by simp)

theorem append_of_span (h : cs.span (· ≠ sep) = (before, after)) : before ++ after = cs := by
  rw [List.span_eq_takeWhile_dropWhile] at h
  obtain ⟨rfl, rfl⟩ := Prod.mk.inj h
  exact List.takeWhile_append_dropWhile

/-- A second half that is not empty begins with the separator. -/
theorem span_eq_cons_iff : cs.span (· ≠ sep) = (before, c :: after) ↔
    c = sep ∧ cs = before ++ sep :: after ∧ sep ∉ before := by
  constructor
  · intro h
    have hsep : c = sep := by
      have hstop := List.head?_dropWhile_not (· ≠ sep) cs
      rw [List.span_eq_takeWhile_dropWhile] at h
      rw [(Prod.mk.inj h).2] at hstop
      simpa using hstop
    subst hsep
    exact ⟨rfl, (append_of_span h).symm, not_mem_of_span h⟩
  · rintro ⟨rfl, rfl, h⟩
    exact span_append_cons h after

theorem span_eq_nil_iff : cs.span (· ≠ sep) = (before, []) ↔ cs = before ∧ sep ∉ cs := by
  constructor
  · intro h
    have hwhole := append_of_span h
    rw [List.append_nil] at hwhole
    subst hwhole
    exact ⟨rfl, not_mem_of_span h⟩
  · rintro ⟨rfl, h⟩
    exact span_of_not_mem h

end Disclosure.Text
