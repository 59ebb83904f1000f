import Disclosure.Proofs.Field
import Mathlib.Data.List.Induction
import Mathlib.Data.Nat.Digits.Defs
import Mathlib.Tactic.IntervalCases

/-! Numerals, and digits with the numbers they write.

`Decimal.write` gives digits and nothing else, so `Decimal.read` gives the number again. The
field takes a numeral exactly when its number is below the order.

The classes of digits are ranges of characters, and `Text.number` adds up digits by their places,
the first of them the most significant. A run of decimal digits is the numeral of its number
behind some zeros (`Text.exists_zeros`), so that no other run for that number is as short. -/
namespace Disclosure

namespace Decimal

theorem isDigit_of_mem_write {n : Nat} {c : Char} (h : c ∈ (write n).toList) : c.isDigit = true := by
  rw [write, Nat.toList_repr] at h
  exact Nat.isDigit_of_mem_toDigits (by decide) (by decide) h

theorem write_ne_nil (n : Nat) : (write n).toList ≠ [] := by
  rw [write, Nat.toList_repr]
  exact Nat.toDigits_ne_nil

/-- A numeral starts with a zero only if it is that of zero. -/
theorem toDigits_head {n : Nat} : Nat.toDigits 10 n = ['0'] ∨
    ∃ c ds, Nat.toDigits 10 n = c :: ds ∧ c ≠ '0' := by
  induction n using Nat.strongRecOn with
  | ind n ih =>
    by_cases hlt : n < 10
    · rw [Nat.toDigits_of_lt_base hlt]
      have hall : ∀ n : Fin 10, Nat.digitChar n = '0' ∨ Nat.digitChar n ≠ '0' ∧ 0 < n.val := by decide
      rcases hall ⟨n, hlt⟩ with hzero | ⟨hne, _⟩
      · exact .inl (by rw [hzero])
      · exact .inr ⟨_, _, rfl, hne⟩
    · rw [Nat.toDigits_of_base_le (by decide) (Nat.not_lt.mp hlt)]
      rcases ih (n / 10) (by omega) with hzero | ⟨c, ds, hds, hne⟩
      · -- Only zero is written so, and there is a digit more.
        have hdiv := Nat.ofDigitChars_ten_toDigits (n := n / 10)
        rw [hzero] at hdiv
        have : n / 10 = 0 := hdiv.symm
        omega
      · exact .inr ⟨c, ds ++ [Nat.digitChar (n % 10)], by rw [hds, List.cons_append], hne⟩

theorem ofDigits_write (n : Nat) : ofDigits (write n).toList = n := by
  rw [write, ofDigits, Nat.toList_repr, Nat.ofDigitChars_ten_toDigits]

/-- Digits stand without a sign. -/
theorem unsigned_of_digits {cs : List Char} (h : ∀ c ∈ cs, c.isDigit = true) : unsigned cs = cs := by
  unfold unsigned
  split
  · exact absurd (h _ List.mem_cons_self) (by decide)
  · rfl

/-- **A numeral is read back.** -/
@[simp] theorem read_write (n : Nat) : read (write n) = .ok n := by
  have hdigits : ∀ c ∈ (write n).toList, c.isDigit = true := fun c hc => isDigit_of_mem_write hc
  have hunderscore : ∀ c ∈ (write n).toList, c ≠ '_' := by
    intro c hc heq
    exact absurd (heq ▸ hdigits c hc) (by decide)
  have hhead : (write n).toList.head? ≠ some '_' := fun h =>
    hunderscore '_' (List.mem_of_head? h) rfl
  have hall : ((write n).toList.all fun c => c.isDigit || c == '_') = true := by
    rw [List.all_eq_true]
    intro c hc
    rw [hdigits c hc, Bool.true_or]
  have hfilter : (write n).toList.filter (· ≠ '_') = (write n).toList :=
    List.filter_eq_self.mpr fun c hc => decide_eq_true (hunderscore c hc)
  unfold read
  rw [unsigned_of_digits hdigits]
  dsimp only
  rw [if_neg (write_ne_nil n), if_neg hhead, if_pos hall, hfilter, ofDigits_write]

theorem write_injective {n m : Nat} (h : write n = write m) : n = m :=
  Except.ok.inj (by rw [← read_write n, h, read_write])

theorem mapM_read_write (ns : List Nat) : (ns.map write).mapM read = .ok ns := by
  rw [Outcome.mapM_eq_ok_iff, List.forall₂_map_left_iff, List.forall₂_same]
  exact fun n _ => read_write n

end Decimal

/-- A numeral of a field element is accepted, and no other. -/
theorem Field.ofDecimal_write_eq_ok_iff {n m : Nat} :
    Field.ofDecimal (Decimal.write n) = .ok m ↔ n < Field.order ∧ m = n := by
  unfold Field.ofDecimal
  rw [Decimal.read_write]
  show (check n >>= fun _ => Except.ok n) = _ ↔ _
  rw [Outcome.bind_eq_ok_iff]
  constructor
  · rintro ⟨_, hcheck, hm⟩
    cases hm
    exact ⟨check_eq_ok_iff.mp hcheck, rfl⟩
  · rintro ⟨hlt, rfl⟩
    exact ⟨(), check_eq_ok_iff.mpr hlt, rfl⟩

/-! ### Digits -/

namespace Text

def IsDigit (c : Char) : Prop :=
  '0' ≤ c ∧ c ≤ '9'

/-- In either case. -/
def IsHexDigit (c : Char) : Prop :=
  IsDigit c ∨ 'a' ≤ c ∧ c ≤ 'f' ∨ 'A' ≤ c ∧ c ≤ 'F'

/-- What a digit stands for. -/
def digitValue (c : Char) : Nat :=
  if c ≤ '9' then c.toNat - '0'.toNat
  else if c ≤ 'F' then c.toNat - 'A'.toNat + 10
  else c.toNat - 'a'.toNat + 10

def number (base : Nat) (digits : List Char) : Nat :=
  Nat.ofDigits base (digits.reverse.map digitValue)

variable {base : Nat} {c : Char} {cs : List Char}

theorem isDigit_iff : c.isDigit = true ↔ IsDigit c := by
  simp [Char.isDigit, IsDigit, Char.le_def]

instance (c : Char) : Decidable (IsDigit c) :=
  decidable_of_iff (c.isDigit = true) isDigit_iff

theorem exists_of_isDigit (h : IsDigit c) : ∃ n < 10, c = Nat.digitChar n := by
  obtain ⟨hlow, hhigh⟩ := h
  have hlow : 48 ≤ c.toNat := hlow
  have hhigh : c.toNat ≤ 57 := hhigh
  refine ⟨c.toNat - 48, by omega, ?_⟩
  rw [← Char.ofNat_toNat c]
  generalize c.toNat = n at hlow hhigh
  interval_cases n <;> rfl

theorem digitValue_digitChar {n : Nat} (h : n < 16) : digitValue (Nat.digitChar n) = n := by
  interval_cases n <;> rfl

theorem digitChar_digitValue (h : IsDigit c) : Nat.digitChar (digitValue c) = c := by
  obtain ⟨n, hn, rfl⟩ := exists_of_isDigit h
  rw [digitValue_digitChar (by omega)]

theorem digitValue_lt (h : IsDigit c) : digitValue c < 10 := by
  obtain ⟨n, hn, rfl⟩ := exists_of_isDigit h
  rwa [digitValue_digitChar (by omega)]

/-! ### Runs of digits -/

theorem number_concat : number base (cs ++ [c]) = base * number base cs + digitValue c := by
  simp [number, Nat.ofDigits_cons, Nat.add_comm]

theorem ofDigits_eq_number (h : ∀ c ∈ cs, IsDigit c) : Decimal.ofDigits cs = number 10 cs := by
  induction cs using List.reverseRecOn with
  | nil => rfl
  | append_singleton cs c ih =>
    obtain ⟨hcs, hc⟩ := List.forall_mem_append.mp h
    have hvalue : c.toNat - '0'.toNat = digitValue c := (if_pos (hc c List.mem_cons_self).2).symm
    have hfold : Decimal.ofDigits (cs ++ [c]) = 10 * Decimal.ofDigits cs + (c.toNat - '0'.toNat) := by
      simp [Decimal.ofDigits, Nat.ofDigitChars_append, Nat.ofDigitChars_cons]
    rw [hfold, ih hcs, hvalue, number_concat]

theorem write_digit (h : IsDigit c) : (Decimal.write (digitValue c)).toList = [c] := by
  rw [Decimal.write, Nat.toList_repr, Nat.toDigits_of_lt_base (digitValue_lt h), digitChar_digitValue h]

theorem write_concat {n : Nat} (hn : 0 < n) (h : IsDigit c) :
    (Decimal.write (10 * n + digitValue c)).toList = (Decimal.write n).toList ++ [c] := by
  rw [← write_digit h]
  simp only [Decimal.write, Nat.toList_repr]
  exact (Nat.toDigits_append_toDigits (by decide) hn (digitValue_lt h)).symm

theorem number_write (n : Nat) : number 10 (Decimal.write n).toList = n := by
  have hdigits : ∀ c ∈ (Decimal.write n).toList, IsDigit c := fun c hc =>
    isDigit_iff.mp (Decimal.isDigit_of_mem_write hc)
  rw [← ofDigits_eq_number hdigits, Decimal.ofDigits_write]

theorem number_zeros_append (count : Nat) :
    number base (List.replicate count '0' ++ cs) = number base cs := by
  have hzero : digitValue '0' = 0 := rfl
  rw [number, List.reverse_append, List.map_append, List.reverse_replicate, List.map_replicate, hzero,
    Nat.ofDigits_append_replicate_zero, number]

/-- **Digits are zeros and the numeral of their number.** -/
theorem exists_zeros (hne : cs ≠ []) (h : ∀ c ∈ cs, IsDigit c) :
    ∃ count, cs = List.replicate count '0' ++ (Decimal.write (number 10 cs)).toList := by
  induction cs using List.reverseRecOn with
  | nil => exact absurd rfl hne
  | append_singleton cs c ih =>
    obtain ⟨hcs, hc⟩ := List.forall_mem_append.mp h
    have hc : IsDigit c := hc c List.mem_cons_self
    rw [number_concat]
    by_cases hnil : cs = []
    · subst hnil
      have hnone : number 10 [] = 0 := rfl
      rw [hnone, Nat.mul_zero, Nat.zero_add, write_digit hc]
      exact ⟨0, rfl⟩
    · obtain ⟨count, hcount⟩ := ih hnil hcs
      by_cases hzero : number 10 cs = 0
      · -- What stands before the last digit is one more zero.
        rw [hzero] at hcount ⊢
        refine ⟨count + 1, ?_⟩
        rw [Nat.mul_zero, Nat.zero_add, write_digit hc, hcount, List.replicate_succ']
        rfl
      · refine ⟨count, ?_⟩
        rw [write_concat (Nat.pos_of_ne_zero hzero) hc, ← List.append_assoc, ← hcount]

end Text
end Disclosure
