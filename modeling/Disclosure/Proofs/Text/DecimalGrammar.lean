import Disclosure.Proofs.Text.Numeral

/-! The grammar of decimal numbers.

`Denotes` says which texts denote which number, and reads none of them. Reading takes exactly
these texts (`read_eq_ok_iff`), and the field those whose number is below the order. -/
namespace Disclosure

namespace Decimal
open Text (IsDigit number)

/-- A digit, and then digits and underscores. -/
inductive IsUnsigned : List Char → Prop
  | intro {c : Char} {rest : List Char} (first : IsDigit c) (others : ∀ c ∈ rest, IsDigit c ∨ c = '_') :
      IsUnsigned (c :: rest)

/-- A plus sign may stand in front, and underscores count for nothing. -/
inductive Denotes : List Char → Nat → Prop
  | bare {cs : List Char} (h : IsUnsigned cs) : Denotes cs (number 10 (cs.filter (· ≠ '_')))
  | signed {cs : List Char} (h : IsUnsigned cs) : Denotes ('+' :: cs) (number 10 (cs.filter (· ≠ '_')))

variable {cs : List Char} {text : String} {n : Nat}

theorem isDigit_of_mem_filter (h : IsUnsigned cs) : ∀ c ∈ cs.filter (· ≠ '_'), IsDigit c := by
  cases h with
  | intro first others =>
    intro c hc
    obtain ⟨hmem, hscore⟩ := List.mem_filter.mp hc
    rcases List.mem_cons.mp hmem with rfl | hmem
    · exact first
    · exact (others c hmem).resolve_right (of_decide_eq_true hscore)

/-! ### The sign -/

theorem eq_or_eq_signed (cs : List Char) : cs = unsigned cs ∨ cs = '+' :: unsigned cs := by
  unfold unsigned
  split
  · split
    · exact .inl rfl
    · exact .inr rfl
  · exact .inl rfl

theorem not_plus_of_isDigit {c : Char} (h : IsDigit c) : c ≠ '+' := by
  rintro rfl
  exact absurd h (by decide)

theorem unsigned_of_isUnsigned (h : IsUnsigned cs) : unsigned cs = cs := by
  cases h with
  | intro first _ =>
    unfold unsigned
    split
    case h_1 hplus =>
      cases hplus
      exact absurd rfl (not_plus_of_isDigit first)
    case h_2 => rfl

theorem unsigned_plus (h : IsUnsigned cs) : unsigned ('+' :: cs) = cs := by
  cases h with
  | @intro c rest first _ =>
    have hhead : (c :: rest).head? ≠ some '+' := fun heq => not_plus_of_isDigit first (Option.some.inj heq)
    exact if_neg hhead

/-! ### Reading -/

/-- What the reader asks of a text without its sign. -/
theorem isUnsigned_iff : IsUnsigned cs ↔
    cs ≠ [] ∧ cs.head? ≠ some '_' ∧ (cs.all fun c => c.isDigit || c == '_') = true := by
  have hclass : ∀ c : Char, (c.isDigit || c == '_') = true ↔ IsDigit c ∨ c = '_' := fun c => by
    rw [Bool.or_eq_true, Text.isDigit_iff, beq_iff_eq]
  rw [List.all_eq_true]
  constructor
  · intro h
    cases h with
    | intro first others =>
      refine ⟨List.cons_ne_nil _ _, fun hscore => ?_, fun c hc => (hclass c).mpr ?_⟩
      · cases hscore
        exact absurd first (by decide)
      · rcases List.mem_cons.mp hc with rfl | hc
        · exact .inl first
        · exact others c hc
  · rintro ⟨hne, hscore, hall⟩
    cases cs with
    | nil => exact absurd rfl hne
    | cons c rest =>
      have hfirst : c ≠ '_' := fun heq => hscore (congrArg some heq)
      exact .intro (((hclass c).mp (hall c List.mem_cons_self)).resolve_right hfirst)
        fun d hd => (hclass d).mp (hall d (List.mem_cons_of_mem c hd))

theorem read_of_isUnsigned (h : IsUnsigned (unsigned text.toList)) :
    read text = .ok (number 10 ((unsigned text.toList).filter (· ≠ '_'))) := by
  obtain ⟨hne, hscore, hall⟩ := isUnsigned_iff.mp h
  unfold read
  dsimp only
  rw [if_neg hne, if_neg hscore, if_pos hall, Text.ofDigits_eq_number (isDigit_of_mem_filter h)]

theorem isUnsigned_of_read (h : read text = .ok n) : IsUnsigned (unsigned text.toList) := by
  unfold read at h
  dsimp only at h
  split at h
  · cases h
  rename_i hne
  split at h
  · cases h
  rename_i hscore
  split at h
  · rename_i hall
    exact isUnsigned_iff.mpr ⟨hne, hscore, hall⟩
  · cases h

/-- **A text is read exactly when it denotes a number**, and as that number. -/
theorem read_eq_ok_iff : read text = .ok n ↔ Denotes text.toList n := by
  constructor
  · intro h
    have hbody := isUnsigned_of_read h
    rw [read_of_isUnsigned hbody] at h
    cases h
    obtain hbare | hsigned := eq_or_eq_signed text.toList
    · rw [← hbare] at hbody ⊢
      exact .bare hbody
    · generalize unsigned text.toList = body at hbody hsigned
      rw [hsigned]
      exact .signed hbody
  · intro h
    generalize htext : text.toList = cs at h
    have hread : ∀ body, unsigned cs = body → IsUnsigned body →
        read text = .ok (number 10 (body.filter (· ≠ '_'))) := by
      rintro body rfl hbody
      rw [← htext] at hbody ⊢
      exact read_of_isUnsigned hbody
    cases h with
    | bare hbody => exact hread _ (unsigned_of_isUnsigned hbody) hbody
    | signed hbody => exact hread _ (unsigned_plus hbody) hbody

end Decimal

namespace Field
variable {text : String} {n : Nat}

/-- The field takes a text exactly when it denotes a number below the order. -/
theorem ofDecimal_eq_ok_iff : ofDecimal text = .ok n ↔ Decimal.Denotes text.toList n ∧ n < order := by
  unfold ofDecimal
  rw [Outcome.bind_eq_ok_iff, ← Decimal.read_eq_ok_iff]
  constructor
  · rintro ⟨m, hread, h⟩
    obtain ⟨_, hcheck, h⟩ := Outcome.bind_eq_ok_iff.mp h
    cases h
    exact ⟨Outcome.mapError_eq_ok_iff.mp hread, check_eq_ok_iff.mp hcheck⟩
  · rintro ⟨hread, hlt⟩
    exact ⟨n, Outcome.mapError_eq_ok_iff.mpr hread,
      Outcome.bind_eq_ok_iff.mpr ⟨(), check_eq_ok_iff.mpr hlt, rfl⟩⟩

end Field
end Disclosure
