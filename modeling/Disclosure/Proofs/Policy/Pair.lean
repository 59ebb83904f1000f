import Disclosure.Policy.Label
import Disclosure.Proofs.Text.Characters
import Mathlib.Data.List.Forall2

/-! How a rule is shown.

A rule has a heading and a leaf, which come from its group and its key alone (`Pair`), and a
value in decimal or as bytes (`Rendered`). An entry is a leaf with values (`Line`), and shows
which leaf that is. -/
namespace Disclosure.Label

/-- The heading and the leaf of a rule: its group and its whole key, or else the first segment of
its key and the rest. A key without dots is its own heading. -/
inductive Pair (rule : Rule) : String → String → Prop
  | grouped (hgroup : rule.group ≠ "") : Pair rule rule.group rule.key
  | dotted {first rest : String} (hgroup : rule.group = "") (hkey : rule.key = first ++ "." ++ rest)
      (hfirst : '.' ∉ first.toList) : Pair rule first rest
  | whole (hgroup : rule.group = "") (hkey : '.' ∉ rule.key.toList) : Pair rule rule.key rule.key

/-! ### The parts of a rule -/

section Parts
variable {rule first lead : Rule} {key head rest heading leaf : String}

theorem cutDot?_of_whole (h : '.' ∉ key.toList) : cutDot? key = none := by
  unfold cutDot?
  rw [Text.span_of_not_mem h]

theorem cutDot?_of_dotted (h : '.' ∉ head.toList) : cutDot? (head ++ "." ++ rest) = some (head, rest) := by
  have hkey : (head ++ "." ++ rest).toList = head.toList ++ '.' :: rest.toList := by simp
  unfold cutDot?
  rw [hkey, Text.span_append_cons h]
  simp

theorem exists_dotted (h : '.' ∈ key.toList) :
    ∃ head rest, '.' ∉ head.toList ∧ key = head ++ "." ++ rest := by
  obtain ⟨before, after, hkey, hbefore⟩ := List.eq_append_cons_of_mem h
  refine ⟨String.ofList before, String.ofList after, by rwa [String.toList_ofList], ?_⟩
  rw [← String.toList_inj, hkey]
  simp

/-- What comes after a segment is not the whole key. -/
theorem rest_ne_key (h : key = head ++ "." ++ rest) : rest ≠ key := by
  intro heq
  have hlength := congrArg String.length (heq.trans h)
  simp only [String.length_append] at hlength
  have hdot : ".".length = 1 := rfl
  omega

theorem parts_of_group (h : rule.group ≠ "") : parts rule = (rule.group, rule.key) :=
  if_neg h

theorem parts_of_dotted (h : rule.group = "")
    (hkey : rule.key = head ++ "." ++ rest) (hhead : '.' ∉ head.toList) :
    parts rule = (head, rest) := by
  rw [parts, if_pos h, hkey, cutDot?_of_dotted hhead]
  rfl

theorem parts_of_whole (h : rule.group = "") (hkey : '.' ∉ rule.key.toList) :
    parts rule = (rule.key, rule.key) := by
  rw [parts, if_pos h, cutDot?_of_whole hkey]
  rfl

/-- **Each rule has one heading and one leaf.** -/
theorem pair_iff : Pair rule heading leaf ↔ parts rule = (heading, leaf) := by
  constructor
  · intro h
    cases h with
    | grouped hgroup => exact parts_of_group hgroup
    | dotted hgroup hkey hfirst => exact parts_of_dotted hgroup hkey hfirst
    | whole hgroup hkey => exact parts_of_whole hgroup hkey
  · intro h
    by_cases hgroup : rule.group = ""
    · by_cases hdot : '.' ∈ rule.key.toList
      · obtain ⟨head, rest, hhead, hkey⟩ := exists_dotted hdot
        rw [parts_of_dotted hgroup hkey hhead] at h
        cases h
        exact .dotted hgroup hkey hhead
      · rw [parts_of_whole hgroup hdot] at h
        cases h
        exact .whole hgroup hdot
    · rw [parts_of_group hgroup] at h
      cases h
      exact .grouped hgroup

theorem pair_parts (rule : Rule) : Pair rule (parts rule).1 (parts rule).2 :=
  pair_iff.mpr rfl

theorem leaf_of_whole (h : '.' ∉ rule.key.toList) : (parts rule).2 = rule.key := by
  by_cases hgroup : rule.group = ""
  · rw [parts_of_whole hgroup h]
  · rw [parts_of_group hgroup]

/-- Rules of one key have one leaf if both have groups or neither has. -/
theorem leaf_congr (hkey : first.key = lead.key) (h : first.group = "" ↔ lead.group = "") :
    (parts first).2 = (parts lead).2 := by
  by_cases hgroup : first.group = ""
  · rw [parts, parts, if_pos hgroup, if_pos (h.mp hgroup), hkey]
  · rw [parts_of_group hgroup, parts_of_group (mt h.mpr hgroup), hkey]

end Parts

/-! ### Values -/

/-- A value as it is shown. -/
inductive Rendered (value : Bytes) : String → Prop
  | decimal (h : Bytes.ofBigEndian value < Field.order) :
      Rendered value (Decimal.write (Bytes.ofBigEndian value))
  | hex (h : Field.order ≤ Bytes.ofBigEndian value) : Rendered value ("0x" ++ Hex.encode value)

theorem rendered_valueText (value : Bytes) : Rendered value (valueText value) := by
  unfold valueText
  by_cases h : Bytes.ofBigEndian value < Field.order
  · rw [if_pos h]
    exact .decimal h
  · rw [if_neg h]
    exact .hex (Nat.not_lt.mp h)

theorem rendered_values (bound : List Rule) :
    List.Forall₂ (fun rule value => Rendered rule.value value) bound
      (bound.map fun rule => valueText rule.value) := by
  rw [List.forall₂_map_right_iff, List.forall₂_same]
  exact fun rule _ => rendered_valueText rule.value

variable {values : List String}

theorem eq_values {bound : List Rule}
    (h : List.Forall₂ (fun rule value => Rendered rule.value value) bound values) :
    values = bound.map fun rule => valueText rule.value := by
  induction h with
  | nil => rfl
  | cons hvalue _ ih =>
    rw [List.map_cons, ← ih]
    congr 1
    unfold valueText
    cases hvalue with
    | decimal hlt => exact (if_pos hlt).symm
    | hex hle => exact (if_neg (Nat.not_lt.mpr hle)).symm

/-! ### Entries -/

/-- The entry of a leaf with its values, in brackets where there are several. -/
inductive Line (leaf : String) : List String → String → Prop
  | single (value : String) : Line leaf [value] (leaf ++ " = " ++ value)
  | several (values : List String) (h : 1 < values.length) :
    Line leaf values (leaf ++ " = [" ++ ", ".intercalate values ++ "]")

variable {leaf leaf' entry : String}

/-- An entry shows one leaf. -/
theorem Line.leaf_eq (h : Line leaf values entry) (h' : Line leaf' values entry) : leaf = leaf' := by
  cases h with
  | single value =>
    generalize hentry : leaf ++ " = " ++ value = entry at h'
    cases h' with
    | single => simpa using hentry
    | several _ hmany => exact absurd hmany (Nat.lt_irrefl 1)
  | several _ hmany =>
    generalize hentry : leaf ++ " = [" ++ ", ".intercalate values ++ "]" = entry at h'
    cases h' with
    | single => exact absurd hmany (Nat.lt_irrefl 1)
    | several => simpa using hentry

end Disclosure.Label
