import Disclosure.Build
import Disclosure.Proofs.Keyed
import Disclosure.Proofs.Text.Numeral

/-! The readers of an assignment.

An assignment is read by name, as a list and as JSON, and every number in the JSON is a text
that can be read back. Where no name repeats the readers agree on every signal
(`isMapping_iff`); where one does, the first reads the first value of the name, the second
has both and the third has the last. -/
namespace Disclosure

namespace Json

mutual

/-- The texts in a value, in the order in which they stand there. -/
def texts : Json → List String
  | .string text => [text]
  | .array items => itemTexts items
  | .object members => memberTexts members
  | _ => []

def itemTexts : List Json → List String
  | [] => []
  | item :: rest => texts item ++ itemTexts rest

def memberTexts : List (String × Json) → List String
  | [] => []
  | (_, member) :: rest => texts member ++ memberTexts rest

end

/-- The member of a name. -/
def member? (name : String) : Json → Option Json
  | .object members => Keyed.find? name members
  | _ => none

theorem itemTexts_eq (items : List Json) : itemTexts items = items.flatMap texts := by
  induction items with
  | nil => rfl
  | cons item rest ih => rw [itemTexts, ih, List.flatMap_cons]

theorem memberTexts_eq (members : List (String × Json)) :
    memberTexts members = members.flatMap fun m => m.2.texts := by
  induction members with
  | nil => rfl
  | cons m rest ih => rw [memberTexts, ih, List.flatMap_cons]

end Json

@[simp] theorem SignalValue.texts_numeral (n : Nat) : (numeral n).texts = [Decimal.write n] := by
  rw [numeral, Json.texts]

theorem SignalValue.texts_numerals (ns : List Nat) :
    (Json.array (ns.map numeral)).texts = ns.map Decimal.write := by
  rw [Json.texts, Json.itemTexts_eq, List.flatMap_map]
  simp only [texts_numeral]
  exact List.map_eq_flatMap.symm

/-- A value is written with the numerals of its elements. -/
theorem SignalValue.texts_toJson (v : SignalValue) : v.toJson.texts = v.elements.map Decimal.write := by
  cases v with
  | scalar n => exact texts_numeral n
  | array ns => exact texts_numerals ns

namespace Assignment
variable {a : Assignment}

/-- Every number of an assignment. -/
def numbers (a : Assignment) : List Nat :=
  a.signals.flatMap (·.2.elements) ++ (a.claimsKey.toList ++ a.claimsProof.flatten)

/-- What is read under one name is what is listed under it and, as texts, what the JSON has
under it. -/
structure AgreesOn (a : Assignment) (name : String) (v : SignalValue) : Prop where
  found : a.find? name = some v
  listed : ∀ elements, (name, elements) ∈ a.circuitInput ↔ elements = v.elements
  written : ∃ member, a.toJson.member? name = some member ∧
    member.texts.mapM Decimal.read = .ok v.elements

/-- No name is listed twice, and the readers agree on every signal. -/
structure IsMapping (a : Assignment) : Prop where
  distinct : (a.circuitInput.map (·.1)).Nodup
  agrees : ∀ name ∈ a.signals.map (·.1), ∃ v, a.AgreesOn name v

theorem map_fst_members (a : Assignment) : a.members.map (·.1) = a.circuitInput.map (·.1) := by
  unfold members circuitInput
  cases a.claimsKey <;> simp

theorem mem_circuitInput {s : String × SignalValue} (h : s ∈ a.signals) :
    (s.1, s.2.elements) ∈ a.circuitInput :=
  List.mem_append_left _ (List.mem_map_of_mem h)

theorem mem_members {s : String × SignalValue} (h : s ∈ a.signals) : (s.1, s.2.toJson) ∈ a.members :=
  List.mem_append_left _ (List.mem_map_of_mem h)

theorem nodup_signals (h : (a.circuitInput.map (·.1)).Nodup) : (a.signals.map (·.1)).Nodup := by
  rw [circuitInput, List.map_append, List.map_map] at h
  exact (List.nodup_append.mp h).1

theorem agreesOn_of_mem (h : (a.circuitInput.map (·.1)).Nodup)
    {s : String × SignalValue} (hs : s ∈ a.signals) :
    a.AgreesOn s.1 s.2 where
  found := Keyed.find?_of_mem (nodup_signals h) hs
  listed elements := by
    refine ⟨fun hlisted => ?_, fun heq => heq ▸ mem_circuitInput hs⟩
    have hfound := Keyed.find?_of_mem h (mem_circuitInput hs)
    rw [Keyed.find?_of_mem h hlisted] at hfound
    exact Option.some.inj hfound
  written := by
    have hmembers : (a.members.map (·.1)).Nodup := by rwa [map_fst_members]
    refine ⟨s.2.toJson, Keyed.find?_ofList_of_mem hmembers (mem_members hs), ?_⟩
    rw [SignalValue.texts_toJson]
    exact Decimal.mapM_read_write _

/-- **Where no name repeats, all readers agree.** -/
theorem isMapping_iff : a.IsMapping ↔ (a.circuitInput.map (·.1)).Nodup := by
  refine ⟨fun h => h.distinct, fun h => ⟨h, fun name hname => ?_⟩⟩
  obtain ⟨s, hs, rfl⟩ := List.mem_map.mp hname
  exact ⟨s.2, agreesOn_of_mem h hs⟩

/-! ### The texts of the JSON -/

/-- The JSON has no texts but numerals of the assignment's numbers. -/
theorem exists_number_of_mem_texts {text : String} (h : text ∈ a.toJson.texts) :
    ∃ n ∈ a.numbers, text = Decimal.write n := by
  rw [toJson, Json.texts, Json.memberTexts_eq, List.mem_flatMap] at h
  obtain ⟨m, hm, htext⟩ := h
  have hm := Keyed.mem_of_mem_ofList hm
  unfold members at hm
  rcases List.mem_append.mp hm with hm | hm
  · obtain ⟨s, hs, rfl⟩ := List.mem_map.mp hm
    rw [SignalValue.texts_toJson] at htext
    obtain ⟨n, hn, rfl⟩ := List.mem_map.mp htext
    exact ⟨n, List.mem_append_left _ (List.mem_flatMap.mpr ⟨s, hs, hn⟩), rfl⟩
  · unfold numbers
    cases hkey : a.claimsKey with
    | none =>
      rw [hkey] at hm
      cases hm
    | some key =>
      rw [hkey] at hm
      simp only [List.mem_cons, List.not_mem_nil, or_false] at hm
      rcases hm with rfl | rfl
      · rw [SignalValue.texts_numeral, List.mem_singleton] at htext
        exact ⟨key, by simp, htext⟩
      · rw [Json.texts, Json.itemTexts_eq, List.flatMap_map, List.mem_flatMap] at htext
        obtain ⟨row, hrow, htext⟩ := htext
        rw [SignalValue.texts_numerals] at htext
        obtain ⟨n, hn, rfl⟩ := List.mem_map.mp htext
        refine ⟨n, ?_, rfl⟩
        exact List.mem_append_right _ (List.mem_append_right _ (List.mem_flatten.mpr ⟨row, hrow, hn⟩))

end Assignment
end Disclosure
