import Disclosure.Json.Document

/-! Values whose objects list their members in key order.

Every value read from a document is ordered (`ordered_of_value`), whatever the order
and the repetitions in the text. -/
namespace Disclosure.Json

mutual

def Ordered : Json → Prop
  | .array items => OrderedItems items
  | .object members => Keyed.Ordered members ∧ OrderedMembers members
  | _ => True

def OrderedItems : List Json → Prop
  | [] => True
  | item :: rest => Ordered item ∧ OrderedItems rest

def OrderedMembers : List (String × Json) → Prop
  | [] => True
  | (_, member) :: rest => Ordered member ∧ OrderedMembers rest

end

theorem orderedMembers_iff {members : List (String × Json)} :
    OrderedMembers members ↔ ∀ m ∈ members, Ordered m.2 := by
  induction members with
  | nil => simp [OrderedMembers]
  | cons m rest ih => simp [OrderedMembers, ih]

/-- An object's members, ordered throughout. -/
def OrderedObject (members : List (String × Json)) : Prop :=
  Keyed.Ordered members ∧ OrderedMembers members

theorem orderedObject_ofList {members : List (String × Json)} (h : OrderedMembers members) :
    OrderedObject (Keyed.ofList members) :=
  ⟨Keyed.ordered_ofList members,
    orderedMembers_iff.mpr fun m hm => orderedMembers_iff.mp h m (Keyed.mem_of_mem_ofList hm)⟩

/-- An object whose members, and theirs in turn, are in key order. -/
structure Object where
  members : List (String × Json)
  ordered : OrderedObject members

mutual

theorem ordered_of_value : (node : Node) → {v : Json} → node.value = .ok v → v.Ordered
  | .null, _, h => by cases h; trivial
  | .bool _, _, h => by cases h; trivial
  | .number _, _, h => by cases h; trivial
  | .string _, _, h => by cases h; trivial
  | .flawed _, _, h => by cases h
  | .array items ending, v, h => by
    simp only [Node.value] at h
    cases hi : Node.itemValues items with
    | error fault => simp [hi, bind, Except.bind] at h
    | ok values =>
      have hv := ordered_of_itemValues items hi
      cases ending with
      | none => cases hi ▸ h; exact hv
      | some fault => simp [hi, bind, Except.bind, Node.closed] at h
  | .object members ending, v, h => by
    simp only [Node.value] at h
    cases hm : Node.memberValues members with
    | error fault => simp [hm, bind, Except.bind] at h
    | ok values =>
      have hv := ordered_of_memberValues members hm
      cases ending with
      | none => cases hm ▸ h; exact orderedObject_ofList hv
      | some fault => simp [hm, bind, Except.bind, Node.closed] at h

theorem ordered_of_itemValues : (items : List Node) → {vs : List Json} →
    Node.itemValues items = .ok vs → OrderedItems vs
  | [], _, h => by cases h; trivial
  | node :: rest, vs, h => by
    simp only [Node.itemValues] at h
    cases hn : node.value with
    | error fault => simp [hn, bind, Except.bind] at h
    | ok v =>
      cases hr : Node.itemValues rest with
      | error fault => simp [hn, hr, bind, Except.bind] at h
      | ok vs' =>
        simp only [hn, hr, bind, Except.bind, Except.ok.injEq] at h
        subst h
        exact ⟨ordered_of_value node hn, ordered_of_itemValues rest hr⟩

theorem ordered_of_memberValues : (members : List (Key × Node)) → {vs : List (String × Json)} →
    Node.memberValues members = .ok vs → OrderedMembers vs
  | [], _, h => by cases h; trivial
  | (.error _, _) :: _, _, h => by cases h
  | (.ok key, node) :: rest, vs, h => by
    simp only [Node.memberValues] at h
    cases hn : node.value with
    | error fault => simp [hn, bind, Except.bind] at h
    | ok v =>
      cases hr : Node.memberValues rest with
      | error fault => simp [hn, hr, bind, Except.bind] at h
      | ok vs' =>
        simp only [hn, hr, bind, Except.bind, Except.ok.injEq] at h
        subst h
        exact ⟨ordered_of_value node hn, ordered_of_memberValues rest hr⟩

end

end Disclosure.Json
