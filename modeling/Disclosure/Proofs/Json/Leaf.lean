import Disclosure.Json.Ordered
import Disclosure.Proofs.Keyed
import Disclosure.Proofs.Text.Characters
import Mathlib.Data.List.Lex

/-! The leaves of a JSON value.

A place in a value is the list of the keys and indices that lead there. A leaf is a scalar
that is not null. `leaves` lists the leaves depth first, members by key and items by index:
it has each leaf at its place (`mem_leaves`), and the places ascend (`leaves_ascend`). -/
namespace Disclosure.Json

/-- One step down, to a member or to an item. -/
inductive Segment
  | key (key : String)
  | index (index : Nat)
  deriving Repr, DecidableEq

/-- Members are visited by key, byte for byte, and items by index. -/
def Segment.Before : Segment → Segment → Prop
  | .key a, .key b => Text.bytes a < Text.bytes b
  | .index i, .index j => i < j
  | _, _ => False

abbrev Place := List Segment

/-- The order in which a depth-first walk comes to places. -/
def Place.Before : Place → Place → Prop :=
  List.Lex Segment.Before

def valueAt? : Place → Json → Option Json
  | [], value => some value
  | .key key :: rest, .object members => (Keyed.find? key members).bind (valueAt? rest)
  | .index i :: rest, .array items => items[i]?.bind (valueAt? rest)
  | _ :: _, _ => none

def isScalar : Json → Bool
  | .array _ => false
  | .object _ => false
  | _ => true

def isLeaf : Json → Bool
  | .null => false
  | value => value.isScalar

def LeafAt (root : Json) (place : Place) (leaf : Json) : Prop :=
  root.valueAt? place = some leaf ∧ leaf.isLeaf = true

/-- A leaf of a member or of an item, seen from outside. -/
def under (segment : Segment) (leaf : Place × Json) : Place × Json :=
  (segment :: leaf.1, leaf.2)

mutual

def leaves : Json → List (Place × Json)
  | .null => []
  | .array items => itemLeaves 0 items
  | .object members => memberLeaves members
  | leaf => [([], leaf)]

def itemLeaves (index : Nat) : List Json → List (Place × Json)
  | [] => []
  | item :: rest => (leaves item).map (under (.index index)) ++ itemLeaves (index + 1) rest

def memberLeaves : List (String × Json) → List (Place × Json)
  | [] => []
  | (key, member) :: rest => (leaves member).map (under (.key key)) ++ memberLeaves rest

end

/-! ### Where leaves stand -/

theorem mem_map_under {segment : Segment} {place : Place} {leaf : Json} {found : List (Place × Json)} :
    (place, leaf) ∈ found.map (under segment) ↔
    ∃ rest, place = segment :: rest ∧ (rest, leaf) ∈ found := by
  rw [List.mem_map]
  constructor
  · rintro ⟨⟨rest, v⟩, hmem, heq⟩
    cases heq
    exact ⟨rest, rfl, hmem⟩
  · rintro ⟨rest, rfl, hmem⟩
    exact ⟨(rest, leaf), hmem, rfl⟩

theorem mem_itemLeaves {index : Nat} {items : List Json} {place : Place} {leaf : Json} :
    (place, leaf) ∈ itemLeaves index items ↔
      ∃ i item rest, items[i]? = some item ∧
        place = .index (index + i) :: rest ∧ (rest, leaf) ∈ item.leaves := by
  induction items generalizing index with
  | nil => simp [itemLeaves]
  | cons first others ih =>
    rw [itemLeaves, List.mem_append, mem_map_under, ih]
    constructor
    · rintro (⟨rest, hplace, hmem⟩ | ⟨i, item, rest, hitem, hplace, hmem⟩)
      · exact ⟨0, first, rest, rfl, hplace, hmem⟩
      · exact ⟨i + 1, item, rest, hitem, by rw [hplace, Nat.add_assoc, Nat.add_comm 1], hmem⟩
    · rintro ⟨i, item, rest, hitem, hplace, hmem⟩
      cases i with
      | zero =>
        cases hitem
        exact .inl ⟨rest, hplace, hmem⟩
      | succ i => exact .inr ⟨i, item, rest, hitem, by rw [hplace, Nat.add_assoc, Nat.add_comm 1], hmem⟩

theorem mem_memberLeaves {members : List (String × Json)} {place : Place} {leaf : Json} :
    (place, leaf) ∈ memberLeaves members ↔
      ∃ m ∈ members, ∃ rest, place = .key m.1 :: rest ∧ (rest, leaf) ∈ m.2.leaves := by
  induction members with
  | nil => simp [memberLeaves]
  | cons m others ih =>
    rw [memberLeaves, List.mem_append, mem_map_under, ih]
    simp [List.mem_cons]

theorem orderedItems_iff {items : List Json} : OrderedItems items ↔ ∀ item ∈ items, item.Ordered := by
  induction items with
  | nil => simp [OrderedItems]
  | cons item rest ih => simp [OrderedItems, ih]

theorem mem_leaves_of_isScalar {root : Json} (h : root.isScalar = true) {place : Place} {leaf : Json} :
    (place, leaf) ∈ root.leaves ↔ root.LeafAt place leaf := by
  cases place with
  | nil =>
    cases root with
    | null =>
      refine ⟨nofun, fun ⟨hat, hleaf⟩ => ?_⟩
      cases hat
      cases hleaf
    | array items => cases h
    | object members => cases h
    | _ =>
      refine ⟨fun hmem => ?_, fun ⟨hat, _⟩ => ?_⟩
      · cases List.mem_singleton.mp hmem
        exact ⟨rfl, rfl⟩
      · cases hat
        exact List.mem_singleton.mpr rfl
  | cons segment rest =>
    have hat : root.valueAt? (segment :: rest) = none := by
      cases root <;> cases segment <;> first | rfl | cases h
    refine ⟨fun hmem => ?_, fun ⟨hsome, _⟩ => by rw [hat] at hsome; cases hsome⟩
    cases root with
    | null => cases hmem
    | array items => cases h
    | object members => cases h
    | _ => cases List.mem_singleton.mp hmem

/-- **The leaves are what stands at places and is a leaf.** -/
theorem mem_leaves {root : Json} (h : root.Ordered) {place : Place} {leaf : Json} :
    (place, leaf) ∈ root.leaves ↔ root.LeafAt place leaf := by
  induction place generalizing root with
  | nil =>
    cases root with
    | array items =>
      refine ⟨fun hmem => ?_, fun ⟨hat, hleaf⟩ => ?_⟩
      · obtain ⟨_, _, _, _, hplace, _⟩ := mem_itemLeaves.mp hmem
        cases hplace
      · cases hat
        cases hleaf
    | object members =>
      refine ⟨fun hmem => ?_, fun ⟨hat, hleaf⟩ => ?_⟩
      · obtain ⟨_, _, _, hplace, _⟩ := mem_memberLeaves.mp hmem
        cases hplace
      · cases hat
        cases hleaf
    | _ => exact mem_leaves_of_isScalar rfl
  | cons segment rest ih =>
    cases root with
    | array items =>
      have hitems := orderedItems_iff.mp h
      rw [leaves, mem_itemLeaves]
      constructor
      · rintro ⟨i, item, rest', hitem, hplace, hmem⟩
        rw [Nat.zero_add] at hplace
        cases hplace
        obtain ⟨hat, hleaf⟩ := (ih (hitems item (List.mem_of_getElem? hitem))).mp hmem
        refine ⟨?_, hleaf⟩
        rw [valueAt?, hitem]
        exact hat
      · rintro ⟨hat, hleaf⟩
        cases segment with
        | key key => cases hat
        | index i =>
          obtain ⟨item, hitem, hat⟩ := Option.bind_eq_some_iff.mp hat
          refine ⟨i, item, rest, hitem, by rw [Nat.zero_add], ?_⟩
          exact (ih (hitems item (List.mem_of_getElem? hitem))).mpr ⟨hat, hleaf⟩
    | object members =>
      have hmembers := orderedMembers_iff.mp h.2
      rw [leaves, mem_memberLeaves]
      constructor
      · rintro ⟨m, hm, rest', hplace, hmem⟩
        cases hplace
        obtain ⟨hat, hleaf⟩ := (ih (hmembers m hm)).mp hmem
        refine ⟨?_, hleaf⟩
        rw [valueAt?, (Keyed.find?_eq_some_iff h.1).mpr hm]
        exact hat
      · rintro ⟨hat, hleaf⟩
        cases segment with
        | index i => cases hat
        | key key =>
          obtain ⟨member, hfind, hat⟩ := Option.bind_eq_some_iff.mp hat
          have hm := (Keyed.find?_eq_some_iff h.1).mp hfind
          exact ⟨_, hm, rest, rfl, (ih (hmembers _ hm)).mpr ⟨hat, hleaf⟩⟩
    | _ => exact mem_leaves_of_isScalar rfl

/-! ### The order of the leaves -/

instance : Std.Asymm Segment.Before where
  asymm a b := by
    cases a <;> cases b
    · exact List.lt_asymm
    · exact False.elim
    · exact False.elim
    · exact Nat.lt_asymm

theorem Place.Before.asymm {p q : Place} (h : p.Before q) : ¬ q.Before p :=
  Std.Asymm.asymm (r := List.Lex Segment.Before) p q h

/-- Leaves under one segment are in the order in which they are there. -/
theorem pairwise_under {found : List (Place × Json)}
    (h : found.Pairwise (·.1.Before ·.1)) (segment : Segment) :
    (found.map (under segment)).Pairwise (·.1.Before ·.1) :=
  List.pairwise_map.mpr (h.imp List.Lex.cons)

mutual

/-- **The leaves are listed in the order of a depth-first walk.** -/
theorem leaves_ascend : (root : Json) → root.Ordered → root.leaves.Pairwise (·.1.Before ·.1)
  | .null, _ => List.Pairwise.nil
  | .bool _, _ => List.pairwise_singleton _ _
  | .number _, _ => List.pairwise_singleton _ _
  | .string _, _ => List.pairwise_singleton _ _
  | .array items, h => itemLeaves_ascend 0 items h
  | .object members, h => memberLeaves_ascend members h.1 h.2

theorem itemLeaves_ascend : (index : Nat) → (items : List Json) → OrderedItems items →
    (itemLeaves index items).Pairwise (·.1.Before ·.1)
  | _, [], _ => List.Pairwise.nil
  | index, item :: rest, h => by
    rw [itemLeaves, List.pairwise_append]
    refine ⟨pairwise_under (leaves_ascend item h.1) _, itemLeaves_ascend (index + 1) rest h.2, ?_⟩
    rintro ⟨p, v⟩ hp ⟨q, w⟩ hq
    obtain ⟨_, rfl, _⟩ := mem_map_under.mp hp
    obtain ⟨i, _, _, _, rfl, _⟩ := mem_itemLeaves.mp hq
    have hlt : index < index + 1 + i := by omega
    exact List.Lex.rel hlt

theorem memberLeaves_ascend : (members : List (String × Json)) → Keyed.Ordered members →
    OrderedMembers members → (memberLeaves members).Pairwise (·.1.Before ·.1)
  | [], _, _ => List.Pairwise.nil
  | (key, member) :: rest, hkeys, h => by
    obtain ⟨hfirst, hrest⟩ := List.pairwise_cons.mp hkeys
    rw [memberLeaves, List.pairwise_append]
    refine ⟨pairwise_under (leaves_ascend member h.1) _, memberLeaves_ascend rest hrest h.2, ?_⟩
    rintro ⟨p, v⟩ hp ⟨q, w⟩ hq
    obtain ⟨_, rfl, _⟩ := mem_map_under.mp hp
    obtain ⟨m, hm, _, rfl, _⟩ := mem_memberLeaves.mp hq
    exact List.Lex.rel (Text.lt_iff_bytes_lt.mp (hfirst m hm))

end

end Disclosure.Json
