import Disclosure.Claim.Sparse
import Mathlib.Algebra.Group.Nat.Defs
import Mathlib.Data.Nat.Basic

/-! The nodes of a claims tree.

`node` is the tree over a row of leaf hashes, written down height by height: past the
last leaf there is nothing, and nothing is zero. A level `Lists` a height when it holds
exactly the nodes over some leaf. Building the parents keeps that, whatever the order in
which the slots are visited (`Lists.parents`), so the levels of a climb are the heights
of the tree, and the siblings it hands out are the tree's. -/
namespace Disclosure.Claim

/-- The node at a height and slot over a row of leaves. -/
def node (leaves : List Field.Element) : (height slot : Nat) → Field.Element
  | 0, slot => leaves.getD slot 0
  | height + 1, slot =>
    if leaves.length ≤ slot * 2 ^ (height + 1) then 0
    else Field.hashPair (node leaves height (2 * slot)) (node leaves height (2 * slot + 1))

/-- The siblings of the `count` nodes from a slot upwards. -/
def siblingsFrom (leaves : List Field.Element) (height count slot : Nat) : List Field.Element :=
  (List.range count).map fun k => node leaves (height + k) ((slot / 2 ^ k) ^^^ 1)

variable {leaves : List Field.Element}

theorem node_succ {height slot : Nat} (h : slot * 2 ^ (height + 1) < leaves.length) :
    node leaves (height + 1) slot =
      Field.hashPair (node leaves height (2 * slot)) (node leaves height (2 * slot + 1)) := by
  rw [node, if_neg (Nat.not_le.mpr h)]

theorem node_eq_zero {height slot : Nat} (h : leaves.length ≤ slot * 2 ^ height) :
    node leaves height slot = 0 := by
  cases height with
  | zero =>
    rw [Nat.pow_zero, Nat.mul_one] at h
    rw [node, List.getD_eq_getElem?_getD, List.getElem?_eq_none h]
    rfl
  | succ height => rw [node, if_pos h]

/-- A slot is over some leaf exactly when its left child is. -/
theorem double_mul_two_pow (height slot : Nat) : 2 * slot * 2 ^ height = slot * 2 ^ (height + 1) := by
  rw [Nat.pow_succ, Nat.mul_comm 2 slot, Nat.mul_assoc, Nat.mul_comm 2]

@[simp] theorem length_siblingsFrom (height count slot : Nat) :
    (siblingsFrom leaves height count slot).length = count := by
  simp [siblingsFrom]

theorem siblingsFrom_succ (height count slot : Nat) :
    siblingsFrom leaves height (count + 1) slot =
      node leaves height (slot ^^^ 1) :: siblingsFrom leaves (height + 1) count (slot / 2) := by
  unfold siblingsFrom
  rw [List.range_succ_eq_map, List.map_cons, List.map_map]
  congr 1
  · rw [Nat.pow_zero, Nat.div_one, Nat.add_zero]
  · refine List.map_congr_left fun k _ => ?_
    show node leaves (height + (k + 1)) ((slot / 2 ^ (k + 1)) ^^^ 1) = _
    rw [Nat.pow_succ', ← Nat.div_div_eq_div_mul, Nat.add_right_comm height 1 k, Nat.add_assoc]

/-! ### The two children of a node -/

theorem xor_one_of_even {slot : Nat} (h : slot % 2 = 0) : slot ^^^ 1 = slot + 1 := by
  have hdiv := Nat.xor_div_two (a := slot) (b := 1)
  have hmod := Nat.xor_mod_two_eq_one (a := slot) (b := 1)
  rw [show 1 / 2 = 0 from rfl, Nat.xor_zero] at hdiv
  omega

theorem xor_one_of_odd {slot : Nat} (h : slot % 2 ≠ 0) : slot ^^^ 1 = slot - 1 := by
  have hdiv := Nat.xor_div_two (a := slot) (b := 1)
  have hmod := Nat.xor_mod_two_eq_one (a := slot) (b := 1)
  rw [show 1 / 2 = 0 from rfl, Nat.xor_zero] at hdiv
  omega

/-! ### One level -/

namespace Level

theorem node?_cons (entry : Nat × Field.Element) (level : Level) (slot : Nat) :
    node? (entry :: level) slot = if entry.1 = slot then some entry.2 else level.node? slot := by
  unfold node?
  rw [List.find?_cons]
  by_cases h : entry.1 = slot
  · rw [if_pos h, decide_eq_true h]
    rfl
  · rw [if_neg h, decide_eq_false h]

theorem mem_slots {level : Level} {slot : Nat} : slot ∈ level.slots ↔ (level.node? slot).isSome := by
  induction level with
  | nil => exact ⟨nofun, nofun⟩
  | cons entry rest ih =>
    rw [node?_cons, slots, List.map_cons, List.mem_cons]
    by_cases h : entry.1 = slot
    · rw [if_pos h]
      exact ⟨fun _ => rfl, fun _ => .inl h.symm⟩
    · rw [if_neg h]
      exact ⟨fun hmem => ih.mp (hmem.resolve_left fun heq => h heq.symm), fun hs => .inr (ih.mpr hs)⟩

theorem node?_addParent (level made : Level) (slot q : Nat) :
    (addParent level made slot).node? q =
      if (made.node? q).isSome then made.node? q
      else if slot / 2 = q then
        some (Field.hashPair (level.node (2 * q)) (level.node (2 * q + 1)))
      else none := by
  unfold addParent
  by_cases hmade : (made.node? (slot / 2)).isSome
  · rw [if_pos hmade]
    by_cases hq : (made.node? q).isSome
    · rw [if_pos hq]
    · have hne : slot / 2 ≠ q := fun heq => hq (heq ▸ hmade)
      rw [if_neg hq, if_neg hne]
      exact Option.not_isSome_iff_eq_none.mp hq
  · rw [if_neg hmade, node?_cons]
    by_cases heq : slot / 2 = q
    · subst heq
      rw [if_pos rfl, if_neg hmade, if_pos rfl]
    · rw [if_neg heq, if_neg heq]
      by_cases hq : (made.node? q).isSome
      · rw [if_pos hq]
      · rw [if_neg hq]
        exact Option.not_isSome_iff_eq_none.mp hq

/-- Visiting slots makes the parent of each, once. -/
theorem node?_foldl_addParent (level made : Level) (visits : List Nat) (q : Nat) :
    (visits.foldl (addParent level) made).node? q =
      if (made.node? q).isSome then made.node? q
      else if ∃ slot ∈ visits, slot / 2 = q then
        some (Field.hashPair (level.node (2 * q)) (level.node (2 * q + 1)))
      else none := by
  induction visits generalizing made with
  | nil =>
    rw [List.foldl_nil]
    by_cases hq : (made.node? q).isSome
    · rw [if_pos hq]
    · rw [if_neg hq, if_neg (by rintro ⟨_, h, _⟩; cases h)]
      exact Option.not_isSome_iff_eq_none.mp hq
  | cons slot rest ih =>
    rw [List.foldl_cons, ih, node?_addParent]
    by_cases hq : (made.node? q).isSome
    · rw [if_pos hq, if_pos hq, if_pos hq]
    · rw [if_neg hq, if_neg hq]
      by_cases hs : slot / 2 = q
      · have hex : ∃ t ∈ slot :: rest, t / 2 = q := ⟨slot, List.mem_cons_self, hs⟩
        simp only [hs, hex, Option.isSome_some, if_true]
      · have hiff : (∃ t ∈ slot :: rest, t / 2 = q) ↔ ∃ t ∈ rest, t / 2 = q := by
          constructor
          · rintro ⟨t, ht, h⟩
            rcases List.mem_cons.mp ht with rfl | ht
            · exact absurd h hs
            · exact ⟨t, ht, h⟩
          · rintro ⟨t, ht, h⟩
            exact ⟨t, List.mem_cons_of_mem _ ht, h⟩
        simp only [hs, hiff, Option.isSome_none, Bool.false_eq_true, if_false]

theorem node?_parents (level : Level) (visits : List Nat) (q : Nat) :
    (level.parents visits).node? q =
      if ∃ slot ∈ visits, slot / 2 = q then
        some (Field.hashPair (level.node (2 * q)) (level.node (2 * q + 1)))
      else none :=
  node?_foldl_addParent level [] visits q

/-- The level holds the nodes of a height that are over some leaf, and no others. -/
def Lists (leaves : List Field.Element) (height : Nat) (level : Level) : Prop :=
  ∀ slot, level.node? slot =
    if slot * 2 ^ height < leaves.length then some (Claim.node leaves height slot) else none

namespace Lists
variable {height : Nat} {level : Level}

theorem node (h : Lists leaves height level) (slot : Nat) :
    level.node slot = Claim.node leaves height slot := by
  unfold Level.node
  rw [h slot]
  by_cases hs : slot * 2 ^ height < leaves.length
  · rw [if_pos hs]
    rfl
  · rw [if_neg hs, node_eq_zero (Nat.not_lt.mp hs)]
    rfl

theorem mem_slots (h : Lists leaves height level) (slot : Nat) :
    slot ∈ level.slots ↔ slot * 2 ^ height < leaves.length := by
  rw [Level.mem_slots, h slot]
  by_cases hs : slot * 2 ^ height < leaves.length
  · rw [if_pos hs]
    exact ⟨fun _ => hs, fun _ => rfl⟩
  · rw [if_neg hs]
    exact ⟨nofun, fun h => absurd h hs⟩

/-- **The parents of a height are the next height**, in whatever order its slots are
visited, and however often. -/
theorem parents (h : Lists leaves height level) {visits : List Nat}
    (hv : ∀ slot, slot ∈ visits ↔ slot ∈ level.slots) :
    Lists leaves (height + 1) (level.parents visits) := by
  intro q
  -- A parent is over some leaf when one of its children is, and then its left child is.
  have hiff : (∃ slot ∈ visits, slot / 2 = q) ↔ q * 2 ^ (height + 1) < leaves.length := by
    constructor
    · rintro ⟨slot, hslot, rfl⟩
      have hlt := (h.mem_slots slot).mp ((hv slot).mp hslot)
      rw [← double_mul_two_pow]
      exact Nat.lt_of_le_of_lt (Nat.mul_le_mul_right _ (Nat.mul_div_le slot 2)) hlt
    · intro hlt
      rw [← double_mul_two_pow] at hlt
      exact ⟨2 * q, (hv _).mpr ((h.mem_slots _).mpr hlt), Nat.mul_div_cancel_left q (by decide)⟩
  rw [node?_parents, h.node, h.node]
  by_cases hq : q * 2 ^ (height + 1) < leaves.length
  · rw [if_pos (hiff.mpr hq), if_pos hq, node_succ hq]
  · rw [if_neg (fun hex => hq (hiff.mp hex)), if_neg hq]

end Lists

/-- The leaves' own level. -/
theorem lists_leaves (leaves : List Field.Element) :
    Lists leaves 0 (leaves.zipIdx.map fun (hash, slot) => (slot, hash)) := by
  intro slot
  have hfind : ∀ (ls : List Field.Element) (k : Nat),
      node? ((ls.zipIdx k).map fun (hash, slot) => (slot, hash)) (k + slot) = ls[slot]? := by
    intro ls
    induction ls generalizing slot with
    | nil => intro k; rfl
    | cons x rest ih =>
      intro k
      rw [List.zipIdx_cons, List.map_cons, node?_cons]
      cases slot with
      | zero =>
        show (if k = k then some x else _) = _
        rw [if_pos rfl, List.getElem?_cons_zero]
      | succ slot =>
        have hne : ¬ k = k + (slot + 1) := by omega
        rw [if_neg hne, List.getElem?_cons_succ, ← ih slot (k + 1)]
        congr 1
        omega
  have h := hfind leaves 0
  rw [Nat.zero_add] at h
  rw [h, Nat.pow_zero, Nat.mul_one, Claim.node]
  by_cases hs : slot < leaves.length
  · rw [if_pos hs, List.getElem?_eq_getElem hs, List.getD_eq_getElem?_getD,
      List.getElem?_eq_getElem hs]
    rfl
  · rw [if_neg hs, List.getElem?_eq_none (Nat.not_lt.mp hs)]

/-! ### A climb -/

/-- A climb that visits the slots of each level in some order. -/
inductive Climbs : Level → List Level → Level → Prop
  | top (level : Level) : Climbs level [] level
  | up {level top : Level} {visits : List Nat} {levels : List Level} (h : visits.Perm level.slots)
      (rest : Climbs (level.parents visits) levels top) : Climbs level (level :: levels) top

theorem climbs_climb (count : Nat) (level : Level) :
    Climbs level (climb count level).1 (climb count level).2 := by
  induction count generalizing level with
  | zero => exact .top level
  | succ count ih => exact .up (.refl _) (ih _)

@[simp] theorem length_climb (count : Nat) (level : Level) : (climb count level).1.length = count := by
  induction count generalizing level with
  | zero => rfl
  | succ count ih => simp [climb, ih]

/-- The levels list the heights from `height` on. -/
def ListFrom (leaves : List Field.Element) (height : Nat) : List Level → Prop
  | [] => True
  | level :: rest => Lists leaves height level ∧ ListFrom leaves (height + 1) rest

/-- **A climb goes up height by height** and ends at the top one, whatever the order of its
visits. The induction is on the climb; each step up is `Lists.parents`. -/
theorem Climbs.lists {level top : Level} {levels : List Level} (h : Climbs level levels top) {height : Nat}
    (hlevel : Lists leaves height level) :
    ListFrom leaves height levels ∧ Lists leaves (height + levels.length) top := by
  induction h generalizing height with
  | top level => exact ⟨trivial, hlevel⟩
  | up hvisits _ ih =>
    obtain ⟨hfrom, htop⟩ := ih (hlevel.parents fun slot => hvisits.mem_iff)
    refine ⟨⟨hlevel, hfrom⟩, ?_⟩
    rw [Nat.add_assoc, Nat.add_comm 1] at htop
    exact htop

theorem ListFrom.getElem {levels : List Level} {height : Nat} (h : ListFrom leaves height levels)
    {k : Nat} (hk : k < levels.length) : Lists leaves (height + k) levels[k] := by
  induction levels generalizing height k with
  | nil => cases hk
  | cons level rest ih =>
    cases k with
    | zero => exact h.1
    | succ k =>
      have hrest := ih h.2 (Nat.lt_of_succ_lt_succ hk)
      rw [Nat.add_assoc, Nat.add_comm 1 k] at hrest
      exact hrest

theorem ListFrom.siblings {levels : List Level} {height : Nat} (h : ListFrom leaves height levels)
    (slot : Nat) : Level.siblings levels slot = siblingsFrom leaves height levels.length slot := by
  induction levels generalizing height slot with
  | nil => rfl
  | cons level rest ih =>
    rw [Level.siblings, h.1.node, ih h.2, List.length_cons, siblingsFrom_succ]

end Level
end Disclosure.Claim
