import Disclosure.Proofs.Claim.Commitment

/-! The tree that a list of claims stands for.

A `Reference` writes the nodes down from the claims alone, height by height: the leaf of a
claim stands at its path's rank, and nothing else stands anywhere. There is one reference
for a list of claims, and `build_computes_reference` says that the sparse tree answers from
it: its root and every row of siblings are the reference's, and they stay the same when the
slots of a level are visited in another order (`Level.Climbs`). -/
namespace Disclosure.Claim

/-- The nodes over claims, by height and slot. A claim's leaf stands at its rank, a subtree
past the last claim is zero, and a node over some claim hashes its two children. -/
structure Reference (claims : Claims) (nodes : Nat → Nat → Field.Element) : Prop where
  leaf : ∀ c ∈ claims, leafHash c.1 c.2 = .ok (nodes 0 (rank claims c.1))
  beyond : ∀ slot, claims.length ≤ slot → nodes 0 slot = 0
  empty : ∀ height slot, claims.length ≤ slot * 2 ^ (height + 1) → nodes (height + 1) slot = 0
  inner : ∀ height slot, slot * 2 ^ (height + 1) < claims.length →
    nodes (height + 1) slot = Field.hashPair (nodes height (2 * slot)) (nodes height (2 * slot + 1))

/-- The level of the leaves of claims. -/
def leafLevel (claims : Claims) : Level :=
  (leafNodes claims).zipIdx.map fun (hash, slot) => (slot, hash)

/-- A tree answers from a reference. -/
structure SparseTree.Computes (claims : Claims) (depth : Nat) (tree : SparseTree)
    (nodes : Nat → Nat → Field.Element) : Prop where
  root : tree.lookup.root = (nodes depth 0).val
  siblings : ∀ c ∈ claims, (tree.lookup.get c.1).found = true ∧
    (tree.lookup.get c.1).siblings =
      (List.range depth).map fun height => (nodes height ((rank claims c.1 >>> height) ^^^ 1)).val
  /-- Whatever the order in which the slots of each level are visited. -/
  anyOrder : ∀ levels top, levels.length = depth → Level.Climbs (leafLevel claims) levels top →
    SparseTree.lookup { tree with levels := levels, root := top.node 0 } = tree.lookup

variable {claims : Claims} {depth : Nat} {tree : SparseTree}

theorem reference_node (h : SparseTree.build claims depth = .ok tree) :
    Reference claims (node (leafNodes claims)) where
  leaf c hc := leafHash_eq_ok_iff.mpr
    ⟨(SparseTree.build_eq_ok_iff.mp h).1.inField c hc, SparseTree.node_of_claim h hc⟩
  beyond slot hslot := by
    have hbeyond : (leafNodes claims).length ≤ slot * 2 ^ 0 := by simpa using hslot
    exact node_eq_zero hbeyond
  empty height slot hslot := node_eq_zero (by simpa using hslot)
  inner height slot hslot := node_succ (by simpa using hslot)

/-- There is only one reference. At the leaves every slot before the end is some claim's
rank; further up a node is given by its children. -/
theorem Reference.eq_node (h : SparseTree.build claims depth = .ok tree)
    {nodes : Nat → Nat → Field.Element}
    (hnodes : Reference claims nodes) : nodes = node (leafNodes claims) := by
  funext height
  induction height with
  | zero =>
    funext slot
    cases hget : (sorted claims)[slot]? with
    | none =>
      have hbeyond : claims.length ≤ slot := by simpa using List.getElem?_eq_none_iff.mp hget
      rw [hnodes.beyond slot hbeyond, (reference_node h).beyond slot hbeyond]
    | some c =>
      obtain ⟨hc, rfl⟩ := SparseTree.rank_of_getElem? h hget
      exact Except.ok.inj ((hnodes.leaf c hc).symm.trans ((reference_node h).leaf c hc))
  | succ height ih =>
    funext slot
    by_cases hslot : slot * 2 ^ (height + 1) < claims.length
    · rw [hnodes.inner height slot hslot, (reference_node h).inner height slot hslot, ih]
    · have hempty := Nat.not_lt.mp hslot
      rw [hnodes.empty height slot hempty, (reference_node h).empty height slot hempty]

/-- The siblings of a claim are nodes beside its way up. -/
theorem siblings_of_build (h : SparseTree.build claims depth = .ok tree)
    {c : String × Nat} (hc : c ∈ claims) :
    (tree.entry c.1).siblings = (List.range depth).map fun height =>
      (node (leafNodes claims) height ((rank claims c.1 >>> height) ^^^ 1)).val := by
  rw [SparseTree.entry_of_build h hc, siblingsFrom, List.map_map]
  refine List.map_congr_left fun height _ => ?_
  simp [Nat.shiftRight_eq_div_pow]

/-- Every climb from the leaves hands out the same siblings and the same root. -/
theorem lookup_of_climbs (h : SparseTree.build claims depth = .ok tree) {levels : List Level} {top : Level}
    (hlength : levels.length = depth) (hclimb : Level.Climbs (leafLevel claims) levels top) :
    SparseTree.lookup { tree with levels := levels, root := top.node 0 } = tree.lookup := by
  obtain ⟨hfrom, htop⟩ := hclimb.lists (Level.lists_leaves (leafNodes claims))
  obtain ⟨hown, hcount⟩ := SparseTree.levels_of_build h
  have hroot : top.node 0 = tree.root := by
    rw [htop.node, SparseTree.root_of_build h, hlength, Nat.zero_add]
  have hsiblings : ∀ slot, Level.siblings levels slot = Level.siblings tree.levels slot := by
    intro slot
    rw [hfrom.siblings, hown.siblings, hlength, hcount]
  have hentry : SparseTree.entry { tree with levels := levels, root := top.node 0 } = tree.entry := by
    funext path
    simp only [SparseTree.entry, hsiblings]
  rw [SparseTree.lookup, SparseTree.lookup, hentry, hroot]

/-- **The sparse tree computes the reference**: the nodes that the claims alone determine
give its root and its siblings, and no order of visits shows in them. -/
theorem build_computes_reference (h : SparseTree.build claims depth = .ok tree) :
    ∃ nodes, Reference claims nodes ∧ (∀ others, Reference claims others → others = nodes) ∧
      tree.Computes claims depth nodes := by
  refine ⟨node (leafNodes claims), reference_node h, fun others hothers => hothers.eq_node h, ?_, ?_, ?_⟩
  · exact congrArg Fin.val (SparseTree.root_of_build h)
  · intro c hc
    have hfound : (tree.entry c.1).found = true := by rw [SparseTree.entry_of_build h hc]
    exact ⟨hfound, siblings_of_build h hc⟩
  · exact fun levels top hlength hclimb => lookup_of_climbs h hlength hclimb

/-- Five claims out of order: at both lower heights the last pair is half empty. -/
theorem five_claims_compute_reference :
    ∃ tree, SparseTree.build [("e", 5), ("b", 2), ("d", 4), ("a", 1), ("c", 3)] 3 = .ok tree ∧
      ∃ nodes, Reference [("e", 5), ("b", 2), ("d", 4), ("a", 1), ("c", 3)] nodes ∧
        (∀ others, Reference [("e", 5), ("b", 2), ("d", 4), ("a", 1), ("c", 3)] others →
          others = nodes) ∧
        tree.Computes [("e", 5), ("b", 2), ("d", 4), ("a", 1), ("c", 3)] 3 nodes := by
  have haccepted : Accepted [("e", 5), ("b", 2), ("d", 4), ("a", 1), ("c", 3)] 3 :=
    ⟨by decide, by decide, by decide, by decide, by decide⟩
  have hbuild := SparseTree.build_eq_ok_iff.mpr ⟨haccepted, rfl⟩
  exact ⟨_, hbuild, build_computes_reference hbuild⟩

end Disclosure.Claim
