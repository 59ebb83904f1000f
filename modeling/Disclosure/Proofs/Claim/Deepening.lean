import Disclosure.Proofs.Claim.Inclusion
import Mathlib.Logic.Function.Iterate

/-! One list of claims at two depths.

Claims that fit a depth stand under slot 0 of that height in every deeper tree, a full
tree included, and under nothing else of that height. So going deeper adds nothing but
empty right neighbours: the root is compressed with zero once a level
(`node_deepens`), and every inclusion proof goes on with zeros (`siblingsFrom_deepens`).
A tree without claims stays zero, since an empty subtree is never hashed. -/
namespace Disclosure.Claim

/-- A node beside an empty right neighbour, one level up. -/
def besideEmpty (e : Field.Element) : Field.Element :=
  Field.hashPair e 0

/-! ### Above all the leaves -/

section Leaves
variable {leaves : List Field.Element} {depth : Nat} (hfits : leaves.length ≤ 2 ^ depth)
include hfits

/-- Above all the leaves, the slot right of the first is empty. -/
theorem node_one_eq_zero (more : Nat) : node leaves (depth + more) 1 = 0 := by
  apply node_eq_zero
  rw [Nat.one_mul]
  exact Nat.le_trans hfits (Nat.pow_le_pow_right (by decide) (Nat.le_add_right depth more))

/-- **The top goes up beside empty slots.** -/
theorem node_deepens (hsome : 0 < leaves.length) (more : Nat) :
    node leaves (depth + more) 0 = besideEmpty^[more] (node leaves depth 0) := by
  induction more with
  | zero => rfl
  | succ more ih =>
    have hover : 0 * 2 ^ (depth + more + 1) < leaves.length := by rwa [Nat.zero_mul]
    have hempty := node_one_eq_zero hfits more
    calc node leaves (depth + more + 1) 0
      _ = Field.hashPair (node leaves (depth + more) 0) (node leaves (depth + more) 1) := node_succ hover
      _ = besideEmpty (node leaves (depth + more) 0) := by rw [hempty, besideEmpty]
      _ = besideEmpty^[more + 1] (node leaves depth 0) := by rw [ih, Function.iterate_succ_apply']

/-- **Every way up goes on beside empty slots.** -/
theorem siblingsFrom_deepens {slot : Nat} (hslot : slot < 2 ^ depth) (more : Nat) :
    siblingsFrom leaves 0 (depth + more) slot =
      siblingsFrom leaves 0 depth slot ++ List.replicate more 0 := by
  induction more with
  | zero => rw [List.replicate_zero, List.append_nil, Nat.add_zero]
  | succ more ih =>
    -- That high up, the way from every slot has come to slot 0.
    have htop : slot / 2 ^ (depth + more) = 0 := Nat.div_eq_of_lt
      (Nat.lt_of_lt_of_le hslot (Nat.pow_le_pow_right (by decide) (Nat.le_add_right depth more)))
    have hlast : node leaves (0 + (depth + more)) ((slot / 2 ^ (depth + more)) ^^^ 1) = 0 := by
      rw [htop, Nat.zero_xor, Nat.zero_add, node_one_eq_zero hfits]
    rw [← Nat.add_assoc, siblingsFrom, List.range_succ, List.map_append, List.map_singleton, hlast,
      ← siblingsFrom, ih, List.append_assoc, ← List.replicate_succ']

end Leaves

/-! ### Two trees of the same claims -/

theorem Accepted.deepen {claims : Claims} {depth deeper : Nat} (h : Accepted claims depth)
    (hdeeper : depth ≤ deeper) (hle : deeper ≤ maxDepth) : Accepted claims deeper :=
  ⟨Nat.lt_of_lt_of_le h.depth_pos hdeeper, hle,
    Nat.le_trans h.fits (Nat.pow_le_pow_right (by decide) hdeeper), h.distinct, h.inField⟩

/-- A claim is found at both depths, with the deeper proof as the padded one. -/
structure Padded (depth deeper slot : Nat) (entry padded : Entry) : Prop where
  found : entry.found = true ∧ padded.found = true
  value : padded.value = entry.value
  slot : Bytes.ofLittleEndian entry.key = slot ∧ Bytes.ofLittleEndian padded.key = slot
  key : padded.key = entry.key ++ List.replicate (keyWidth deeper - keyWidth depth) 0
  siblings : padded.siblings = entry.siblings ++ List.replicate (deeper - depth) 0

/-- How the lookups of one list of claims at two depths stand to each other. -/
structure Deepens (claims : Claims) (depth deeper : Nat) (lookup padded : Lookup) : Prop where
  claim : ∀ c ∈ claims, Padded depth deeper (rank claims c.1) (lookup.get c.1) (padded.get c.1)
  absent : ∀ path, path ∉ claims.map (·.1) → lookup.get path = .absent ∧ padded.get path = .absent
  empty : claims = [] → lookup.root = 0 ∧ padded.root = 0
  root : claims ≠ [] → ∃ e : Field.Element, lookup.root = e.val ∧
    padded.root = (besideEmpty^[deeper - depth] e).val

section Trees
variable {claims : Claims} {depth more : Nat} {tree padded : SparseTree}

theorem length_leafNodes_le (h : SparseTree.build claims depth = .ok tree) :
    (leafNodes claims).length ≤ 2 ^ depth := by
  rw [length_leafNodes]
  exact (SparseTree.build_eq_ok_iff.mp h).1.fits

theorem padded_of_build (h : SparseTree.build claims depth = .ok tree)
    (h' : SparseTree.build claims (depth + more) = .ok padded) {c : String × Nat} (hc : c ∈ claims) :
    Padded depth (depth + more) (rank claims c.1) (tree.entry c.1) (padded.entry c.1) := by
  have hwidth : keyWidth (depth + more) = keyWidth depth + (keyWidth (depth + more) - keyWidth depth) := by
    unfold keyWidth
    omega
  refine ⟨?_, ?_, ⟨ofLittleEndian_key h hc, ofLittleEndian_key h' hc⟩, ?_, ?_⟩
  all_goals rw [SparseTree.entry_of_build h hc, SparseTree.entry_of_build h' hc]
  · exact ⟨rfl, rfl⟩
  · show Bytes.toLittleEndian (keyWidth (depth + more)) _ = _
    rw [hwidth, Bytes.toLittleEndian_add (SparseTree.rank_lt_pow_keyWidth h hc), ← hwidth]
  · dsimp only
    rw [siblingsFrom_deepens (length_leafNodes_le h) (SparseTree.rank_lt_of_build h hc), List.map_append,
      List.map_replicate, Nat.add_sub_cancel_left]
    rfl

theorem root_deepens (h : SparseTree.build claims depth = .ok tree)
    (h' : SparseTree.build claims (depth + more) = .ok padded) (hsome : claims ≠ []) :
    padded.root = besideEmpty^[more] tree.root := by
  have hleaves : 0 < (leafNodes claims).length := by
    rw [length_leafNodes]
    exact List.length_pos_iff.mpr hsome
  rw [SparseTree.root_of_build h, SparseTree.root_of_build h', node_deepens (length_leafNodes_le h) hleaves]

/-- Without claims there is no leaf, and an empty tree is zero at any depth. -/
theorem root_of_no_claims (h : SparseTree.build [] depth = .ok tree) : tree.root = 0 := by
  rw [SparseTree.root_of_build h]
  apply node_eq_zero
  rw [length_leafNodes]
  exact Nat.zero_le _

theorem deepens_of_build (h : SparseTree.build claims depth = .ok tree)
    (h' : SparseTree.build claims (depth + more) = .ok padded) :
    Deepens claims depth (depth + more) tree.lookup padded.lookup where
  claim c hc := padded_of_build h h' hc
  absent path hpath := by
    have hno : ∀ c ∈ claims, c.1 ≠ path := fun c hc heq => hpath (List.mem_map.mpr ⟨c, hc, heq⟩)
    exact ⟨SparseTree.entry_of_not_mem h hno, SparseTree.entry_of_not_mem h' hno⟩
  empty hnone := by
    subst hnone
    exact ⟨congrArg Fin.val (root_of_no_claims h), congrArg Fin.val (root_of_no_claims h')⟩
  root hsome := by
    refine ⟨tree.root, rfl, ?_⟩
    rw [Nat.add_sub_cancel_left]
    exact congrArg Fin.val (root_deepens h h' hsome)

end Trees

/-- **Going deeper only pads.** What fits a depth fits every greater one, where each
claim keeps its slot, and each proof and the root go on beside empty slots. -/
theorem sparse_deepens {claims : Claims} {depth deeper : Nat} {lookup : Lookup}
    (h : Accumulator.sparse.build claims depth = .ok lookup)
    (hdeeper : depth < deeper) (hle : deeper ≤ 64) :
    ∃ padded, Accumulator.sparse.build claims deeper = .ok padded ∧
      Deepens claims depth deeper lookup padded := by
  obtain ⟨tree, htree, rfl⟩ := sparse_eq_ok_iff.mp h
  obtain ⟨more, rfl⟩ := Nat.exists_eq_add_of_le (Nat.le_of_lt hdeeper)
  have haccepted := (SparseTree.build_eq_ok_iff.mp htree).1.deepen (Nat.le_of_lt hdeeper) hle
  have hpadded := SparseTree.build_eq_ok_iff.mpr ⟨haccepted, rfl⟩
  exact ⟨_, sparse_eq_ok_iff.mpr ⟨_, hpadded, rfl⟩, deepens_of_build htree hpadded⟩

/-- A full tree of one level goes nine levels deep, where its keys take a second byte. -/
theorem sparse_deepens_full : ∃ lookup padded,
    Accumulator.sparse.build [("b", 2), ("a", 1)] 1 = .ok lookup ∧
      Accumulator.sparse.build [("b", 2), ("a", 1)] 9 = .ok padded ∧
      Deepens [("b", 2), ("a", 1)] 1 9 lookup padded := by
  have haccepted : Accepted [("b", 2), ("a", 1)] 1 :=
    ⟨by decide, by decide, by decide, by decide, by decide⟩
  have hlookup := sparse_eq_ok_iff.mpr ⟨_, SparseTree.build_eq_ok_iff.mpr ⟨haccepted, rfl⟩, rfl⟩
  obtain ⟨padded, hpadded, hdeepens⟩ := sparse_deepens hlookup (show 1 < 9 by decide) (by decide)
  exact ⟨_, padded, hlookup, hpadded, hdeepens⟩

end Disclosure.Claim
