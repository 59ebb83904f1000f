import Disclosure.Proofs.Claim.Node
import Disclosure.Proofs.Claim.Rank
import Disclosure.Proofs.Field

/-! What a claims tree answers.

`SparseTree.build` takes the claims that fit its depth, repeat no path and have values in
the field, and only those (`build_eq_ok_iff`). The tree it makes has the leaves of the
sorted claims: its root is the node over all of them (`root_of_build`), and each claim is
found at the slot of its path's rank, with the siblings from there up
(`entry_of_build`).

Over the same paths trees have the same shape, whatever the values: they are refused
alike, and a path has the same key in both (`build_alike`, `entry_alike`). A tree with more
claims has other keys, but still answers for the claims it shares with the smaller one
(`entry_of_subset`). -/
namespace Disclosure.Claim

/-- The hash of a path, which is that of its UTF-8 bytes. -/
def pathHash (path : String) : Field.Element :=
  Field.hashBytes (Text.bytes path)

/-- The leaf of a claim. -/
def leafNode (path : String) (value : Nat) : Field.Element :=
  Field.hashPair (pathHash path) (.reduce value)

/-- The leaves of claims, in path order. -/
def leafNodes (claims : Claims) : List Field.Element :=
  (sorted claims).map fun c => leafNode c.1 c.2

/-- What claims need to be committed at a depth. -/
structure Accepted (claims : Claims) (depth : Nat) : Prop where
  depth_pos : 0 < depth
  depth_le : depth ≤ maxDepth
  fits : claims.length ≤ 2 ^ depth
  distinct : (claims.map (·.1)).Nodup
  inField : ∀ c ∈ claims, c.2 < Field.order

/-- Every slot of a depth has room in a key. -/
theorem two_pow_le_pow_keyWidth (depth : Nat) : 2 ^ depth ≤ 256 ^ keyWidth depth :=
  calc 2 ^ depth
    _ ≤ 2 ^ (8 * keyWidth depth) := Nat.pow_le_pow_right (by decide) (by unfold keyWidth; omega)
    _ = 256 ^ keyWidth depth := by rw [Nat.pow_mul]

@[simp] theorem length_leafNodes (claims : Claims) : (leafNodes claims).length = claims.length := by
  simp [leafNodes]

theorem leafHash_eq_ok_iff {path : String} {value : Nat} {e : Field.Element} :
    leafHash path value = .ok e ↔ value < Field.order ∧ e = leafNode path value := by
  unfold leafHash
  rw [Outcome.bind_eq_ok_iff]
  constructor
  · rintro ⟨x, hx, h⟩
    obtain ⟨hlt, rfl⟩ := Field.toElement_eq_ok_iff.mp hx
    cases h
    exact ⟨hlt, rfl⟩
  · rintro ⟨hlt, rfl⟩
    exact ⟨_, Field.toElement_eq_ok_iff.mpr ⟨hlt, rfl⟩, rfl⟩

theorem leafHashes_eq_ok_iff {claims : Claims} {hashes : List Field.Element} :
    (claims.mapM fun c => leafHash c.1 c.2) = .ok hashes ↔
      (∀ c ∈ claims, c.2 < Field.order) ∧ hashes = claims.map fun c => leafNode c.1 c.2 := by
  rw [Outcome.mapM_eq_ok_iff]
  induction claims generalizing hashes with
  | nil =>
    rw [List.forall₂_nil_left_iff]
    exact ⟨fun h => ⟨nofun, h⟩, fun h => h.2⟩
  | cons c rest ih =>
    rw [List.forall₂_cons_left_iff, List.forall_mem_cons, List.map_cons]
    constructor
    · rintro ⟨e, es, he, hes, rfl⟩
      obtain ⟨hlt, rfl⟩ := leafHash_eq_ok_iff.mp he
      obtain ⟨hrest, rfl⟩ := ih.mp hes
      exact ⟨⟨hlt, hrest⟩, rfl⟩
    · rintro ⟨⟨hlt, hrest⟩, rfl⟩
      exact ⟨_, _, leafHash_eq_ok_iff.mpr ⟨hlt, rfl⟩, ih.mpr ⟨hrest, rfl⟩, rfl⟩

namespace SparseTree

/-- Building, once no path repeats and every value is in the field. -/
theorem build_of_distinct {claims : Claims} (hdistinct : (claims.map (·.1)).Nodup)
    (hfield : ∀ c ∈ claims, c.2 < Field.order) (depth : Nat) :
    build claims depth =
      if depth = 0 ∨ maxDepth < depth then .error (.claimsTree (.depth depth maxDepth))
      else if 2 ^ depth < claims.length then .error (.claimsTree (.capacity claims.length depth))
      else .ok (ofSorted depth (sorted claims) (leafNodes claims)) := by
  have hnone := (repeated?_eq_none_iff (pairwise_sorted claims)).mpr (ordered_sorted_iff.mpr hdistinct)
  have hhashes : ((sorted claims).mapM fun c => leafHash c.1 c.2) = .ok (leafNodes claims) :=
    leafHashes_eq_ok_iff.mpr ⟨fun c hc => hfield c (mem_sorted.mp hc), rfl⟩
  unfold build
  rw [hnone, hhashes]
  rfl

theorem build_eq_ok_iff {claims : Claims} {depth : Nat} {tree : SparseTree} :
    build claims depth = .ok tree ↔
      Accepted claims depth ∧ tree = ofSorted depth (sorted claims) (leafNodes claims) := by
  constructor
  · intro h
    unfold build at h
    split at h
    · cases h
    rename_i hdepth
    split at h
    · cases h
    rename_i hfits
    split at h
    · cases h
    rename_i hnone
    obtain ⟨hashes, hhashes, h⟩ := Outcome.bind_eq_ok_iff.mp h
    obtain ⟨hfield, rfl⟩ := leafHashes_eq_ok_iff.mp hhashes
    cases h
    have hord := (repeated?_eq_none_iff (pairwise_sorted claims)).mp hnone
    refine ⟨⟨?_, ?_, Nat.not_lt.mp hfits, ordered_sorted_iff.mp hord,
      fun c hc => hfield c (mem_sorted.mpr hc)⟩, rfl⟩
    · exact Nat.pos_of_ne_zero fun h0 => hdepth (.inl h0)
    · exact Nat.not_lt.mp fun hlt => hdepth (.inr hlt)
  · rintro ⟨h, rfl⟩
    have hdepth : ¬(depth = 0 ∨ maxDepth < depth) := by
      have hpos := h.depth_pos
      have hle := h.depth_le
      omega
    rw [build_of_distinct h.distinct h.inField, if_neg hdepth, if_neg (Nat.not_lt.mpr h.fits)]

variable {claims : Claims} {depth : Nat} {tree : SparseTree}

theorem depth_of_build (h : build claims depth = .ok tree) : tree.depth = depth := by
  rw [(build_eq_ok_iff.mp h).2]
  rfl

theorem leaves_of_build (h : build claims depth = .ok tree) :
    tree.leaves = (sorted claims).zipIdx.map fun (claim, slot) => ⟨claim.1, claim.2, slot⟩ := by
  rw [(build_eq_ok_iff.mp h).2]
  rfl

/-- The levels of a tree are the heights below its root. -/
theorem levels_of_build (h : build claims depth = .ok tree) :
    Level.ListFrom (leafNodes claims) 0 tree.levels ∧ tree.levels.length = depth := by
  obtain ⟨hfrom, _⟩ := (Level.climbs_climb depth _).lists (Level.lists_leaves (leafNodes claims))
  rw [(build_eq_ok_iff.mp h).2]
  exact ⟨hfrom, Level.length_climb depth _⟩

/-- The root is the node over all the leaves. -/
theorem root_of_build (h : build claims depth = .ok tree) :
    tree.root = node (leafNodes claims) depth 0 := by
  obtain ⟨_, htop⟩ := (Level.climbs_climb depth _).lists (Level.lists_leaves (leafNodes claims))
  rw [Level.length_climb, Nat.zero_add] at htop
  rw [(build_eq_ok_iff.mp h).2]
  exact htop.node 0

theorem ordered_of_build (h : build claims depth = .ok tree) : Keyed.Ordered (sorted claims) :=
  ordered_sorted_iff.mpr (build_eq_ok_iff.mp h).1.distinct

/-- The claim at a slot, and the slot of a claim. -/
theorem sorted_getElem?_rank (h : build claims depth = .ok tree) {c : String × Nat} (hc : c ∈ claims) :
    (sorted claims)[rank claims c.1]? = some c := by
  obtain ⟨i, hi, rfl⟩ := List.getElem_of_mem (mem_sorted.mpr hc)
  rw [← rank_sorted, rank_getElem (ordered_of_build h) hi]
  exact List.getElem?_eq_getElem hi

theorem rank_of_getElem? (h : build claims depth = .ok tree) {c : String × Nat} {slot : Nat}
    (hslot : (sorted claims)[slot]? = some c) : c ∈ claims ∧ rank claims c.1 = slot := by
  obtain ⟨hi, rfl⟩ := List.getElem?_eq_some_iff.mp hslot
  refine ⟨mem_sorted.mp (List.getElem_mem hi), ?_⟩
  rw [← rank_sorted, rank_getElem (ordered_of_build h) hi]

/-- Claims of one slot are one claim. -/
theorem rank_inj (h : build claims depth = .ok tree)
    {c c' : String × Nat} (hc : c ∈ claims) (hc' : c' ∈ claims)
    (hrank : rank claims c.1 = rank claims c'.1) : c = c' := by
  have hget := sorted_getElem?_rank h hc
  rw [hrank, sorted_getElem?_rank h hc'] at hget
  exact (Option.some.inj hget).symm

theorem leafNodes_getElem? {c : String × Nat} {slot : Nat} (h : (sorted claims)[slot]? = some c) :
    (leafNodes claims)[slot]? = some (leafNode c.1 c.2) := by
  rw [leafNodes, List.getElem?_map, h]
  rfl

theorem node_of_claim (h : build claims depth = .ok tree) {c : String × Nat} (hc : c ∈ claims) :
    node (leafNodes claims) 0 (rank claims c.1) = leafNode c.1 c.2 := by
  rw [node, List.getD_eq_getElem?_getD, leafNodes_getElem? (sorted_getElem?_rank h hc)]
  rfl

theorem find?_leaves (h : build claims depth = .ok tree) {c : String × Nat} (hc : c ∈ claims) :
    tree.leaves.find? (fun leaf => decide (leaf.path = c.1)) = some ⟨c.1, c.2, rank claims c.1⟩ := by
  have hmem : (⟨c.1, c.2, rank claims c.1⟩ : Leaf) ∈ tree.leaves := by
    rw [leaves_of_build h]
    exact List.mem_map.mpr ⟨(c, rank claims c.1),
      List.mk_mem_zipIdx_iff_getElem?.mpr (sorted_getElem?_rank h hc), rfl⟩
  cases hfind : tree.leaves.find? (fun leaf => decide (leaf.path = c.1)) with
  | none =>
    have hno := List.find?_eq_none.mp hfind _ hmem
    exact absurd (decide_eq_true rfl) hno
  | some leaf =>
    -- Another leaf of that path would be the same claim at the same rank.
    have hfound : decide (leaf.path = c.1) = true :=
      List.find?_some (p := fun leaf : Leaf => decide (leaf.path = c.1)) hfind
    have hleaf := List.mem_of_find?_eq_some hfind
    rw [leaves_of_build h] at hleaf
    obtain ⟨⟨c', slot⟩, hc', rfl⟩ := List.mem_map.mp hleaf
    have hget := List.mk_mem_zipIdx_iff_getElem?.mp hc'
    have hrank := (rank_of_getElem? h hget).2
    have hpath : c'.1 = c.1 := of_decide_eq_true hfound
    rw [hpath] at hrank
    have hsame := sorted_getElem?_rank h hc
    rw [hrank, hget] at hsame
    cases hsame
    rw [hrank]

/-- **What a tree answers for a claim**: its value, the slot of its rank as the key, and
the siblings from that slot up. -/
theorem entry_of_build (h : build claims depth = .ok tree) {c : String × Nat} (hc : c ∈ claims) :
    tree.entry c.1 =
      { found := true
        value := c.2
        key := Bytes.toLittleEndian (keyWidth depth) (rank claims c.1)
        siblings := (siblingsFrom (leafNodes claims) 0 depth (rank claims c.1)).map (·.val) } := by
  obtain ⟨hfrom, hlength⟩ := levels_of_build h
  unfold entry
  rw [find?_leaves h hc]
  dsimp only
  rw [hfrom.siblings, hlength, depth_of_build h]

/-- A path that no claim has is absent. -/
theorem entry_of_not_mem (h : build claims depth = .ok tree) {path : String}
    (hpath : ∀ c ∈ claims, c.1 ≠ path) : tree.entry path = .absent := by
  have hnone : tree.leaves.find? (fun leaf => decide (leaf.path = path)) = none := by
    apply List.find?_eq_none.mpr
    intro leaf hleaf hfound
    rw [leaves_of_build h] at hleaf
    obtain ⟨⟨c, slot⟩, hc, rfl⟩ := List.mem_map.mp hleaf
    have hmem := List.mem_of_getElem? (List.mk_mem_zipIdx_iff_getElem?.mp hc)
    exact hpath c (mem_sorted.mp hmem) (of_decide_eq_true hfound)
  unfold entry
  rw [hnone]

theorem mem_of_found (h : build claims depth = .ok tree) {path : String}
    (hfound : (tree.entry path).found = true) : ∃ value, (path, value) ∈ claims := by
  by_cases hpath : ∀ c ∈ claims, c.1 ≠ path
  · rw [entry_of_not_mem h hpath] at hfound
    cases hfound
  · obtain ⟨c, hc⟩ := not_forall.mp hpath
    obtain ⟨hmem, heq⟩ := Classical.not_imp.mp hc
    exact ⟨c.2, not_not.mp heq ▸ hmem⟩

theorem rank_lt_of_build (h : build claims depth = .ok tree) {c : String × Nat} (hc : c ∈ claims) :
    rank claims c.1 < 2 ^ depth :=
  Nat.lt_of_lt_of_le (rank_lt hc) (build_eq_ok_iff.mp h).1.fits

/-- No rank is too large for a key. -/
theorem rank_lt_pow_keyWidth (h : build claims depth = .ok tree) {c : String × Nat} (hc : c ∈ claims) :
    rank claims c.1 < 256 ^ keyWidth depth :=
  Nat.lt_of_lt_of_le (rank_lt_of_build h hc) (two_pow_le_pow_keyWidth depth)

end SparseTree

/-! ### The accumulator -/

theorem sparse_eq_ok_iff {claims : Claims} {depth : Nat} {lookup : Lookup} :
    Accumulator.sparse.build claims depth = .ok lookup ↔
      ∃ tree, SparseTree.build claims depth = .ok tree ∧ lookup = tree.lookup := by
  show (SparseTree.build claims depth).map SparseTree.lookup = _ ↔ _
  cases SparseTree.build claims depth with
  | error e => exact ⟨nofun, nofun⟩
  | ok tree =>
    constructor
    · intro h
      cases h
      exact ⟨tree, rfl, rfl⟩
    · rintro ⟨_, ht, rfl⟩
      cases ht
      rfl

theorem sparse_eq_error_iff {claims : Claims} {depth : Nat} {e : Error} :
    Accumulator.sparse.build claims depth = .error e ↔ SparseTree.build claims depth = .error e := by
  show (SparseTree.build claims depth).map SparseTree.lookup = _ ↔ _
  cases SparseTree.build claims depth with
  | error e' => exact ⟨fun h => by cases h; rfl, fun h => by cases h; rfl⟩
  | ok tree => exact ⟨nofun, nofun⟩

/-! ### The same paths -/

variable {a b : Claims}

theorem pairwise_map_fst (h : Keyed.Ordered a) : (a.map (·.1)).Pairwise (· < ·) :=
  List.pairwise_map.mpr h

/-- Ordered claims with the same set of paths have the same list of paths. -/
theorem map_fst_eq_of_mem_iff (ha : Keyed.Ordered a) (hb : Keyed.Ordered b)
    (h : ∀ path, path ∈ a.map (·.1) ↔ path ∈ b.map (·.1)) : a.map (·.1) = b.map (·.1) := by
  have hperm := (List.perm_ext_iff_of_nodup (Keyed.nodup_of_ordered ha) (Keyed.nodup_of_ordered hb)).mpr h
  refine hperm.eq_of_pairwise (fun p q _ _ hpq hqp => ?_) (pairwise_map_fst ha) (pairwise_map_fst hb)
  exact absurd hqp (String.lt_asymm hpq)

/-- A rank does not depend on values. -/
theorem rank_congr (h : a.map (·.1) = b.map (·.1)) (path : String) : rank a path = rank b path := by
  have hrank : ∀ claims : Claims, rank claims path =
      (claims.map (·.1)).countP fun p => decide (Text.bytes p < Text.bytes path) := by
    intro claims
    rw [List.countP_map]
    rfl
  rw [hrank, hrank, h]

/-- Entries that differ in what the siblings are only. -/
structure Entry.Alike (e f : Entry) : Prop where
  found : e.found = f.found
  value : e.value = f.value
  key : e.key = f.key
  length : e.siblings.length = f.siblings.length

theorem Entry.Alike.refl (e : Entry) : e.Alike e := ⟨rfl, rfl, rfl, rfl⟩

variable {depth : Nat} {t u : SparseTree}

/-- Trees over the same paths answer alike where their claims agree. -/
theorem entry_alike (ht : SparseTree.build a depth = .ok t) (hu : SparseTree.build b depth = .ok u)
    (hpaths : a.map (·.1) = b.map (·.1)) {path : String}
    (hvalues : ∀ value, (path, value) ∈ a ↔ (path, value) ∈ b) :
    (t.entry path).Alike (u.entry path) := by
  by_cases hpath : path ∈ a.map (·.1)
  · obtain ⟨c, hc, rfl⟩ := List.mem_map.mp hpath
    have hc' : c ∈ b := (hvalues c.2).mp hc
    rw [SparseTree.entry_of_build ht hc, SparseTree.entry_of_build hu hc', rank_congr hpaths]
    exact ⟨rfl, rfl, rfl, by simp⟩
  · have hpath' : path ∉ b.map (·.1) := hpaths ▸ hpath
    rw [SparseTree.entry_of_not_mem ht fun c hc heq => hpath (List.mem_map.mpr ⟨c, hc, heq⟩),
      SparseTree.entry_of_not_mem hu fun c hc heq => hpath' (List.mem_map.mpr ⟨c, hc, heq⟩)]
    exact .refl .absent

/-- **Values do not decide whether claims can be committed**, nor the shape of the tree. -/
theorem build_alike (ha : Keyed.Ordered a) (hb : Keyed.Ordered b) (hina : ∀ c ∈ a, c.2 < Field.order)
    (hinb : ∀ c ∈ b, c.2 < Field.order) (hpaths : a.map (·.1) = b.map (·.1)) (depth : Nat) :
    Outcome.Alike
      (fun t u => SparseTree.build a depth = .ok t ∧ SparseTree.build b depth = .ok u)
      (SparseTree.build a depth) (SparseTree.build b depth) := by
  have hlength : a.length = b.length := by
    rw [← List.length_map, hpaths, List.length_map]
  rw [SparseTree.build_of_distinct (Keyed.nodup_of_ordered ha) hina,
    SparseTree.build_of_distinct (Keyed.nodup_of_ordered hb) hinb, hlength]
  split
  · exact .error _
  · split
    · exact .error _
    · exact .ok ⟨rfl, rfl⟩

/-! ### More claims -/

/-- A tree with more claims finds what the smaller one finds. -/
theorem entry_of_subset (ht : SparseTree.build a depth = .ok t) (hu : SparseTree.build b depth = .ok u)
    (h : a ⊆ b) {path : String} (hfound : (t.entry path).found = true) :
    (u.entry path).found = true ∧ (u.entry path).value = (t.entry path).value := by
  obtain ⟨value, hc⟩ := SparseTree.mem_of_found ht hfound
  rw [SparseTree.entry_of_build ht hc, SparseTree.entry_of_build hu (h hc)]
  exact ⟨rfl, rfl⟩

end Disclosure.Claim
