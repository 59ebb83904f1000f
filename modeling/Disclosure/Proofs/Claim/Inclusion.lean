import Disclosure.Proofs.Bytes.Number
import Disclosure.Proofs.Claim.Commitment

/-! Inclusion proofs: from a claim along siblings to a root.

`reachedRoot` is what a verifier computes. The siblings that a tree hands out lead each
of its claims to its root. The converse needs the hash: a claim that reaches the root
from a slot is the claim of that slot, with the tree's own siblings, or the hashing done
in building the tree and on the way up holds a `Break` that can be pointed at. No
injectivity is assumed. -/
namespace Disclosure.Claim

/-- A node and its sibling as left and right: a node at an even slot stands left. -/
def oriented (slot : Nat) (node sibling : Field.Element) : Field.Element × Field.Element :=
  if slot % 2 = 0 then (node, sibling) else (sibling, node)

def compress (pair : Field.Element × Field.Element) : Field.Element :=
  Field.hashPair pair.1 pair.2

/-- The top that a node reaches along siblings, turned by the low bits of its slot. -/
def ascend (node : Field.Element) : List Field.Element → (slot : Nat) → Field.Element
  | [], _ => node
  | sibling :: rest, slot => ascend (compress (oriented slot node sibling)) rest (slot / 2)

/-- The pairs that are compressed on the way. -/
def ascentPairs (node : Field.Element) :
    List Field.Element → (slot : Nat) → List (Field.Element × Field.Element)
  | [], _ => []
  | sibling :: rest, slot =>
    oriented slot node sibling :: ascentPairs (compress (oriented slot node sibling)) rest (slot / 2)

/-- The root that a claim reaches along siblings, from the hash of its path's bytes with its
value. Numbers outside the field reach none. -/
def reachedRoot (path : String) (value : Nat) (siblings : List Nat) (slot : Nat) : Except Error Nat := do
  let value ← Field.toElement value
  let siblings ← siblings.mapM Field.toElement
  .ok (ascend (Field.hashPair (Field.hashBytes (Text.bytes path)) value) siblings slot).val

theorem reachedRoot_eq_ok_iff {path : String} {value : Nat} {siblings : List Nat} {slot root : Nat} :
    reachedRoot path value siblings slot = .ok root ↔
      value < Field.order ∧ ∃ es : List Field.Element, siblings = es.map (·.val) ∧
        (ascend (leafNode path value) es slot).val = root := by
  unfold reachedRoot
  rw [Outcome.bind_eq_ok_iff]
  constructor
  · rintro ⟨element, helement, h⟩
    obtain ⟨hvalue, rfl⟩ := Field.toElement_eq_ok_iff.mp helement
    obtain ⟨es, hes, h⟩ := Outcome.bind_eq_ok_iff.mp h
    cases h
    exact ⟨hvalue, es, Field.toElements_eq_ok_iff.mp hes, rfl⟩
  · rintro ⟨hvalue, es, hes, rfl⟩
    exact ⟨_, Field.toElement_eq_ok_iff.mpr ⟨hvalue, rfl⟩,
      Outcome.bind_eq_ok_iff.mpr ⟨es, Field.toElements_eq_ok_iff.mpr hes, rfl⟩⟩

/-! ### The tree's own siblings -/

variable {leaves : List Field.Element}

/-- A node and its tree sibling are the two children of the slot above. -/
theorem oriented_node (height slot : Nat) :
    oriented slot (node leaves height slot) (node leaves height (slot ^^^ 1)) =
      (node leaves height (2 * (slot / 2)), node leaves height (2 * (slot / 2) + 1)) := by
  unfold oriented
  by_cases h : slot % 2 = 0
  · have heven : 2 * (slot / 2) = slot := by omega
    rw [if_pos h, xor_one_of_even h, heven]
  · have hodd : 2 * (slot / 2) + 1 = slot := by omega
    have hleft : 2 * (slot / 2) = slot - 1 := by omega
    rw [if_neg h, xor_one_of_odd h, hodd, hleft]

theorem half_mul_two_pow_le (height slot : Nat) : slot / 2 * 2 ^ (height + 1) ≤ slot * 2 ^ height := by
  rw [← double_mul_two_pow]
  exact Nat.mul_le_mul_right _ (Nat.mul_div_le slot 2)

/-- **The tree's siblings lead up the tree.** -/
theorem ascend_siblingsFrom (count : Nat) {height slot : Nat} (h : slot * 2 ^ height < leaves.length) :
    ascend (node leaves height slot) (siblingsFrom leaves height count slot) slot =
      node leaves (height + count) (slot / 2 ^ count) := by
  induction count generalizing height slot with
  | zero => rw [Nat.pow_zero, Nat.div_one]; rfl
  | succ count ih =>
    have hup : slot / 2 * 2 ^ (height + 1) < leaves.length :=
      Nat.lt_of_le_of_lt (half_mul_two_pow_le height slot) h
    have hparent : compress (oriented slot (node leaves height slot) (node leaves height (slot ^^^ 1))) =
        node leaves (height + 1) (slot / 2) := by
      rw [oriented_node, node_succ hup]
      rfl
    rw [siblingsFrom_succ, ascend, hparent, ih hup, Nat.pow_succ', ← Nat.div_div_eq_div_mul,
      Nat.add_assoc, Nat.add_comm 1 count]

/-! ### Anyone's siblings -/

/-- A break of the compression among pairs: two that collide, or one that gives zero. -/
inductive HashBreak (Hashed : Field.Element × Field.Element → Prop) : Prop
  | collision (a b : Field.Element × Field.Element) (ha : Hashed a) (hb : Hashed b) (hne : a ≠ b)
      (h : compress a = compress b)
  | zero (a : Field.Element × Field.Element) (ha : Hashed a) (h : compress a = 0)

/-- Equal compressions of hashed pairs are of one pair, without a break. -/
theorem HashBreak.or_eq {Hashed : Field.Element × Field.Element → Prop}
    {a b : Field.Element × Field.Element}
    (ha : Hashed a) (hb : Hashed b) (h : compress a = compress b) : HashBreak Hashed ∨ a = b := by
  by_cases hab : a = b
  · exact .inr hab
  · exact .inl (.collision a b ha hb hab h)

theorem oriented_inj {slot : Nat} {x s y t : Field.Element} (h : oriented slot x s = oriented slot y t) :
    x = y ∧ s = t := by
  unfold oriented at h
  by_cases hs : slot % 2 = 0
  · rw [if_pos hs, if_pos hs] at h
    exact ⟨congrArg Prod.fst h, congrArg Prod.snd h⟩
  · rw [if_neg hs, if_neg hs] at h
    exact ⟨congrArg Prod.snd h, congrArg Prod.fst h⟩

/-- **What reaches a node of the tree stood in the tree**, or there is a break. The
induction is on the siblings, from the lowest: those above it are the tree's by
induction, and so the pair at the bottom compresses to the tree's own node. -/
theorem node_of_ascend {Hashed : Field.Element × Field.Element → Prop} (siblings : List Field.Element)
    {height slot : Nat} {x : Field.Element}
    (hinner : ∀ k q, k < height + siblings.length → q * 2 ^ (k + 1) < leaves.length →
      Hashed (node leaves k (2 * q), node leaves k (2 * q + 1)))
    (hascent : ∀ pair ∈ ascentPairs x siblings slot, Hashed pair)
    (h : ascend x siblings slot = node leaves (height + siblings.length) (slot / 2 ^ siblings.length)) :
    HashBreak Hashed ∨
      x = node leaves height slot ∧ siblings = siblingsFrom leaves height siblings.length slot := by
  induction siblings generalizing height slot x with
  | nil =>
    rw [List.length_nil, Nat.pow_zero, Nat.div_one] at h
    exact .inr ⟨h, rfl⟩
  | cons sibling rest ih =>
    have hpair : Hashed (oriented slot x sibling) := hascent _ List.mem_cons_self
    have hlen : height + (sibling :: rest).length = height + 1 + rest.length := by
      rw [List.length_cons]
      omega
    have hdiv : slot / 2 ^ (sibling :: rest).length = slot / 2 / 2 ^ rest.length := by
      rw [List.length_cons, Nat.pow_succ', Nat.div_div_eq_div_mul]
    rw [hlen, hdiv] at h
    rw [hlen] at hinner
    obtain hbreak | ⟨hparent, hrest⟩ :=
      ih hinner (fun pair hmem => hascent pair (List.mem_cons_of_mem _ hmem)) h
    · exact .inl hbreak
    by_cases hup : slot / 2 * 2 ^ (height + 1) < leaves.length
    · have hchildren := hinner height (slot / 2) (by omega) hup
      rw [← oriented_node] at hchildren
      rw [node_succ hup] at hparent
      have hcompress : compress (oriented slot x sibling) =
          compress (oriented slot (node leaves height slot) (node leaves height (slot ^^^ 1))) := by
        rw [hparent, oriented_node]
        rfl
      obtain hbreak | heq := HashBreak.or_eq hpair hchildren hcompress
      · exact .inl hbreak
      · obtain ⟨hx, hsibling⟩ := oriented_inj heq
        refine .inr ⟨hx, ?_⟩
        rw [List.length_cons, siblingsFrom_succ, ← hrest, hsibling]
    · -- Nothing stands here in the tree, so the pair compresses to zero.
      rw [node_eq_zero (Nat.not_lt.mp hup)] at hparent
      exact .inl (.zero _ hpair hparent)

/-! ### A tree as a commitment -/

/-- The pairs compressed in building a tree: a path's hash with the value for each leaf,
and two neighbours for each node above. -/
def SparseTree.Compressed (tree : SparseTree) (pair : Field.Element × Field.Element) : Prop :=
  (∃ leaf ∈ tree.leaves, pair = (pathHash leaf.path, .reduce leaf.value)) ∨
    ∃ level ∈ tree.levels, ∃ slot ∈ level.slots,
      pair = (level.node (2 * (slot / 2)), level.node (2 * (slot / 2) + 1))

/-- The pairs compressed in building a tree and in taking a claim along siblings. -/
def Compressed (tree : SparseTree) (path : String) (value : Nat) (siblings : List Nat) (slot : Nat)
    (pair : Field.Element × Field.Element) : Prop :=
  tree.Compressed pair ∨ pair = (pathHash path, .reduce value) ∨
    pair ∈ ascentPairs (leafNode path value) (siblings.map .reduce) slot

/-- An explicit break: of the compression, or of the hash of paths by the claim whose
rank the slot is. -/
inductive Break (claims : Claims) (tree : SparseTree) (path : String) (value : Nat)
    (siblings : List Nat) (slot : Nat) : Prop
  | compression (h : HashBreak (Compressed tree path value siblings slot))
  | path (c : String × Nat) (hc : c ∈ claims) (hrank : rank claims c.1 = slot) (hne : c.1 ≠ path)
      (h : pathHash c.1 = pathHash path)

variable {claims : Claims} {depth : Nat} {tree : SparseTree}

/-- Two nodes under a node of the tree were compressed in building it. -/
theorem compressed_children (h : SparseTree.build claims depth = .ok tree) {k q : Nat} (hk : k < depth)
    (hq : q * 2 ^ (k + 1) < (leafNodes claims).length) :
    tree.Compressed (node (leafNodes claims) k (2 * q), node (leafNodes claims) k (2 * q + 1)) := by
  obtain ⟨hfrom, hlength⟩ := SparseTree.levels_of_build h
  have hlevel := hfrom.getElem (hlength.symm ▸ hk : k < tree.levels.length)
  rw [Nat.zero_add] at hlevel
  rw [← double_mul_two_pow] at hq
  refine .inr ⟨_, List.getElem_mem _, 2 * q, (hlevel.mem_slots _).mpr hq, ?_⟩
  rw [Nat.mul_div_cancel_left q (by decide), hlevel.node, hlevel.node]

theorem compressed_leaf (h : SparseTree.build claims depth = .ok tree)
    {c : String × Nat} (hc : c ∈ claims) :
    tree.Compressed (pathHash c.1, .reduce c.2) :=
  .inl ⟨_, List.mem_of_find?_eq_some (SparseTree.find?_leaves h hc), rfl⟩

/-- The key of a claim reads back as its rank. -/
theorem ofLittleEndian_key (h : SparseTree.build claims depth = .ok tree) {c : String × Nat}
    (hc : c ∈ claims) : Bytes.ofLittleEndian (tree.entry c.1).key = rank claims c.1 := by
  rw [SparseTree.entry_of_build h hc]
  exact Bytes.ofLittleEndian_toLittleEndian_of_lt (SparseTree.rank_lt_pow_keyWidth h hc)

theorem reachedRoot_of_claim (h : SparseTree.build claims depth = .ok tree) {c : String × Nat}
    (hc : c ∈ claims) :
    reachedRoot c.1 c.2 (tree.entry c.1).siblings (rank claims c.1) = .ok tree.root.val := by
  have hleaf : rank claims c.1 * 2 ^ 0 < (leafNodes claims).length := by
    rw [Nat.pow_zero, Nat.mul_one, length_leafNodes]
    exact rank_lt hc
  rw [SparseTree.entry_of_build h hc]
  refine reachedRoot_eq_ok_iff.mpr ⟨(SparseTree.build_eq_ok_iff.mp h).1.inField c hc, _, rfl, ?_⟩
  rw [← SparseTree.node_of_claim h hc, ascend_siblingsFrom depth hleaf, SparseTree.root_of_build h,
    Nat.div_eq_of_lt (SparseTree.rank_lt_of_build h hc), Nat.zero_add]

/-- A claim whose leaf stands at a slot is the slot's claim, or there is a break. -/
theorem claim_of_leafNode (h : SparseTree.build claims depth = .ok tree) {path : String} {value slot : Nat}
    {siblings : List Nat} (hvalue : value < Field.order)
    (hnode : leafNode path value = node (leafNodes claims) 0 slot) :
    Break claims tree path value siblings slot ∨ (path, value) ∈ claims ∧ rank claims path = slot := by
  have hleaf : Compressed tree path value siblings slot (pathHash path, .reduce value) :=
    .inr (.inl rfl)
  cases hget : (sorted claims)[slot]? with
  | none =>
    have hempty : (leafNodes claims).length ≤ slot * 2 ^ 0 := by
      rw [Nat.pow_zero, Nat.mul_one, length_leafNodes, ← length_sorted]
      exact List.getElem?_eq_none_iff.mp hget
    rw [node_eq_zero hempty] at hnode
    exact .inl (.compression (.zero _ hleaf hnode))
  | some c =>
    obtain ⟨hc, hrank⟩ := SparseTree.rank_of_getElem? h hget
    rw [← hrank, SparseTree.node_of_claim h hc] at hnode
    obtain hbreak | heq := HashBreak.or_eq hleaf (.inl (compressed_leaf h hc)) hnode
    · exact .inl (.compression hbreak)
    have hhash : pathHash path = pathHash c.1 := congrArg Prod.fst heq
    have hval : value = c.2 := by
      have hsnd : (Field.Element.reduce value).val = (Field.Element.reduce c.2).val :=
        congrArg (fun pair => pair.2.val) heq
      rwa [Field.reduce_eq hvalue, Field.reduce_eq ((SparseTree.build_eq_ok_iff.mp h).1.inField c hc)] at hsnd
    by_cases hpath : c.1 = path
    · subst hpath hval
      exact .inr ⟨hc, hrank⟩
    · exact .inl (.path c hc hrank hpath hhash.symm)

/-- A claim that reaches the root from a slot is the slot's claim and came with the
tree's siblings, or there is a break. -/
theorem claim_of_reachedRoot (h : SparseTree.build claims depth = .ok tree) {path : String} {value slot : Nat}
    {siblings : List Nat} (hslot : slot < 2 ^ depth) (hlength : siblings.length = depth)
    (hroot : reachedRoot path value siblings slot = .ok tree.root.val) :
    Break claims tree path value siblings slot ∨
      (path, value) ∈ claims ∧ rank claims path = slot ∧ (tree.entry path).siblings = siblings := by
  obtain ⟨hvalue, es, rfl, htop⟩ := reachedRoot_eq_ok_iff.mp hroot
  rw [List.length_map] at hlength
  have hreduce : (es.map (·.val)).map Field.Element.reduce = es := by
    rw [List.map_map]
    exact List.map_id'' (fun e => Field.reduce_eq e.isLt) es
  have htop' : ascend (leafNode path value) es slot =
      node (leafNodes claims) (0 + es.length) (slot / 2 ^ es.length) := by
    rw [hlength, Nat.zero_add, Nat.div_eq_of_lt hslot, ← SparseTree.root_of_build h]
    exact Fin.ext htop
  have hinner : ∀ k q, k < 0 + es.length → q * 2 ^ (k + 1) < (leafNodes claims).length →
      Compressed tree path value (es.map (·.val)) slot
        (node (leafNodes claims) k (2 * q), node (leafNodes claims) k (2 * q + 1)) :=
    fun k q hk hq => .inl (compressed_children h (by omega) hq)
  have hascent : ∀ pair ∈ ascentPairs (leafNode path value) es slot,
      Compressed tree path value (es.map (·.val)) slot pair := by
    intro pair hpair
    refine .inr (.inr ?_)
    rw [hreduce]
    exact hpair
  obtain hbreak | ⟨hnode, hsiblings⟩ := node_of_ascend es hinner hascent htop'
  · exact .inl (.compression hbreak)
  obtain hbreak | ⟨hc, hrank⟩ := claim_of_leafNode h hvalue hnode
  · exact .inl hbreak
  refine .inr ⟨hc, hrank, ?_⟩
  rw [SparseTree.entry_of_build h hc, hrank, ← hlength, ← hsiblings]

/-- A tree as a commitment to claims. -/
structure SparseTree.Commits (claims : Claims) (depth : Nat) (tree : SparseTree) : Prop where
  /-- Every claim reaches the root along what the tree hands out for it. -/
  complete : ∀ c ∈ claims, (tree.lookup.get c.1).found = true ∧ (tree.lookup.get c.1).value = c.2 ∧
    (tree.lookup.get c.1).siblings.length = depth ∧
    reachedRoot c.1 c.2 (tree.lookup.get c.1).siblings
      (Bytes.ofLittleEndian (tree.lookup.get c.1).key) = .ok tree.lookup.root
  /-- What else reaches the root is a claim at its rank with the tree's siblings, or
  comes with a break. -/
  binding : ∀ path value slot siblings, slot < 2 ^ depth → siblings.length = depth →
    reachedRoot path value siblings slot = .ok tree.lookup.root →
    ((path, value) ∈ claims ∧ rank claims path = slot ∧ (tree.lookup.get path).siblings = siblings) ∨
      Break claims tree path value siblings slot

/-- **A claims tree is a complete and binding commitment.** -/
theorem tree_commits (h : SparseTree.build claims depth = .ok tree) : tree.Commits claims depth := by
  refine ⟨fun c hc => ?_, fun path value slot siblings hslot hlength hroot => ?_⟩
  · show (tree.entry c.1).found = true ∧ (tree.entry c.1).value = c.2 ∧
      (tree.entry c.1).siblings.length = depth ∧
      reachedRoot c.1 c.2 (tree.entry c.1).siblings (Bytes.ofLittleEndian (tree.entry c.1).key) =
        .ok tree.root.val
    rw [ofLittleEndian_key h hc, reachedRoot_of_claim h hc, SparseTree.entry_of_build h hc]
    refine ⟨rfl, rfl, ?_, rfl⟩
    simp
  · exact (claim_of_reachedRoot h hslot hlength hroot).symm

/-- Three claims, out of order, at a depth whose keys take two bytes. -/
theorem tree_commits_three_claims :
    ∃ tree, SparseTree.build [("name", 7), ("address.city", 620), ("birthDate", 19890101)] 9 = .ok tree ∧
      tree.Commits [("name", 7), ("address.city", 620), ("birthDate", 19890101)] 9 := by
  have haccepted : Accepted [("name", 7), ("address.city", 620), ("birthDate", 19890101)] 9 :=
    ⟨by decide, by decide, by decide, by decide, by decide⟩
  have hbuild := SparseTree.build_eq_ok_iff.mpr ⟨haccepted, rfl⟩
  exact ⟨_, hbuild, tree_commits hbuild⟩

end Disclosure.Claim
