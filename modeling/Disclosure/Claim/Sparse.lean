import Disclosure.Claim.Flattening

/-! Claims trees: what a build asks of one, and the sparse tree.

An accumulator commits claims at a depth and hands out a lookup, which knows the
commitment's root and, for a path, the claim's value with the key and the siblings
that prove it.

In the sparse tree claims sorted by path fill the leaves from the left, one each; a leaf
hashes the path's hash with the value, an inner node its two children, and a subtree
without claims is zero. Only the nodes over some claim are kept, each level as the list of
its slots and nodes in no particular order. The key of a claim is its leaf's slot. -/
namespace Disclosure.Claim

structure Entry where
  found : Bool
  value : Nat
  /-- The key of the claim's leaf, little-endian. -/
  key : Bytes
  /-- The inclusion proof, leaf level first. -/
  siblings : List Nat
  deriving Repr, DecidableEq

/-- The entry of a path without a claim. -/
def Entry.absent : Entry :=
  ⟨false, 0, [], []⟩

structure Lookup where
  root : Nat
  get : String → Entry

structure Accumulator where
  build : Claims → (depth : Nat) → Except Error Lookup

/-! ### The sparse tree -/

/-- The nodes of one level that stand over some claim, by slot. -/
abbrev Level := List (Nat × Field.Element)

namespace Level

def node? (level : Level) (slot : Nat) : Option Field.Element :=
  (level.find? (·.1 = slot)).map (·.2)

/-- An empty subtree is zero. -/
def node (level : Level) (slot : Nat) : Field.Element :=
  (level.node? slot).getD 0

def slots (level : Level) : List Nat :=
  level.map (·.1)

/-- Adds the parent of a slot, unless it is there. -/
def addParent (level made : Level) (slot : Nat) : Level :=
  let parent := slot / 2
  if (made.node? parent).isSome then made
  else (parent, Field.hashPair (level.node (2 * parent)) (level.node (2 * parent + 1))) :: made

/-- The parents of a level, made by visiting its slots in the given order. -/
def parents (level : Level) (visits : List Nat) : Level :=
  visits.foldl (addParent level) []

/-- The levels from this one up, the root's level apart. -/
def climb : (height : Nat) → Level → List Level × Level
  | 0, level => ([], level)
  | height + 1, level =>
    let (levels, top) := climb height (level.parents level.slots)
    (level :: levels, top)

/-- The siblings on the way from a slot to the root. -/
def siblings : List Level → Nat → List Field.Element
  | [], _ => []
  | level :: rest, slot => level.node (slot ^^^ 1) :: siblings rest (slot / 2)

end Level

/-- A path's place in the tree. -/
structure Leaf where
  path : String
  value : Nat
  slot : Nat

structure SparseTree where
  depth : Nat
  leaves : List Leaf
  levels : List Level
  root : Field.Element

/-- The deepest tree. -/
def maxDepth : Nat := 64

/-- The bytes that hold every slot of a depth. -/
def keyWidth (depth : Nat) : Nat :=
  (depth + 7) / 8

def leafHash (path : String) (value : Nat) : Except Error Field.Element := do
  let value ← Field.toElement value
  .ok (Field.hashPair (Field.hashText path) value)

def sorted (claims : Claims) : Claims :=
  claims.mergeSort fun a b => a.1 ≤ b.1

/-- The first path that is followed by itself. -/
def repeated? : Claims → Option String
  | a :: b :: rest => if a.1 = b.1 then some a.1 else repeated? (b :: rest)
  | _ => none

namespace SparseTree

/-- The tree of claims sorted by path, and their leaf hashes in the same order. -/
def ofSorted (depth : Nat) (claims : Claims) (hashes : List Field.Element) : SparseTree :=
  let leaves := claims.zipIdx.map fun (claim, slot) => ⟨claim.1, claim.2, slot⟩
  let (levels, top) := Level.climb depth (hashes.zipIdx.map fun (hash, slot) => (slot, hash))
  { depth, leaves, levels, root := top.node 0 }

/-- Commits claims. The depth is checked first, then the number of claims, then that no
path repeats, then the values. -/
def build (claims : Claims) (depth : Nat) : Except Error SparseTree :=
  if depth = 0 ∨ maxDepth < depth then .error (.claimsTree (.depth depth maxDepth))
  else if Nat.pow 2 depth < claims.length then .error (.claimsTree (.capacity claims.length depth))
  else match repeated? (sorted claims) with
    | some path => .error (.claimsTree (.duplicate path))
    | none => do
      let hashes ← (sorted claims).mapM fun claim => leafHash claim.1 claim.2
      .ok (ofSorted depth (sorted claims) hashes)

def entry (tree : SparseTree) (path : String) : Entry :=
  match tree.leaves.find? (·.path = path) with
  | none => .absent
  | some leaf =>
    { found := true
      value := leaf.value
      key := Bytes.toLittleEndian (keyWidth tree.depth) leaf.slot
      siblings := (Level.siblings tree.levels leaf.slot).map (·.val) }

def lookup (tree : SparseTree) : Lookup :=
  ⟨tree.root.val, tree.entry⟩

end SparseTree

/-- The default accumulator. -/
def Accumulator.sparse : Accumulator :=
  ⟨fun claims depth => (SparseTree.build claims depth).map SparseTree.lookup⟩

end Disclosure.Claim
