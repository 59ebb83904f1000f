import Disclosure.Proofs.Claim.Rank
import Disclosure.Proofs.Json.Leaf

/-! What flattening a subject gives.

Claims are only ever set, one path at a time, to the numbers of scalars (`collect_keeps`).
So the claims of a subject are in path order, no path repeats, and every value is in the
field: an accumulator has nothing to refuse in them but their number.

One claim is set for each leaf of the subject, in the order of a depth-first walk
(`flatten_eq`). The path of a claim joins the keys and indices that lead to its leaf, and
where several leaves join to one path the last of them is the one committed
(`flatten_flattens`). -/
namespace Disclosure.Claim
open Json (Place Segment LeafAt)

theorem encodeText_lt (text : String) : encodeText text < Field.order := by
  unfold encodeText
  dsimp only
  split
  · rename_i h
    exact h.2.2
  · exact (Field.hashText text).isLt

/-- The number of a scalar is in the field. -/
theorem encodeScalar?_lt {value : Json} {n : Nat} (h : encodeScalar? value = some n) : n < Field.order := by
  cases value with
  | null => cases h
  | bool b =>
    cases h
    exact Nat.lt_of_le_of_lt (Bool.toNat_le b) (by decide)
  | number x =>
    cases x with
    | natural n =>
      cases h
      exact Nat.lt_trans n.toNat_lt (by decide)
    | negative n =>
      cases h
      exact (Field.hashText _).isLt
    | double x =>
      cases h
      exact (Field.hashText _).isLt
  | string s =>
    cases h
    exact encodeText_lt s
  | array items => cases h
  | object members => cases h

/-- What setting a path to a number of the field keeps. -/
def Kept (P : Claims → Prop) : Prop :=
  ∀ path n claims, n < Field.order → P claims → P (Keyed.insert path n claims)

mutual

theorem collect_keeps {P : Claims → Prop} (hP : Kept P) (path : String) (value : Json) (claims : Claims)
    (h : P claims) : P (collect path value claims) := by
  unfold collect
  split
  · exact collectItems_keeps hP path 0 _ claims h
  · exact collectMembers_keeps hP path _ claims h
  · split
    · rename_i hn
      exact hP path _ claims (encodeScalar?_lt hn) h
    · exact h

theorem collectItems_keeps {P : Claims → Prop} (hP : Kept P) (path : String) (index : Nat)
    (items : List Json) (claims : Claims) (h : P claims) : P (collectItems path index items claims) := by
  unfold collectItems
  split
  · exact h
  · exact collectItems_keeps hP path _ _ _ (collect_keeps hP _ _ claims h)

theorem collectMembers_keeps {P : Claims → Prop} (hP : Kept P) (path : String)
    (members : List (String × Json)) (claims : Claims) (h : P claims) :
    P (collectMembers path members claims) := by
  unfold collectMembers
  split
  · exact h
  · exact collectMembers_keeps hP path _ _ (collect_keeps hP _ _ claims h)

end

theorem flatten_keeps {P : Claims → Prop} (hP : Kept P) (h : P []) (subject : Json.Object) :
    P (flatten subject) := by
  unfold flatten
  generalize ([] : Claims) = claims at h
  induction subject.members generalizing claims with
  | nil => exact h
  | cons m rest ih => exact ih _ (collect_keeps hP m.1 m.2 claims h)

/-- **Flattened claims are in path order**, and no path repeats. -/
theorem flatten_ordered (subject : Json.Object) : Keyed.Ordered (flatten subject) :=
  flatten_keeps (P := Keyed.Ordered) (fun path n _ _ h => h.insert path n) List.Pairwise.nil subject

theorem flatten_lt (subject : Json.Object) : ∀ c ∈ flatten subject, c.2 < Field.order := by
  refine flatten_keeps (P := fun claims => ∀ c ∈ claims, c.2 < Field.order) ?_ nofun subject
  intro path n claims hn h c hc
  rcases Keyed.mem_insert hc with rfl | hc
  · exact hn
  · exact h c hc

theorem flatten_nodup (subject : Json.Object) : ((flatten subject).map (·.1)).Nodup :=
  Keyed.nodup_of_ordered (flatten_ordered subject)

/-! ### Leaves -/

def segmentText : Segment → String
  | .key key => key
  | .index i => Decimal.write i

/-- The path of a place. -/
def dotted (place : Place) : String :=
  ".".intercalate (place.map segmentText)

/-- The value that a subject is. -/
abbrev root (subject : Json.Object) : Json :=
  .object subject.members

/-! ### The walk -/

/-- A path extended by a place below it. -/
def extend (path : String) (place : Place) : String :=
  place.foldl (fun path segment => path ++ "." ++ segmentText segment) path

/-- The number of a leaf. -/
def number (leaf : Json) : Nat :=
  (encodeScalar? leaf).getD 0

/-- Sets the claim of a leaf below a path. -/
def store (path : String) (claims : Claims) (leaf : Place × Json) : Claims :=
  Keyed.insert (extend path leaf.1) (number leaf.2) claims

theorem encode_of_isScalar {value : Json} (h : value.isScalar = true) :
    encode value = .ok (encodeScalar? value) := by
  cases value with
  | array items => cases h
  | object members => cases h
  | _ => rfl

theorem encodeScalar?_of_isLeaf {leaf : Json} (h : leaf.isLeaf = true) :
    encodeScalar? leaf = some (number leaf) := by
  cases leaf with
  | null => cases h
  | array items => cases h
  | object members => cases h
  | number n => cases n <;> rfl
  | _ => rfl

theorem encode_of_isLeaf {leaf : Json} (h : leaf.isLeaf = true) : encode leaf = .ok (some (number leaf)) := by
  have hscalar : leaf.isScalar = true := by
    cases leaf with
    | null => cases h
    | _ => exact h
  rw [encode_of_isScalar hscalar, encodeScalar?_of_isLeaf h]

theorem collect_null (path : String) (claims : Claims) : collect path .null claims = claims := by
  unfold collect
  rfl

theorem collect_of_isLeaf (path : String) {leaf : Json} (h : leaf.isLeaf = true) (claims : Claims) :
    collect path leaf claims = Keyed.insert path (number leaf) claims := by
  have hnumber := encodeScalar?_of_isLeaf h
  unfold collect
  cases leaf with
  | null => cases h
  | array items => cases h
  | object members => cases h
  | _ =>
    dsimp only
    rw [hnumber]

theorem dotted_cons (segment : Segment) (rest : Place) :
    dotted (segment :: rest) = extend (segmentText segment) rest := by
  unfold dotted
  rw [List.map_cons]
  generalize segmentText segment = path
  induction rest generalizing path with
  | nil => rfl
  | cons next rest ih => exact ih (path ++ "." ++ segmentText next)

/-- Storing leaves that are seen from one segment above. -/
theorem foldl_store_under (path : String) (segment : Segment)
    (found : List (Place × Json)) (claims : Claims) :
    (found.map (Json.under segment)).foldl (store path) claims =
      found.foldl (store (path ++ "." ++ segmentText segment)) claims := by
  rw [List.foldl_map]
  rfl

mutual

/-- The walk stores the leaves in their order. -/
theorem collect_eq (path : String) : (value : Json) → (claims : Claims) →
    collect path value claims = value.leaves.foldl (store path) claims
  | .null, claims => collect_null path claims
  | .bool _, claims => collect_of_isLeaf path rfl claims
  | .number _, claims => collect_of_isLeaf path rfl claims
  | .string _, claims => collect_of_isLeaf path rfl claims
  | .array items, claims => by rw [collect, Json.leaves, collectItems_eq path 0 items claims]
  | .object members, claims => by rw [collect, Json.leaves, collectMembers_eq path members claims]

theorem collectItems_eq (path : String) (index : Nat) : (items : List Json) → (claims : Claims) →
    collectItems path index items claims = (Json.itemLeaves index items).foldl (store path) claims
  | [], _ => by rw [collectItems]; rfl
  | item :: rest, claims => by
    rw [collectItems, Json.itemLeaves, List.foldl_append, foldl_store_under, collect_eq _ item claims,
      collectItems_eq path (index + 1) rest]
    rfl

theorem collectMembers_eq (path : String) : (members : List (String × Json)) → (claims : Claims) →
    collectMembers path members claims = (Json.memberLeaves members).foldl (store path) claims
  | [], _ => by rw [collectMembers]; rfl
  | (key, member) :: rest, claims => by
    rw [collectMembers, Json.memberLeaves, List.foldl_append, foldl_store_under, collect_eq _ member claims,
      collectMembers_eq path rest]
    rfl

end

/-- The claim of a leaf. -/
def claimOf (leaf : Place × Json) : String × Nat :=
  (dotted leaf.1, number leaf.2)

/-- **Flattening sets the claims of the leaves, one after the other.** -/
theorem flatten_eq (subject : Json.Object) :
    flatten subject = Keyed.ofList ((root subject).leaves.map claimOf) := by
  unfold flatten Keyed.ofList
  rw [Json.leaves, List.foldl_map]
  generalize ([] : Claims) = claims
  induction subject.members generalizing claims with
  | nil => rfl
  | cons m rest ih =>
    rw [List.foldl_cons, ih, Json.memberLeaves, List.foldl_append, List.foldl_map, collect_eq]
    congr 2
    funext claims leaf
    show store m.1 claims leaf = Keyed.insert (dotted (.key m.1 :: leaf.1)) _ claims
    rw [dotted_cons]
    rfl

/-! ### The leaf of a claim -/

variable {subject : Json.Object}

theorem ordered_root (subject : Json.Object) : (root subject).Ordered :=
  subject.ordered

/-- The last of the leaves that join to a path, in the order of the walk. -/
structure LastAt (subject : Json.Object) (path : String) (place : Place) (leaf : Json) : Prop where
  leafAt : LeafAt (root subject) place leaf
  joins : dotted place = path
  last : ∀ other v, LeafAt (root subject) other v →
    dotted other = path → other = place ∨ other.Before place

theorem find?_flatten (subject : Json.Object) (path : String) :
    Keyed.find? path (flatten subject) =
      ((root subject).leaves.reverse.find? fun leaf => dotted leaf.1 = path).map
        fun leaf => number leaf.2 := by
  rw [flatten_eq, Keyed.find?_ofList, ← List.map_reverse, Keyed.find?, List.find?_map, Option.map_map]
  rfl

/-- What is found from the end comes last. -/
theorem lastAt_of_find? {path : String} {place : Place} {leaf : Json}
    (h : ((root subject).leaves.reverse.find? fun leaf => dotted leaf.1 = path) = some (place, leaf)) :
    LastAt subject path place leaf := by
  obtain ⟨hjoins, later, earlier, hsplit, hlater⟩ := List.find?_eq_some_iff_append.mp h
  have hleaves : (root subject).leaves = earlier.reverse ++ (place, leaf) :: later.reverse := by
    rw [← List.reverse_reverse (root subject).leaves, hsplit]
    simp
  have hascend := Json.leaves_ascend (root subject) (ordered_root subject)
  rw [hleaves] at hascend
  have hbefore := (List.pairwise_append.mp hascend).2.2
  refine ⟨(Json.mem_leaves (ordered_root subject)).mp (by simp [hleaves]), of_decide_eq_true hjoins, ?_⟩
  intro other v hother hpath
  have hmem := (Json.mem_leaves (ordered_root subject)).mpr hother
  rw [hleaves] at hmem
  rcases List.mem_append.mp hmem with hmem | hmem
  · exact .inr (hbefore _ hmem _ List.mem_cons_self)
  · rcases List.mem_cons.mp hmem with heq | hmem
    · cases heq
      exact .inl rfl
    · have hno := hlater _ (List.mem_reverse.mp hmem)
      rw [hpath, decide_eq_true rfl] at hno
      cases hno

/-- Of two leaves that both come last each is the other. -/
theorem LastAt.unique {path : String} {p q : Place} {v w : Json} (hp : LastAt subject path p v)
    (hq : LastAt subject path q w) : p = q ∧ v = w := by
  have hplace : p = q := by
    rcases hp.last q w hq.leafAt hq.joins with heq | hqp
    · exact heq.symm
    · rcases hq.last p v hp.leafAt hp.joins with heq | hpq
      · exact heq
      · exact absurd hpq hqp.asymm
  subst hplace
  exact ⟨rfl, Option.some.inj (hp.leafAt.1.symm.trans hq.leafAt.1)⟩

/-- Where a leaf joins to a path, one of those that do comes last. -/
theorem exists_lastAt {place : Place} {leaf : Json} (h : LeafAt (root subject) place leaf) :
    ∃ p v, LastAt subject (dotted place) p v ∧
      Keyed.find? (dotted place) (flatten subject) = some (number v) := by
  have hmem := (Json.mem_leaves (ordered_root subject)).mpr h
  cases hfind : (root subject).leaves.reverse.find? fun leaf => dotted leaf.1 = dotted place with
  | none =>
    have hno := List.find?_eq_none.mp hfind _ (List.mem_reverse.mpr hmem)
    exact absurd (decide_eq_true rfl) hno
  | some last =>
    refine ⟨last.1, last.2, lastAt_of_find? hfind, ?_⟩
    rw [find?_flatten, hfind]
    rfl

theorem mem_flatten_iff {path : String} {n : Nat} :
    (path, n) ∈ flatten subject ↔
      ∃ place leaf, LastAt subject path place leaf ∧ encode leaf = .ok (some n) := by
  rw [← Keyed.find?_eq_some_iff (flatten_ordered subject)]
  constructor
  · intro h
    rw [find?_flatten] at h
    obtain ⟨last, hfind, rfl⟩ := Option.map_eq_some_iff.mp h
    have hlast := lastAt_of_find? hfind
    exact ⟨last.1, last.2, hlast, encode_of_isLeaf hlast.leafAt.2⟩
  · rintro ⟨place, leaf, hlast, hencode⟩
    obtain ⟨p, v, hfound, hfind⟩ := exists_lastAt hlast.leafAt
    rw [hlast.joins] at hfound hfind
    obtain ⟨_, rfl⟩ := hfound.unique hlast
    rw [encode_of_isLeaf hlast.leafAt.2] at hencode
    cases hencode
    exact hfind

theorem mem_paths_iff {path : String} :
    path ∈ (flatten subject).map (·.1) ↔
      ∃ place leaf, LeafAt (root subject) place leaf ∧ dotted place = path := by
  constructor
  · intro h
    obtain ⟨c, hc, rfl⟩ := List.mem_map.mp h
    obtain ⟨place, leaf, hlast, _⟩ := mem_flatten_iff.mp hc
    exact ⟨place, leaf, hlast.leafAt, hlast.joins⟩
  · rintro ⟨place, leaf, hleaf, rfl⟩
    obtain ⟨p, v, _, hfind⟩ := exists_lastAt hleaf
    exact List.mem_map.mpr ⟨_, Keyed.mem_of_find? hfind, rfl⟩

/-- Subjects with the same leaves flatten alike, whatever else stands in them. -/
theorem flatten_congr {other : Json.Object}
    (h : ∀ place leaf, LeafAt (root other) place leaf ↔ LeafAt (root subject) place leaf) :
    flatten other = flatten subject := by
  have hleaves : (root other).leaves = (root subject).leaves := by
    have hasc := Json.leaves_ascend (root other) (ordered_root other)
    have hasc' := Json.leaves_ascend (root subject) (ordered_root subject)
    have hnodup : ∀ found : List (Place × Json), found.Pairwise (·.1.Before ·.1) → found.Nodup := by
      intro found hfound
      rw [List.nodup_iff_pairwise_ne]
      exact hfound.imp fun hlt heq => (heq ▸ hlt).asymm (heq ▸ hlt)
    have hperm : (root other).leaves.Perm (root subject).leaves := by
      refine (List.perm_ext_iff_of_nodup (hnodup _ hasc) (hnodup _ hasc')).mpr fun found => ?_
      rw [Json.mem_leaves (ordered_root other), Json.mem_leaves (ordered_root subject)]
      exact h found.1 found.2
    exact hperm.eq_of_pairwise (fun _ _ _ _ hpq hqp => absurd hqp hpq.asymm) hasc hasc'
  rw [flatten_eq, flatten_eq, hleaves]

/-- What flattening is to give: the claims of a subject, told by its leaves alone. -/
structure Flattens (subject : Json.Object) (claims : Claims) : Prop where
  /-- Encoding refuses no value that stands in the subject, containers apart. -/
  encodes : ∀ place value, (root subject).valueAt? place = some value → value.isScalar = true →
    ∃ n?, encode value = .ok n?
  ascends : claims.Pairwise fun a b => Text.bytes a.1 < Text.bytes b.1
  occurs : ∀ path, path ∈ claims.map (·.1) ↔
    ∃ place leaf, LeafAt (root subject) place leaf ∧ dotted place = path
  last : ∀ path n, (path, n) ∈ claims ↔
    ∃ place leaf, LastAt subject path place leaf ∧ encode leaf = .ok (some n)
  inField : ∀ c ∈ claims, c.2 < Field.order
  /-- Nulls and empty containers leave no trace. -/
  onlyLeaves : ∀ other,
    (∀ place leaf, LeafAt (root other) place leaf ↔ LeafAt (root subject) place leaf) →
    flatten other = claims

/-- **Flattening commits the last leaf of every path**, in path order, and nothing else. -/
theorem flatten_flattens (subject : Json.Object) : Flattens subject (flatten subject) where
  encodes _ _ _ h := ⟨_, encode_of_isScalar h⟩
  ascends := (flatten_ordered subject).imp Text.lt_iff_bytes_lt.mp
  occurs _ := mem_paths_iff
  last _ _ := mem_flatten_iff
  inField := flatten_lt subject
  onlyLeaves _ := flatten_congr

end Disclosure.Claim
