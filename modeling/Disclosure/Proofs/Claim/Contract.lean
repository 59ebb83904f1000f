import Disclosure.Proofs.Claim.Inclusion
import Mathlib.Data.List.Duplicate

/-! The contract of the default accumulator.

Which claims it takes, what it says of those it refuses and what it answers for those it
took depend on the claims and not on the order in which they come (`sparse_meets_contract`).
Duplicates are found as neighbours after sorting, so the one reported is the smallest. -/
namespace Disclosure.Claim

/-! ### Duplicates -/

/-- A path occurs more than once, and no smaller one does. -/
structure FirstRepeated (claims : Claims) (path : String) : Prop where
  repeated : (claims.map (·.1)).Duplicate path
  least : ∀ other, (claims.map (·.1)).Duplicate other → ¬ Text.bytes other < Text.bytes path

theorem duplicate_perm {a b : Claims} (h : a.Perm b) (path : String) :
    (a.map (·.1)).Duplicate path ↔ (b.map (·.1)).Duplicate path := by
  rw [List.duplicate_iff_two_le_count, List.duplicate_iff_two_le_count, (h.map (·.1)).count_eq]

theorem FirstRepeated.perm {a b : Claims} (h : a.Perm b) {path : String} (hpath : FirstRepeated a path) :
    FirstRepeated b path where
  repeated := (duplicate_perm h path).mp hpath.repeated
  least other hother := hpath.least other ((duplicate_perm h other).mpr hother)

theorem FirstRepeated.unique {claims : Claims} {p q : String} (hp : FirstRepeated claims p)
    (hq : FirstRepeated claims q) : p = q := by
  have hpq : ¬ p < q := fun h => hq.least p hp.repeated (Text.lt_iff_bytes_lt.mp h)
  have hqp : ¬ q < p := fun h => hp.least q hq.repeated (Text.lt_iff_bytes_lt.mp h)
  exact String.le_antisymm (String.not_lt.mp hqp) (String.not_lt.mp hpq)

/-- The first path followed by itself is the smallest one that repeats. -/
theorem firstRepeated_of_repeated? {claims : Claims} (h : claims.Pairwise (·.1 ≤ ·.1)) {path : String}
    (hpath : repeated? claims = some path) : FirstRepeated claims path := by
  induction claims using repeated?.induct with
  | case1 a b rest heq =>
    rw [repeated?, if_pos heq] at hpath
    cases hpath
    refine ⟨List.Mem.duplicate_cons_self ?_, fun other hother hlt => ?_⟩
    · rw [List.map_cons, heq]
      exact List.mem_cons_self
    · obtain ⟨c, hc, rfl⟩ := List.mem_map.mp hother.mem
      have hca : c.1 < a.1 := Text.lt_iff_bytes_lt.mpr hlt
      rcases List.mem_cons.mp hc with rfl | hc
      · exact String.lt_irrefl c.1 hca
      · exact String.not_lt.mpr ((List.pairwise_cons.mp h).1 c hc) hca
  | case2 a b rest hne ih =>
    obtain ⟨ha, htail⟩ := List.pairwise_cons.mp h
    rw [repeated?, if_neg hne] at hpath
    obtain ⟨hrep, hleast⟩ := ih htail hpath
    refine ⟨hrep.duplicate_cons a.1, fun other hother => ?_⟩
    rw [List.map_cons, List.duplicate_cons_iff] at hother
    rcases hother with ⟨rfl, hmem⟩ | hother
    · -- The head is smaller than its neighbour, hence than everything after it.
      obtain ⟨c, hc, hca⟩ := List.mem_map.mp hmem
      have hbc : b.1 ≤ c.1 := by
        rcases List.mem_cons.mp hc with rfl | hc
        · exact String.le_refl _
        · exact (List.pairwise_cons.mp htail).1 c hc
      exact absurd (String.le_antisymm (ha b List.mem_cons_self) (hca ▸ hbc)) hne
    · exact hleast other hother
  | case3 claims hshort =>
    cases claims with
    | nil => cases hpath
    | cons a others =>
      cases others with
      | nil => cases hpath
      | cons b rest => exact absurd rfl (hshort a b rest)

theorem repeated?_sorted_eq_none_iff {claims : Claims} :
    repeated? (sorted claims) = none ↔ (claims.map (·.1)).Nodup := by
  rw [repeated?_eq_none_iff (pairwise_sorted claims), ordered_sorted_iff]

theorem firstRepeated_of_sorted {claims : Claims} {path : String}
    (h : repeated? (sorted claims) = some path) : FirstRepeated claims path :=
  (firstRepeated_of_repeated? (pairwise_sorted claims) h).perm (sorted_perm claims)

/-! ### The order of the claims -/

theorem repeated?_sorted_perm {a b : Claims} (h : a.Perm b) :
    repeated? (sorted a) = repeated? (sorted b) := by
  have hnodup := (h.map (·.1)).nodup_iff
  cases ha : repeated? (sorted a) with
  | none => exact (repeated?_sorted_eq_none_iff.mpr (hnodup.mp (repeated?_sorted_eq_none_iff.mp ha))).symm
  | some p =>
    cases hb : repeated? (sorted b) with
    | none =>
      rw [repeated?_sorted_eq_none_iff.mpr (hnodup.mpr (repeated?_sorted_eq_none_iff.mp hb))] at ha
      cases ha
    | some q =>
      exact congrArg some (((firstRepeated_of_sorted ha).perm h).unique (firstRepeated_of_sorted hb))

/-- Claims that repeat no path have one sorted arrangement. -/
theorem sorted_eq_of_perm {a b : Claims} (h : a.Perm b) (hdistinct : (a.map (·.1)).Nodup) :
    sorted a = sorted b := by
  have hperm : (sorted a).Perm (sorted b) := (sorted_perm a).trans (h.trans (sorted_perm b).symm)
  have ha := ordered_sorted_iff.mpr hdistinct
  have hb := ordered_sorted_iff.mpr ((h.map (·.1)).nodup_iff.mp hdistinct)
  exact hperm.eq_of_pairwise (fun _ _ _ _ hpq hqp => absurd hqp (String.lt_asymm hpq)) ha hb

theorem SparseTree.build_perm {a b : Claims} (h : a.Perm b) (depth : Nat) :
    build a depth = build b depth := by
  unfold build
  rw [h.length_eq, repeated?_sorted_perm h]
  cases hb : repeated? (sorted b) with
  | some path => rfl
  | none =>
    have hdistinct := (h.map (·.1)).nodup_iff.mpr (repeated?_sorted_eq_none_iff.mp hb)
    rw [sorted_eq_of_perm h hdistinct]

/-! ### Refusals -/

/-- What is said of claims that are refused. The first check that fails decides: the depth,
the number of claims, that no path repeats, the values. -/
inductive Refused (claims : Claims) (depth : Nat) : Error → Prop
  | depth (h : ¬(1 ≤ depth ∧ depth ≤ 64)) : Refused claims depth (.claimsTree (.depth depth 64))
  | capacity (hdepth : 1 ≤ depth ∧ depth ≤ 64) (h : 2 ^ depth < claims.length) :
    Refused claims depth (.claimsTree (.capacity claims.length depth))
  | duplicate (hdepth : 1 ≤ depth ∧ depth ≤ 64) (hfits : claims.length ≤ 2 ^ depth) {path : String}
    (h : FirstRepeated claims path) : Refused claims depth (.claimsTree (.duplicate path))
  | value (hdepth : 1 ≤ depth ∧ depth ≤ 64) (hfits : claims.length ≤ 2 ^ depth)
    (hdistinct : (claims.map (·.1)).Nodup) {c : String × Nat} (hc : c ∈ claims)
    (h : Field.order ≤ c.2) :
    Refused claims depth (.invalidElement (.outOfField c.2))

theorem firstOf_leafHash (path : String) (value : Nat) :
    Outcome.FirstOf (Field.faults value) (leafHash path value) :=
  (Field.firstOf_toElement value).map _

/-- Hashing the leaves fails at a claim whose value is out of the field. -/
theorem exists_of_leafHashes_error {claims : Claims} {e : Error}
    (h : (claims.mapM fun c => leafHash c.1 c.2) = .error e) :
    ∃ c ∈ claims, Field.order ≤ c.2 ∧ e = .invalidElement (.outOfField c.2) := by
  have hfirst := Outcome.FirstOf.mapM fun (c : String × Nat) (_ : c ∈ claims) => firstOf_leafHash c.1 c.2
  rw [h] at hfirst
  obtain ⟨c, hc, he⟩ := List.mem_flatMap.mp (List.mem_of_head? hfirst)
  exact ⟨c, hc, Field.mem_faults.mp he⟩

theorem SparseTree.refused_of_build {claims : Claims} {depth : Nat} {e : Error}
    (h : build claims depth = .error e) : Refused claims depth e := by
  unfold build at h
  split at h
  · rename_i hout
    cases h
    refine .depth fun ⟨hpos, hle⟩ => ?_
    unfold maxDepth at hout
    omega
  rename_i hin
  have hdepth : 1 ≤ depth ∧ depth ≤ 64 := by
    unfold maxDepth at hin
    omega
  split at h
  · rename_i hfull
    cases h
    exact .capacity hdepth hfull
  rename_i hfits
  cases hrep : repeated? (sorted claims) with
  | some path =>
    rw [hrep] at h
    cases h
    exact .duplicate hdepth (Nat.not_lt.mp hfits) (firstRepeated_of_sorted hrep)
  | none =>
    rw [hrep] at h
    cases hhashes : (sorted claims).mapM fun c => leafHash c.1 c.2 with
    | ok hashes =>
      dsimp only at h
      rw [hhashes] at h
      cases h
    | error e' =>
      dsimp only at h
      rw [hhashes] at h
      cases h
      obtain ⟨c, hc, hvalue, rfl⟩ := exists_of_leafHashes_error hhashes
      exact .value hdepth (Nat.not_lt.mp hfits) (repeated?_sorted_eq_none_iff.mp hrep)
        (mem_sorted.mp hc) hvalue

/-! ### The contract -/

/-- A lookup answers for the claims and for nothing else. -/
structure Answers (claims : Claims) (depth : Nat) (lookup : Lookup) : Prop where
  found : ∀ path, (lookup.get path).found = true ↔ path ∈ claims.map (·.1)
  value : ∀ c ∈ claims, (lookup.get c.1).value = c.2
  /-- No bit of the rank is lost in the key. -/
  key : ∀ c ∈ claims, (lookup.get c.1).key.length = (depth + 7) / 8 ∧
    Bytes.ofLittleEndian (lookup.get c.1).key = rank claims c.1
  absent : ∀ path, path ∉ claims.map (·.1) → lookup.get path = ⟨false, 0, [], []⟩

structure MeetsContract (accumulator : Accumulator) (claims : Claims) (depth : Nat) : Prop where
  accepts : (∃ lookup, accumulator.build claims depth = .ok lookup) ↔
    (1 ≤ depth ∧ depth ≤ 64) ∧ claims.length ≤ 2 ^ depth ∧ (claims.map (·.1)).Nodup ∧
      ∀ c ∈ claims, c.2 < Field.order
  refuses : ∀ e, accumulator.build claims depth = .error e → Refused claims depth e
  answers : ∀ lookup, accumulator.build claims depth = .ok lookup → Answers claims depth lookup
  /-- The same error, or the same lookup. -/
  anyOrder : ∀ others, claims.Perm others →
    accumulator.build others depth = accumulator.build claims depth

theorem accepted_iff {claims : Claims} {depth : Nat} :
    Accepted claims depth ↔ (1 ≤ depth ∧ depth ≤ 64) ∧ claims.length ≤ 2 ^ depth ∧
      (claims.map (·.1)).Nodup ∧ ∀ c ∈ claims, c.2 < Field.order :=
  ⟨fun h => ⟨⟨h.depth_pos, h.depth_le⟩, h.fits, h.distinct, h.inField⟩,
    fun ⟨hdepth, hfits, hdistinct, hin⟩ => ⟨hdepth.1, hdepth.2, hfits, hdistinct, hin⟩⟩

theorem answers_of_build {claims : Claims} {depth : Nat} {tree : SparseTree}
    (h : SparseTree.build claims depth = .ok tree) : Answers claims depth tree.lookup where
  found path := by
    refine ⟨fun hfound => ?_, fun hpath => ?_⟩
    · obtain ⟨value, hc⟩ := SparseTree.mem_of_found h hfound
      exact List.mem_map.mpr ⟨_, hc, rfl⟩
    · obtain ⟨c, hc, rfl⟩ := List.mem_map.mp hpath
      show (tree.entry c.1).found = true
      rw [SparseTree.entry_of_build h hc]
  value c hc := by
    show (tree.entry c.1).value = c.2
    rw [SparseTree.entry_of_build h hc]
  key c hc := by
    show (tree.entry c.1).key.length = _ ∧ Bytes.ofLittleEndian (tree.entry c.1).key = _
    refine ⟨?_, ofLittleEndian_key h hc⟩
    rw [SparseTree.entry_of_build h hc]
    exact Bytes.length_toLittleEndian _ _
  absent path hpath :=
    SparseTree.entry_of_not_mem h fun c hc heq => hpath (List.mem_map.mpr ⟨c, hc, heq⟩)

/-- **The default accumulator meets its contract** for every list of claims and every depth. -/
theorem sparse_meets_contract (claims : Claims) (depth : Nat) :
    MeetsContract Accumulator.sparse claims depth where
  accepts := by
    rw [← accepted_iff]
    constructor
    · rintro ⟨lookup, hlookup⟩
      obtain ⟨tree, htree, _⟩ := sparse_eq_ok_iff.mp hlookup
      exact (SparseTree.build_eq_ok_iff.mp htree).1
    · intro h
      exact ⟨_, sparse_eq_ok_iff.mpr ⟨_, SparseTree.build_eq_ok_iff.mpr ⟨h, rfl⟩, rfl⟩⟩
  refuses e he := SparseTree.refused_of_build (sparse_eq_error_iff.mp he)
  answers lookup hlookup := by
    obtain ⟨tree, htree, rfl⟩ := sparse_eq_ok_iff.mp hlookup
    exact answers_of_build htree
  anyOrder others h := congrArg (Except.map SparseTree.lookup) (SparseTree.build_perm h depth).symm

/-- A full tree, whose claims may come in another order. -/
theorem sparse_meets_contract_full :
    ∃ lookup, Accumulator.sparse.build [("b", 2), ("d", 4), ("a", 1), ("c", 3)] 2 = .ok lookup ∧
      Answers [("b", 2), ("d", 4), ("a", 1), ("c", 3)] 2 lookup ∧
      Accumulator.sparse.build [("a", 1), ("b", 2), ("c", 3), ("d", 4)] 2 = .ok lookup := by
  have hmeets := sparse_meets_contract [("b", 2), ("d", 4), ("a", 1), ("c", 3)] 2
  obtain ⟨lookup, hlookup⟩ := hmeets.accepts.mpr ⟨by decide, by decide, by decide, by decide⟩
  exact ⟨lookup, hlookup, hmeets.answers lookup hlookup, (hmeets.anyOrder _ (by decide)).trans hlookup⟩

end Disclosure.Claim
