import Disclosure.Proofs.Build.Resolution
import Disclosure.Proofs.Claim.Inclusion

/-! An assignment as a set of inclusion proofs.

The disclosed claims of an assignment can be checked with the assignment alone: the packed
key holds their slots one after the other, each row of siblings leads the value that was
emitted from its slot to a root, and the root is that of one tree of all the claims. The
slots are the ranks of the claims' paths. -/
namespace Disclosure

/-- The slot at a place of a packed key, which gives each slot as many bytes as the depth has
eighths, rounded up. -/
def Claim.slotAt (depth key i : Nat) : Nat :=
  key / 256 ^ ((depth + 7) / 8 * i) % 256 ^ ((depth + 7) / 8)

/-- The claim signals, each with the pair that was emitted for it. -/
def Request.claimPairs (r : Request) (a : Assignment) : List (Declaration × String × SignalValue) :=
  (r.circuit.privateSignals.zip a.signals).filter fun p => !p.1.isReserved

/-- The claim at a place of an assignment reaches a root: the value emitted for the signal,
along the row of that place, from the slot that the key holds there. -/
structure Included (r : Request) (a : Assignment) (depth key root i : Nat) (d : Declaration) (value : Nat)
    (row : List Nat) : Prop where
  signal : r.claimSignals[i]? = some d
  emitted : (r.claimPairs a)[i]? = some (d, d.name, .scalar value)
  proof : a.claimsProof[i]? = some row
  length : row.length = depth
  slot_lt : Claim.slotAt depth key i < 2 ^ depth
  slot_eq : Claim.slotAt depth key i = Claim.rank r.claims (Claim.pathOf d.name)
  reaches : Claim.reachedRoot (Claim.pathOf d.name) value row (Claim.slotAt depth key i) = .ok root

section Tree
variable {r : Request} {depth : Nat} {t : Claim.SparseTree}

theorem slotAt_packedRanks (h : ∀ n ∈ r.ranks, n < 256 ^ Claim.keyWidth depth) {i : Nat}
    (hi : i < r.ranks.length) : Claim.slotAt depth (r.packedRanks depth) i = r.ranks[i] := by
  unfold Claim.slotAt Request.packedRanks
  rw [← Claim.keyWidth, Nat.pow_mul]
  exact Bytes.digit_ofDigits h hi

theorem packedRanks_lt (hdepth : 0 < depth) (h : ∀ n ∈ r.ranks, n < 256 ^ Claim.keyWidth depth) :
    r.packedRanks depth < 256 ^ (Claim.keyWidth depth * r.claimSignals.length) := by
  have hwidth : Claim.keyWidth depth ≠ 0 := by
    unfold Claim.keyWidth
    omega
  have hbase : 1 < 256 ^ Claim.keyWidth depth := Nat.one_lt_pow hwidth (by decide)
  have hlt := Nat.ofDigits_lt_base_pow_length hbase h
  rw [Request.ranks, List.length_map, ← Nat.pow_mul] at hlt
  exact hlt

/-- The pairs of the claim signals hold what the tree answers. -/
theorem claimPairs_eq {l : Claim.Lookup} {ds : List Declaration} {xs : List Disclosed}
    (h : List.Forall₂ (Plan.Discloses r (some l)) ds xs) (others : List (String × SignalValue)) :
    ((ds.zip (xs.map (fun x => (x.name, x.value)) ++ others)).filter fun p => !p.1.isReserved) =
      (ds.filter fun d => !d.isReserved).map fun d =>
        (d, d.name, .scalar (l.get (Claim.pathOf d.name)).value) := by
  induction h with
  | nil => rfl
  | cons hx _ ih =>
    rw [List.map_cons, List.cons_append, List.zip_cons_cons]
    cases hx with
    | material hname _ =>
      have hreserved := Declaration.isReserved_of_name hname
      rw [List.filter_cons_of_neg (by rw [hreserved]; decide),
        List.filter_cons_of_neg (by rw [hreserved]; decide), ih]
    | claim hopen _ hsome _ =>
      cases hsome
      rw [List.filter_cons_of_pos (by rw [hopen]; decide),
        List.filter_cons_of_pos (by rw [hopen]; decide), List.map_cons, ih]

/-- The claim signal at a place is included in the tree. -/
theorem included_of_parts (ht : Claim.SparseTree.build r.claims depth = .ok t) {a : Assignment}
    (parts : Plan.Parts r a) (htree : parts.tree = some t.lookup) {i : Nat} {d : Declaration}
    (hd : r.claimSignals[i]? = some d) :
    ∃ value row, Included r a depth (r.packedRanks depth) t.root.val i d value row := by
  have hdiscloses := htree ▸ parts.discloses
  have hmem := List.mem_of_getElem? hd
  obtain ⟨value, hc⟩ := Plan.claim_of_discloses ht hdiscloses hmem
  have hentry := Claim.SparseTree.entry_of_build ht hc
  have hi : i < r.ranks.length := by
    rw [Request.ranks, List.length_map]
    exact (List.getElem?_eq_some_iff.mp hd).1
  have hslot : Claim.slotAt depth (r.packedRanks depth) i = Claim.rank r.claims (Claim.pathOf d.name) := by
    rw [slotAt_packedRanks (Plan.rank_lt_of_discloses ht hdiscloses) hi]
    have hrank : r.ranks[i]? = some (Claim.rank r.claims (Claim.pathOf d.name)) := by
      rw [Request.ranks, List.getElem?_map, hd]
      rfl
    rw [List.getElem?_eq_getElem hi] at hrank
    exact Option.some.inj hrank
  refine ⟨value, (t.entry (Claim.pathOf d.name)).siblings, hd, ?_, ?_, ?_, ?_, hslot, ?_⟩
  · rw [Request.claimPairs, parts.signals, claimPairs_eq hdiscloses, List.getElem?_map]
    show (r.claimSignals[i]?).map _ = _
    rw [hd]
    show some (d, d.name, SignalValue.scalar (t.entry (Claim.pathOf d.name)).value) = _
    rw [hentry]
  · rw [parts.claimsProof, Plan.inclusions_eq hdiscloses, List.map_map, List.getElem?_map]
    show (r.claimSignals[i]?).map _ = _
    rw [hd]
    rfl
  · simp [hentry]
  · rw [hslot]
    exact Claim.SparseTree.rank_lt_of_build ht hc
  · rw [hslot]
    exact Claim.reachedRoot_of_claim ht hc

end Tree

/-- **An assignment is a self-contained set of inclusion proofs.** Without claim signals it
has neither key nor rows; with some, each place of the key and each row prove the value of
one signal in the tree of the credential's claims. -/
theorem build_includes {r : Request} (hr : r.Standard) {a : Assignment} (h : r.build.outcome = .ok a) :
    (r.claimSignals = [] → a.claimsKey = none ∧ a.claimsProof = []) ∧
      (r.claimSignals ≠ [] → ∃ depth key tree, r.depth? = some depth ∧
        Claim.SparseTree.build r.claims depth = .ok tree ∧ a.claimsKey = some key ∧
        key < 256 ^ ((depth + 7) / 8 * r.claimSignals.length) ∧
        a.claimsProof.length = r.claimSignals.length ∧
        ∀ i < r.claimSignals.length, ∃ d value row,
          Included r a depth key tree.root.val i d value row) := by
  rw [build_outcome] at h
  obtain ⟨parts⟩ := Plan.exists_parts h
  have hkey := parts.claimsKey
  obtain ⟨hnil, htree⟩ | ⟨hne, depth, t, hdepth, ht, htree⟩ :=
    Plan.claimsTree_cases_of_standard hr parts.claimsTree_eq
  · have hdiscloses := htree ▸ parts.discloses
    rw [Plan.inclusions_of_none hdiscloses] at hkey
    refine ⟨fun _ => ⟨?_, ?_⟩, fun hne => absurd hnil hne⟩
    · exact (Except.ok.inj hkey).symm
    · rw [parts.claimsProof, Plan.inclusions_of_none hdiscloses, List.map_nil]
  · have hdiscloses := htree ▸ parts.discloses
    have hranks : r.ranks ≠ [] := fun hnil => hne (List.map_eq_nil_iff.mp hnil)
    rw [Plan.packKeys_eq ht hdiscloses, if_neg hranks] at hkey
    obtain ⟨_, _, hkey⟩ := Outcome.bind_eq_ok_iff.mp hkey
    refine ⟨fun hnil => absurd hnil hne, fun _ => ?_⟩
    refine ⟨depth, r.packedRanks depth, t, hdepth, ht, (Except.ok.inj hkey).symm, ?_, ?_, fun i hi => ?_⟩
    · exact packedRanks_lt (Claim.SparseTree.build_eq_ok_iff.mp ht).1.depth_pos
        (Plan.rank_lt_of_discloses ht hdiscloses)
    · rw [parts.claimsProof, Plan.inclusions_eq hdiscloses, List.length_map, List.length_map]
      rfl
    · have hd := List.getElem?_eq_getElem hi
      obtain ⟨value, row, hincluded⟩ := included_of_parts ht parts htree hd
      exact ⟨_, value, row, hincluded⟩

/-- Both claims of the request are proved, in a tree of depth nine. -/
theorem ageRequest_includes :
    ∃ a key tree, ageRequest.build.outcome = .ok a ∧ a.claimsKey = some key ∧ key < 256 ^ 4 ∧
      Claim.SparseTree.build ageRequest.claims 9 = .ok tree ∧ a.claimsProof.length = 2 ∧
      ∀ i < 2, ∃ d value row, Included ageRequest a 9 key tree.root.val i d value row := by
  obtain ⟨a, ha⟩ := ageRequest_builds
  obtain ⟨depth, key, tree, hdepth, htree, hkey, hlt, hlength, hrows⟩ :=
    (build_includes ageRequest_standard ha).2 (by decide)
  cases hdepth
  exact ⟨a, key, tree, ha, hkey, hlt, htree, hlength, hrows⟩

end Disclosure
