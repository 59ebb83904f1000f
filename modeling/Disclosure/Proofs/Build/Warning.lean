import Disclosure.Proofs.Build.Frame
import Disclosure.Proofs.Build.Inclusion
import Disclosure.Proofs.Build.Relevance

/-! When a build warns.

The one warning of a build is due where a tree is built and the issuer's proof decodes to
another root. What comes before the tree fails without a warning, and what comes after it
leaves the warnings alone, so `build_warns` holds of every build, whether it succeeds or not.
In a build that succeeds, the warning tells whether the disclosed claims reach the root that
the issuer signed. -/
namespace Disclosure
open Outcome

/-- The warnings among events, in order. -/
def Event.warnings (events : List Event) : List String :=
  events.filterMap Event.warning?

/-- The text of the warning about the root. -/
def rootWarning : String :=
  "Claims tree root differs from the issuer-signed credential root"

/-- The warnings that are due about a tree when the issuer's proof decodes so. -/
def Claim.Lookup.rootWarnings (tree : Claim.Lookup) : Except Error Payload → List String
  | .ok p => if p.root = tree.root then [] else [rootWarning]
  | .error _ => []

namespace Request

/-- The tree of the claims is built: the checks before it pass, and some signal needs it. -/
structure BuildsTree (r : Request) (tree : Claim.Lookup) : Prop where
  valid : r.circuit.validate = .ok ()
  target : r.checkPolicy = .ok ()
  needed : r.claimSignals ≠ []
  built : ∃ depth, r.depth? = some depth ∧ r.accumulator.build r.claims depth = .ok tree

/-- A tree is built, and the issuer's proof is of the scheme's type and decodes to another
root. -/
def Mismatches (r : Request) : Prop :=
  ∃ tree p, r.BuildsTree tree ∧ r.credential.proof.type = r.scheme.proofType ∧
    r.scheme.parse r.credential.proof.value = .ok p ∧ p.root ≠ tree.root

/-- The warnings that are due, without running a build. -/
def dueWarnings (r : Request) : List String :=
  after r.circuit.validate fun _ =>
    after r.checkPolicy fun _ =>
      after (r.circuit.treeDepth r.depth r.circuit.hasClaimSignals) fun depth =>
        depth.elim [] fun depth => after (r.accumulator.build r.claims depth) (·.rootWarnings r.payload)

end Request

/-! ### What is due -/

section Due
variable {r : Request}

theorem root_ne_of_mem {tree : Claim.Lookup} {decoded : Except Error Payload} {w : String}
    (h : w ∈ tree.rootWarnings decoded) : ∃ p, decoded = .ok p ∧ p.root ≠ tree.root := by
  cases decoded with
  | error e => cases h
  | ok p =>
    refine ⟨p, rfl, fun hroot => ?_⟩
    rw [Claim.Lookup.rootWarnings, if_pos hroot] at h
    cases h

/-- A warning is only due where the roots differ. -/
theorem mismatches_of_mem {w : String} (h : w ∈ r.dueWarnings) : r.Mismatches := by
  obtain ⟨_, hvalid, h⟩ := mem_after.mp h
  obtain ⟨_, htarget, h⟩ := mem_after.mp h
  obtain ⟨depth, hdepth, h⟩ := mem_after.mp h
  cases depth with
  | none => cases h
  | some depth =>
    obtain ⟨hneeded, hdepth⟩ := Request.treeDepth_eq_some_iff.mp hdepth
    obtain ⟨tree, hbuilt, h⟩ := mem_after.mp h
    obtain ⟨p, hp, hroot⟩ := root_ne_of_mem h
    obtain ⟨htype, hparse⟩ := Request.payload_eq_ok_iff_parse.mp hp
    exact ⟨tree, p, ⟨hvalid, htarget, hneeded, depth, hdepth, hbuilt⟩, htype, hparse, hroot⟩

theorem dueWarnings_of_mismatches (h : r.Mismatches) : r.dueWarnings = [rootWarning] := by
  obtain ⟨tree, p, ⟨hvalid, htarget, hneeded, depth, hdepth, hbuilt⟩, htype, hparse, hroot⟩ := h
  unfold Request.dueWarnings
  rw [hvalid, htarget, Request.treeDepth_eq_some_iff.mpr ⟨hneeded, hdepth⟩]
  show after (r.accumulator.build r.claims depth) (·.rootWarnings r.payload) = _
  rw [hbuilt, Request.payload_eq_ok_iff_parse.mpr ⟨htype, hparse⟩]
  exact if_neg hroot

theorem dueWarnings_of_not_mismatches (h : ¬r.Mismatches) : r.dueWarnings = [] :=
  List.eq_nil_iff_forall_not_mem.mpr fun _ hw => h (mismatches_of_mem hw)

end Due

/-! ### The warnings of a build -/

/-- A step that gives these warnings in every session of a build. -/
def Warns (r : Request) (x : Step α) (warnings : List String) : Prop :=
  ∀ s, Coherent r s → Event.warnings (x.run s).2.events = Event.warnings s.events ++ warnings

namespace Warns
variable {r : Request} {x : Step α} {warnings : List String}

theorem of_leaves (h : Step.Leaves (Event.warnings ·.events) x) : Warns r x [] := by
  intro s _
  rw [List.append_nil]
  exact h s

/-- The warnings of what follows are given when the step has a result. -/
theorem bind {outcome : Except Error α} {f : α → Step β}
    {more : α → List String} (hx : Warns r x warnings)
    (hyields : Yields r x outcome) (hf : ∀ a, Warns r (f a) (more a)) :
    Warns r (x >>= f) (warnings ++ after outcome more) := by
  intro s hs
  have hwarnings := hx s hs
  obtain ⟨s', hrun, hs'⟩ := hyields s hs
  rw [hrun] at hwarnings
  cases outcome with
  | error e => rw [Step.run_bind_error hrun, after, List.append_nil, hwarnings]
  | ok a => rw [Step.run_bind_ok hrun, hf a s' (hs' a rfl), hwarnings, List.append_assoc, after]

/-- What follows leaves the warnings alone. -/
theorem bind_leaves {outcome : Except Error α} {f : α → Step β} (hx : Warns r x warnings)
    (hyields : Yields r x outcome) (hf : ∀ a, Step.Leaves (Event.warnings ·.events) (f a)) :
    Warns r (x >>= f) warnings := by
  have hbind := hx.bind hyields fun a => of_leaves (hf a)
  rwa [after_nil, List.append_nil] at hbind

/-- What follows a step that cannot fail and gives no warning. -/
theorem andThen {a : α} {f : α → Step β} (hx : Warns r x []) (hyields : Yields r x (.ok a))
    (hf : Warns r (f a) warnings) : Warns r (x >>= f) warnings := by
  intro s hs
  have hnone := hx s hs
  obtain ⟨s', hrun, hs'⟩ := hyields s hs
  rw [hrun, List.append_nil] at hnone
  rw [Step.run_bind_ok hrun, hf s' (hs' a rfl), hnone]

end Warns

section Steps
variable {r : Request}

/-- Noting an event that is no warning. -/
theorem overlooks_of_silent {event : Event} (h : event.warning? = none) :
    Step.Overlooks (Event.warnings ·.events) event := by
  intro s
  simp [Event.warnings, h]

theorem decodeProof_warns : Warns r (Step.decodeProof r.scheme r.credential.proof) [] :=
  .of_leaves (Step.decodeProof_leaves (overlooks_of_silent rfl))

theorem compareRoots_warns (tree : Claim.Lookup) :
    Warns r (r.compareRoots tree) (tree.rootWarnings r.payload) := by
  refine decodeProof_warns.andThen decodeProof_yields ?_
  cases r.payload with
  | error e => exact .of_leaves (.pure ())
  | ok p =>
    rw [Claim.Lookup.rootWarnings]
    dsimp only
    by_cases hroot : p.root = tree.root
    · rw [if_pos hroot, if_pos hroot]
      exact .of_leaves (.pure ())
    · rw [if_neg hroot, if_neg hroot]
      intro s _
      exact List.filterMap_append

theorem claimsTree_warns : Warns r r.claimsTree
    (after (r.circuit.treeDepth r.depth r.circuit.hasClaimSignals) fun depth =>
      depth.elim [] fun depth => after (r.accumulator.build r.claims depth) (·.rootWarnings r.payload)) := by
  refine (Warns.of_leaves (.ofExcept _)).bind (.ofExcept _) fun depth => ?_
  cases depth with
  | none => exact .of_leaves (.pure none)
  | some depth =>
    have hnote : Warns r (Step.note (.claimsAccumulated depth r.claims.length)) [] :=
      .of_leaves (.note (overlooks_of_silent rfl))
    refine hnote.andThen (note_yields _ nofun nofun) ?_
    refine (Warns.of_leaves (.ofExcept _)).bind (.ofExcept _) fun tree => ?_
    exact (compareRoots_warns tree).bind_leaves (compareRoots_yields tree) fun _ => .pure _

/-- A signal gives no warning. -/
theorem reserved_leaves_warnings (d : Declaration) :
    Step.Leaves (Event.warnings ·.events) (Resolution.reserved r d) :=
  reserved_leaves (fun _ => Step.timestamp_leaves (overlooks_of_silent rfl) (fun _ _ => rfl) _)
    (fun _ _ => Step.trusteeKeys_leaves (overlooks_of_silent rfl) (fun _ _ => rfl) _)
    (Step.payload_leaves (overlooks_of_silent rfl) fun _ _ => rfl)

/-- A build gives the warnings that are due. -/
theorem warnings_build (r : Request) : Event.warnings r.build.events = r.dueWarnings := by
  have hsteps : Warns r r.steps r.dueWarnings := by
    refine (Warns.of_leaves (.ofExcept _)).bind (.ofExcept _) fun _ => ?_
    refine (Warns.of_leaves (.ofExcept _)).bind (.ofExcept _) fun _ => ?_
    refine claimsTree_warns.bind_leaves claimsTree_yields fun tree => ?_
    have hprivate := fun d => privateSignal_leaves (reserved_leaves_warnings (r := r) d) tree
    have hpublic := fun d => publicSignal_leaves (reserved_leaves_warnings (r := r) d)
    refine (Step.Leaves.mapM hprivate _).bind fun _ => ?_
    refine (Step.Leaves.mapM hpublic _).bind fun _ => ?_
    exact (Step.Leaves.ofExcept _).bind fun _ => .pure _
  exact hsteps (.start r.materials) (coherent_start r)

end Steps

/-! ### What a warning tells -/

/-- The claim at a place reaches a root with what was emitted for it: the value, along the row
of that place, from the slot that the key holds there. -/
structure Folds (r : Request) (a : Assignment) (depth key root i : Nat) (d : Declaration) (value : Nat)
    (row : List Nat) : Prop where
  signal : r.claimSignals[i]? = some d
  emitted : (r.claimPairs a)[i]? = some (d, d.name, .scalar value)
  proof : a.claimsProof[i]? = some row
  reaches : Claim.reachedRoot (Claim.pathOf d.name) value row (Claim.slotAt depth key i) = .ok root

section Meaning
variable {r : Request} {a : Assignment} {depth key root root' i value value' : Nat} {d d' : Declaration}
  {row row' : List Nat}

theorem Included.folds (h : Included r a depth key root i d value row) :
    Folds r a depth key root i d value row :=
  ⟨h.signal, h.emitted, h.proof, h.reaches⟩

/-- What is emitted at a place reaches one root. -/
theorem Folds.root_eq (h : Folds r a depth key root i d value row)
    (h' : Folds r a depth key root' i d' value' row') : root = root' := by
  cases h.signal.symm.trans h'.signal
  cases h.emitted.symm.trans h'.emitted
  cases h.proof.symm.trans h'.proof
  exact Except.ok.inj (h.reaches.symm.trans h'.reaches)

theorem Request.BuildsTree.eq {tree tree' : Claim.Lookup} (h : r.BuildsTree tree) (h' : r.BuildsTree tree') :
    tree = tree' := by
  obtain ⟨depth, hdepth, hbuilt⟩ := h.built
  obtain ⟨depth', hdepth', hbuilt'⟩ := h'.built
  cases hdepth.symm.trans hdepth'
  exact Except.ok.inj (hbuilt.symm.trans hbuilt')

theorem mismatches_iff {tree : Claim.Lookup} (h : r.BuildsTree tree) {p : Payload} (hp : r.payload = .ok p) :
    r.Mismatches ↔ p.root ≠ tree.root := by
  constructor
  · rintro ⟨tree', p', htree', htype, hparse, hroot⟩
    cases h.eq htree'
    cases hp.symm.trans (Request.payload_eq_ok_iff_parse.mpr ⟨htype, hparse⟩)
    exact hroot
  · intro hroot
    obtain ⟨htype, hparse⟩ := Request.payload_eq_ok_iff_parse.mp hp
    exact ⟨tree, p, h, htype, hparse, hroot⟩

theorem warnings_eq_nil_iff : Event.warnings r.build.events = [] ↔ ¬r.Mismatches := by
  rw [warnings_build]
  refine ⟨fun hnil h => ?_, dueWarnings_of_not_mismatches⟩
  rw [dueWarnings_of_mismatches h] at hnil
  cases hnil

/-- A build that succeeds with claims built a tree, and its key is made of their ranks. -/
theorem exists_tree (hr : r.Standard) (ha : Plan.assignment r = .ok a) (hneeded : r.claimSignals ≠ []) :
    ∃ (parts : Plan.Parts r a) (depth : Nat) (t : Claim.SparseTree), r.depth? = some depth ∧
      Claim.SparseTree.build r.claims depth = .ok t ∧
        parts.tree = some t.lookup ∧ r.BuildsTree t.lookup ∧
      a.claimsKey = some (r.packedRanks depth) := by
  obtain ⟨parts⟩ := Plan.exists_parts ha
  obtain ⟨_, hvalid, ha⟩ := bind_eq_ok_iff.mp ha
  obtain ⟨_, htarget, _⟩ := bind_eq_ok_iff.mp ha
  obtain ⟨hnil, _⟩ | ⟨_, depth, t, hdepth, ht, htree⟩ :=
    Plan.claimsTree_cases_of_standard hr parts.claimsTree_eq
  · exact absurd hnil hneeded
  refine ⟨parts, depth, t, hdepth, ht, htree, ⟨hvalid, htarget, hneeded, depth, hdepth, ?_⟩,
    parts.claimsKey_eq ht htree hneeded⟩
  rw [Plan.build_of_sparse hr.accumulator, ht]
  rfl

/-- The root that is listed is the one that the issuer signed. -/
theorem root_of_mem (parts : Plan.Parts r a) {p : Payload} (hp : r.payload = .ok p) {v : SignalValue}
    (h : (Reserved.credentialRoot.name, v) ∈ a.signals) : v = .scalar p.root := by
  obtain ⟨d, _, hshaped, hmaterial⟩ := fromMaterial_of_mem parts h
  generalize helements : v.elements = ns at hmaterial
  cases hmaterial with
  | root hp' =>
    cases hp.symm.trans hp'
    exact SignalValue.eq_scalar_of_shaped hshaped helements

end Meaning

/-- **A build warns exactly where the roots differ**, and then once: a tree was built, and the
issuer's proof decodes to another root. So a build that succeeds with a proof that decodes
does not warn exactly when every disclosed claim reaches the root that the issuer signed,
which is also the root that the assignment lists, if it lists one. -/
theorem build_warns (r : Request) :
    (r.Mismatches → Event.warnings r.build.events = [rootWarning]) ∧
      (¬r.Mismatches → Event.warnings r.build.events = []) ∧
      ∀ a p, r.Standard → r.build.outcome = .ok a → r.claimSignals ≠ [] → r.payload = .ok p →
        ∃ depth key, r.depth? = some depth ∧ a.claimsKey = some key ∧
          (Event.warnings r.build.events = [] ↔
            ∀ i < r.claimSignals.length, ∃ d value row, Folds r a depth key p.root i d value row) ∧
          (r.circuit.Declares .credentialRoot →
            (∃ v, (Reserved.credentialRoot.name, v) ∈ a.signals) ∧
              ∀ v, (Reserved.credentialRoot.name, v) ∈ a.signals → v = .scalar p.root) := by
  refine ⟨fun h => ?_, warnings_eq_nil_iff.mpr, fun a p hr ha hneeded hp => ?_⟩
  · rw [warnings_build, dueWarnings_of_mismatches h]
  rw [build_outcome] at ha
  obtain ⟨parts, depth, t, hdepth, ht, htree, hbuilds, hkey⟩ := exists_tree hr ha hneeded
  have hincluded : ∀ i < r.claimSignals.length, ∃ d value row,
      Included r a depth (r.packedRanks depth) t.root.val i d value row := fun i hi =>
    ⟨_, included_of_parts ht parts htree (List.getElem?_eq_getElem hi)⟩
  refine ⟨depth, r.packedRanks depth, hdepth, hkey, ?_, fun hdeclared => ?_⟩
  · rw [warnings_eq_nil_iff, mismatches_iff hbuilds hp, not_not]
    constructor
    · intro hroot i hi
      obtain ⟨d, value, row, h⟩ := hincluded i hi
      exact ⟨d, value, row, hroot ▸ h.folds⟩
    · intro hfolds
      have hfirst := List.length_pos_of_ne_nil hneeded
      obtain ⟨_, _, _, h⟩ := hfolds 0 hfirst
      obtain ⟨_, _, _, hreached⟩ := hincluded 0 hfirst
      exact h.root_eq hreached.folds
  · exact ⟨exists_mem_of_declared parts nofun hdeclared, fun v => root_of_mem parts hp⟩

/-! ### Two issuers -/

/-- The issuer signed a root, with zeros for key and signature. -/
def signedRequest (root : Field.Element) : Request where
  credential :=
    { subject := plainSubject
      proof := ⟨BabyJubJub.proofType, Hex.encode (root.bytes ++ List.replicate 160 0)⟩ }
  circuit :=
    { name := "signed"
      privateSignals := [⟨"a", 1⟩]
      publicSignals := [⟨"credentialRoot", 1⟩] }
  depth := some 1

theorem signedRequest_standard (root : Field.Element) : (signedRequest root).Standard := ⟨rfl, rfl⟩

/-- The root of the tree of the one claim. -/
def plainRoot : Field.Element :=
  .reduce 1976985269159561704972854135594282330115338855622237108010206085472628509779

theorem signedRequest_tree (root : Field.Element) :
    ∃ t : Claim.SparseTree, (signedRequest root).BuildsTree t.lookup ∧ t.lookup.root = plainRoot.val := by
  have hclaims : (signedRequest root).claims = [("a", 5)] :=
    (by decide +kernel : Claim.flatten plainSubject = [("a", 5)])
  have hroot : (Claim.SparseTree.build [("a", 5)] 1).map (·.root) = .ok plainRoot := by decide +kernel
  cases ht : Claim.SparseTree.build [("a", 5)] 1 with
  | error e =>
    rw [ht] at hroot
    cases hroot
  | ok t =>
    rw [ht] at hroot
    have hroot : t.root = plainRoot :=
      Except.ok.inj (show (Except.ok t.root : Except Error Field.Element) = .ok plainRoot from hroot)
    refine ⟨t, ⟨rfl, rfl, ?_, 1, rfl, ?_⟩, by rw [← hroot]; rfl⟩
    · show [(⟨"a", 1⟩ : Declaration)] ≠ []
      decide
    · rw [Plan.build_of_sparse rfl, hclaims, ht]
      rfl

theorem payload_signedRequest {root : Field.Element} (h : root = plainRoot ∨ root = .reduce 0) :
    (signedRequest root).payload = .ok ⟨root.val, (0, 0), (0, 0, 0)⟩ := by
  unfold Request.payload SignatureScheme.payload
  show BabyJubJub.parse (String.ofList _) = _
  rw [BabyJubJub.parse, String.toList_ofList]
  rcases h with rfl | rfl <;> decide +kernel

theorem signedRequest_buildable : (signedRequest plainRoot).Buildable := by
  have hstandard := signedRequest_standard plainRoot
  obtain ⟨hprivates, hclaimed⟩ := (Request.privateFaults_eq_nil_iff hstandard).mp (by decide +kernel)
  have hdecodes := (Request.payload_eq_ok_iff hstandard).mp ⟨_, payload_signedRequest (.inl rfl)⟩
  have hpublic : ∀ d ∈ (signedRequest plainRoot).circuit.publicSignals,
      (signedRequest plainRoot).publicFaults d = [] := by
    intro d hd
    cases List.mem_singleton.mp hd
    have hname : (⟨"credentialRoot", 1⟩ : Declaration).name = Reserved.credentialRoot.name := rfl
    exact (Request.publicFaults_of_name hstandard hname).mpr (.inl ⟨hdecodes, rfl⟩)
  obtain ⟨hpublics, hruled⟩ := (Request.publicFaults_eq_nil_iff hstandard).mp hpublic
  exact {
    scalars := by decide
    target := nofun
    room := fun _ => ⟨1, rfl, by decide, by decide, by decide⟩
    privates := hprivates
    claimed := hclaimed
    publics := hpublics
    ruled := hruled
    key := fun depth hdepth => by cases hdepth; decide +kernel }

/-- The claim reaches the root that was signed for it, and a build with another one warns. -/
theorem signedRequest_warns :
    (∃ a key d value row, (signedRequest plainRoot).build.outcome = .ok a ∧ a.claimsKey = some key ∧
        Event.warnings (signedRequest plainRoot).build.events = [] ∧
        Folds (signedRequest plainRoot) a 1 key plainRoot.val 0 d value row ∧
        ∃ v, (Reserved.credentialRoot.name, v) ∈ a.signals ∧ v = .scalar plainRoot.val) ∧
      Event.warnings (signedRequest (.reduce 0)).build.events = [rootWarning] := by
  have hsigned := payload_signedRequest (.inl rfl)
  have hother := payload_signedRequest (.inr rfl)
  obtain ⟨t, htree, hroot⟩ := signedRequest_tree plainRoot
  obtain ⟨t', htree', hroot'⟩ := signedRequest_tree (.reduce 0)
  obtain ⟨a, ha⟩ := (firstOf_build (signedRequest_standard plainRoot)).ok_iff.mpr
    ((Request.faults_eq_nil_iff (signedRequest_standard plainRoot)).mpr signedRequest_buildable)
  constructor
  · obtain ⟨_, hsilent, hmeaning⟩ := build_warns (signedRequest plainRoot)
    have hnone := hsilent fun h => (mismatches_iff htree hsigned).mp h hroot.symm
    obtain ⟨depth, key, hdepth, hkey, hfolds, hlisted⟩ :=
      hmeaning a _ (signedRequest_standard plainRoot) ha htree.needed hsigned
    cases hdepth
    obtain ⟨d, value, row, h⟩ := hfolds.mp hnone 0 (List.length_pos_of_ne_nil htree.needed)
    obtain ⟨⟨v, hv⟩, hroots⟩ := hlisted (by decide)
    exact ⟨a, key, d, value, row, ha, hkey, hnone, h, v, hv, hroots v hv⟩
  · refine (build_warns (signedRequest (.reduce 0))).1 ((mismatches_iff htree' hother).mpr ?_)
    rw [hroot']
    decide +kernel

end Disclosure
