import Disclosure.Proofs.Build.Faults

/-! When a build succeeds, and how it fails.

A request is `Buildable` when each of its signals has what it needs: material of the right
arity for a reserved one, a claim for another private one, fitting rules or none for
another public one, and a tree and a packed key for the claims together. These are the
requests that nothing is wrong with, so the builds that succeed; the others fail with the
first fault. -/
namespace Disclosure
open Outcome

namespace Request

/-- The credential's proof is of the default scheme's type and can be decoded. -/
def Decodes (r : Request) : Prop :=
  r.credential.proof.type = BabyJubJub.proofType ∧ ∃ p, BabyJubJub.parse r.credential.proof.value = .ok p

/-- The material that a reserved signal needs is there, and the arity goes with it. -/
def Supplies (r : Request) (d : Declaration) : Reserved → Prop
  | .holderPrivateKey => (∃ key, r.materials.holderKey = some key ∧ key ≠ []) ∧ d.arity = 1
  | .trusteePublicKeys =>
    d.arity % 2 = 0 ∧
      ∃ keys, r.materials.settledTrusteeKeys = .ok (some keys) ∧ d.arity / 2 ≤ keys.length
  | .timestamp => (∃ t, r.materials.settledTimestamp = .ok (some t)) ∧ d.arity = 1
  | .credentialRoot => r.Decodes ∧ d.arity = 1
  | .issuerPublicKey => r.Decodes ∧ d.arity = 2
  | .issuerSignature => r.Decodes ∧ d.arity = 3

/-- There is neither a timestamp nor a source of one. -/
def Undated (r : Request) : Prop :=
  r.materials.timestamp = none ∧ r.materials.timestampSource = none

/-- What a request has to be like for its build to succeed. -/
structure Buildable (r : Request) : Prop where
  scalars : ∀ d ∈ r.claimSignals, d.arity = 1
  target : ∀ p, r.policy = some p → p.circuit = r.circuit.name
  /-- There is room for the claims where some signal is backed by one. -/
  room : r.claimSignals ≠ [] →
    ∃ depth, r.depth? = some depth ∧ 1 ≤ depth ∧ depth ≤ 64 ∧ r.claims.length ≤ 2 ^ depth
  privates : ∀ d ∈ r.circuit.privateSignals, ∀ kind : Reserved, d.name = kind.name → r.Supplies d kind
  claimed : ∀ d ∈ r.claimSignals, ∃ value, (Claim.pathOf d.name, value) ∈ r.claims
  /-- A public timestamp may be left out. -/
  publics : ∀ d ∈ r.circuit.publicSignals, ∀ kind : Reserved, d.name = kind.name →
    r.Supplies d kind ∨ kind = .timestamp ∧ r.Undated
  ruled : ∀ d ∈ r.circuit.publicSignals, d.isReserved = false → d.name ≠ claimsKeyName →
    d.name ≠ claimsProofName → ∀ p, r.policy = some p → Policy.Fits p.rules d
  key : ∀ depth, r.depth? = some depth → r.packedRanks depth < Field.order

variable {r : Request}

theorem policyFaults_eq_nil_iff :
    r.policyFaults = [] ↔ ∀ p, r.policy = some p → p.circuit = r.circuit.name := by
  unfold policyFaults
  cases r.policy with
  | none => exact ⟨nofun, fun _ => rfl⟩
  | some p =>
    dsimp only
    by_cases h : p.circuit = r.circuit.name
    · rw [if_pos h]
      exact ⟨fun _ q hq => by cases hq; exact h, fun _ => rfl⟩
    · rw [if_neg h]
      exact ⟨nofun, fun hall => absurd (hall p rfl) h⟩

theorem treeFaults_eq_nil_iff :
    r.treeFaults = [] ↔ (r.claimSignals ≠ [] →
      ∃ depth, r.depth? = some depth ∧ 1 ≤ depth ∧
        depth ≤ 64 ∧ r.claims.length ≤ 2 ^ depth) := by
  unfold treeFaults
  by_cases hnil : r.claimSignals = []
  · rw [if_pos hnil]
    exact ⟨fun _ h => absurd hnil h, fun _ => rfl⟩
  · rw [if_neg hnil]
    cases r.depth? with
    | none => exact ⟨nofun, fun h => by obtain ⟨_, hd, _⟩ := h hnil; cases hd⟩
    | some depth =>
      dsimp only
      by_cases hrange : depth = 0 ∨ Claim.maxDepth < depth
      · rw [if_pos hrange]
        refine ⟨nofun, fun h => ?_⟩
        obtain ⟨_, hd, hpos, hle, _⟩ := h hnil
        cases hd
        unfold Claim.maxDepth at hrange
        omega
      · have hpos : 1 ≤ depth ∧ depth ≤ 64 := by
          unfold Claim.maxDepth at hrange
          omega
        rw [if_neg hrange]
        by_cases hfits : 2 ^ depth < r.claims.length
        · rw [if_pos hfits]
          refine ⟨nofun, fun h => ?_⟩
          obtain ⟨_, hd, _, _, hle⟩ := h hnil
          cases hd
          exact absurd hfits (Nat.not_lt.mpr hle)
        · rw [if_neg hfits]
          exact ⟨fun _ _ => ⟨depth, rfl, hpos.1, hpos.2, Nat.not_lt.mp hfits⟩, fun _ => rfl⟩

theorem payload_eq_ok_iff (hr : r.Standard) : (∃ p, r.payload = .ok p) ↔ r.Decodes := by
  simp only [payload_eq_ok_iff_parse, hr.scheme, exists_and_left]
  rfl

theorem payloadFaults_eq_nil_iff (hr : r.Standard) {d : Declaration} {count : Nat} :
    faultsOf r.payload ++ SignalValue.shapeFaults d count = [] ↔ r.Decodes ∧ d.arity = count := by
  rw [List.append_eq_nil_iff, faultsOf_eq_nil_iff, payload_eq_ok_iff hr, SignalValue.shapeFaults_eq_nil_iff]

theorem holderKeyFaults_eq_nil_iff {d : Declaration} :
    r.reservedFaults d .holderPrivateKey = [] ↔ r.Supplies d .holderPrivateKey := by
  unfold reservedFaults
  rw [List.append_eq_nil_iff]
  unfold materialFaults arityFaults Supplies
  refine and_congr ?_ SignalValue.shapeFaults_eq_nil_iff
  cases r.materials.holderKey with
  | none => exact ⟨nofun, fun ⟨_, h, _⟩ => by cases h⟩
  | some key =>
    dsimp only
    by_cases h : key = []
    · rw [if_pos h]
      exact ⟨nofun, fun ⟨_, hkey, hne⟩ => by cases hkey; exact absurd h hne⟩
    · rw [if_neg h]
      exact ⟨fun _ => ⟨key, rfl, h⟩, fun _ => rfl⟩

theorem trusteeKeyFaults_eq_nil_iff {d : Declaration} :
    r.reservedFaults d .trusteePublicKeys = [] ↔ r.Supplies d .trusteePublicKeys := by
  unfold reservedFaults
  rw [List.append_eq_nil_iff]
  unfold materialFaults arityFaults Supplies
  dsimp only
  rw [and_iff_left rfl]
  by_cases heven : d.arity % 2 = 0
  · rw [if_neg (not_not_intro heven), and_iff_right heven]
    cases r.materials.settledTrusteeKeys with
    | error e => exact ⟨nofun, fun ⟨_, h, _⟩ => by cases h⟩
    | ok keys =>
      cases keys with
      | none => exact ⟨nofun, fun ⟨_, h, _⟩ => by cases h⟩
      | some keys =>
        dsimp only
        by_cases h : keys.length < d.arity / 2
        · rw [if_pos h]
          exact ⟨nofun, fun ⟨_, hkeys, hle⟩ => by cases hkeys; exact absurd h (Nat.not_lt.mpr hle)⟩
        · rw [if_neg h]
          exact ⟨fun _ => ⟨keys, rfl, Nat.not_lt.mp h⟩, fun _ => rfl⟩
  · rw [if_pos heven]
    exact ⟨nofun, fun h => absurd h.1 heven⟩

theorem undated_iff : r.Undated ↔ r.materials.settledTimestamp = .ok none :=
  (Materials.settled_eq_none_iff .timestamp).symm

/-- A timestamp that is neither there nor to be had is no fault by itself. -/
theorem timestampFaults_eq_nil_iff {d : Declaration} :
    r.reservedFaults d .timestamp = [] ↔ r.Supplies d .timestamp ∨ r.Undated := by
  unfold reservedFaults materialFaults arityFaults Supplies
  rw [undated_iff]
  dsimp only
  cases r.materials.settledTimestamp with
  | error e => exact ⟨nofun, fun h => by obtain ⟨⟨_, h⟩, _⟩ | h := h <;> cases h⟩
  | ok t =>
    cases t with
    | none => exact ⟨fun _ => .inr rfl, fun _ => rfl⟩
    | some t =>
      show SignalValue.shapeFaults d 1 = [] ↔ _
      rw [SignalValue.shapeFaults_eq_nil_iff]
      exact ⟨fun h => .inl ⟨⟨t, rfl⟩, h⟩, fun h => h.elim (·.2) nofun⟩

theorem reservedFaults_eq_nil_iff (hr : r.Standard) {d : Declaration} {kind : Reserved} :
    r.reservedFaults d kind = [] ↔ r.Supplies d kind ∨ kind = .timestamp ∧ r.Undated := by
  have hother : kind ≠ .timestamp →
      (r.Supplies d kind ∨ kind = .timestamp ∧ r.Undated ↔ r.Supplies d kind) := fun h =>
    ⟨fun hor => hor.elim id fun hand => absurd hand.1 h, .inl⟩
  cases kind with
  | timestamp =>
    rw [and_iff_right rfl]
    exact timestampFaults_eq_nil_iff
  | holderPrivateKey =>
    rw [hother nofun]
    exact holderKeyFaults_eq_nil_iff
  | trusteePublicKeys =>
    rw [hother nofun]
    exact trusteeKeyFaults_eq_nil_iff
  | credentialRoot =>
    rw [hother nofun]
    exact payloadFaults_eq_nil_iff hr
  | issuerPublicKey =>
    rw [hother nofun]
    exact payloadFaults_eq_nil_iff hr
  | issuerSignature =>
    rw [hother nofun]
    exact payloadFaults_eq_nil_iff hr

/-- A private timestamp has to be there. -/
theorem absenceFaults_eq_nil_iff {d : Declaration} {kind : Reserved} :
    r.absenceFaults d kind = [] ↔ ¬(kind = .timestamp ∧ r.Undated) := by
  by_cases hkind : kind = .timestamp
  · subst hkind
    rw [and_iff_right rfl, undated_iff]
    unfold absenceFaults
    cases r.materials.settledTimestamp with
    | error e => exact ⟨fun _ => nofun, fun _ => rfl⟩
    | ok t =>
      cases t with
      | none => exact ⟨nofun, fun h => absurd rfl h⟩
      | some t => exact ⟨fun _ => nofun, fun _ => rfl⟩
  · have hnil : r.absenceFaults d kind = [] := by
      cases kind with
      | timestamp => exact absurd rfl hkind
      | _ => rfl
    exact ⟨fun _ h => hkind h.1, fun _ => hnil⟩

theorem privateFaults_of_name (hr : r.Standard) {d : Declaration} {kind : Reserved} (h : d.name = kind.name) :
    r.privateFaults d = [] ↔ r.Supplies d kind := by
  unfold privateFaults
  rw [Declaration.ofName?_of_name h]
  dsimp only
  rw [List.append_eq_nil_iff, reservedFaults_eq_nil_iff hr, absenceFaults_eq_nil_iff]
  constructor
  · intro ⟨hor, hnot⟩
    exact hor.elim id fun hand => absurd hand hnot
  · intro hsupplies
    refine ⟨.inl hsupplies, ?_⟩
    rintro ⟨rfl, hnone⟩
    obtain ⟨⟨t, ht⟩, _⟩ := hsupplies
    rw [undated_iff.mp hnone] at ht
    cases ht

theorem privateFaults_of_open {d : Declaration} (h : d.isReserved = false) :
    r.privateFaults d = [] ↔ ∃ value, (Claim.pathOf d.name, value) ∈ r.claims := by
  unfold privateFaults
  rw [Declaration.ofName?_of_open h]
  dsimp only
  by_cases hpath : Claim.pathOf d.name ∈ r.claims.map (·.1)
  · rw [if_pos hpath]
    obtain ⟨c, hc, hname⟩ := List.mem_map.mp hpath
    exact ⟨fun _ => ⟨c.2, hname ▸ hc⟩, fun _ => rfl⟩
  · rw [if_neg hpath]
    exact ⟨nofun, fun ⟨value, hc⟩ => absurd (List.mem_map.mpr ⟨_, hc, rfl⟩) hpath⟩

theorem isPositional_iff {d : Declaration} :
    Resolution.isPositional d = true ↔ d.name = claimsKeyName ∨ d.name = claimsProofName := by
  rw [Resolution.isPositional, Bool.or_eq_true, beq_iff_eq, beq_iff_eq]

/-- The positional names are not reserved ones. -/
theorem not_isPositional_of_name {d : Declaration} {kind : Reserved} (h : d.name = kind.name) :
    Resolution.isPositional d = false := by
  apply Bool.eq_false_iff.mpr
  intro hpositional
  obtain hname | hname := isPositional_iff.mp hpositional
  · rw [h] at hname
    cases kind <;> exact absurd hname (by decide)
  · rw [h] at hname
    cases kind <;> exact absurd hname (by decide)

theorem publicFaults_of_name (hr : r.Standard) {d : Declaration} {kind : Reserved} (h : d.name = kind.name) :
    r.publicFaults d = [] ↔ r.Supplies d kind ∨ kind = .timestamp ∧ r.Undated := by
  unfold publicFaults
  rw [not_isPositional_of_name h, if_neg Bool.false_ne_true, Declaration.ofName?_of_name h]
  exact reservedFaults_eq_nil_iff hr

theorem publicFaults_of_open {d : Declaration} (h : d.isReserved = false) :
    r.publicFaults d = [] ↔ (d.name ≠ claimsKeyName → d.name ≠ claimsProofName →
      ∀ p, r.policy = some p → Policy.Fits p.rules d) := by
  unfold publicFaults
  by_cases hpositional : Resolution.isPositional d = true
  · rw [if_pos hpositional]
    refine ⟨fun _ hkey hproof => ?_, fun _ => rfl⟩
    exact ((isPositional_iff.mp hpositional).elim hkey hproof).elim
  · have hnames : d.name ≠ claimsKeyName ∧ d.name ≠ claimsProofName :=
      not_or.mp fun hor => hpositional (isPositional_iff.mpr hor)
    rw [if_neg hpositional, Declaration.ofName?_of_open h]
    cases r.policy with
    | none => exact ⟨fun _ _ _ => nofun, fun _ => rfl⟩
    | some p =>
      dsimp only
      rw [Policy.faults_eq_nil_iff]
      exact ⟨fun hfits _ _ q hq => by cases hq; exact hfits, fun hall => hall hnames.1 hnames.2 p rfl⟩

theorem keyFaults_eq_nil_iff :
    r.keyFaults = [] ↔ ∀ depth, r.depth? = some depth → r.packedRanks depth < Field.order := by
  unfold keyFaults
  cases r.depth? with
  | none => exact ⟨nofun, fun _ => rfl⟩
  | some depth =>
    dsimp only
    rw [Field.faults_eq_nil_iff]
    exact ⟨fun h _ hd => by cases hd; exact h, fun h => h depth rfl⟩

/-- The private signals are in order when the reserved ones are supplied and the others
have claims. -/
theorem privateFaults_eq_nil_iff (hr : r.Standard) :
    (∀ d ∈ r.circuit.privateSignals, r.privateFaults d = []) ↔
      (∀ d ∈ r.circuit.privateSignals, ∀ kind : Reserved, d.name = kind.name → r.Supplies d kind) ∧
        ∀ d ∈ r.claimSignals, ∃ value, (Claim.pathOf d.name, value) ∈ r.claims := by
  constructor
  · intro h
    refine ⟨fun d hd kind hname => (privateFaults_of_name hr hname).mp (h d hd), fun d hd => ?_⟩
    obtain ⟨hmem, hopen⟩ := mem_claimSignals.mp hd
    exact (privateFaults_of_open hopen).mp (h d hmem)
  · intro ⟨hsupplies, hclaimed⟩ d hd
    rcases d.reserved_or_open with ⟨kind, hname⟩ | hopen
    · exact (privateFaults_of_name hr hname).mpr (hsupplies d hd kind hname)
    · exact (privateFaults_of_open hopen).mpr (hclaimed d (mem_claimSignals.mpr ⟨hd, hopen⟩))

theorem publicFaults_eq_nil_iff (hr : r.Standard) :
    (∀ d ∈ r.circuit.publicSignals, r.publicFaults d = []) ↔
      (∀ d ∈ r.circuit.publicSignals, ∀ kind : Reserved, d.name = kind.name →
        r.Supplies d kind ∨ kind = .timestamp ∧ r.Undated) ∧
      ∀ d ∈ r.circuit.publicSignals, d.isReserved = false → d.name ≠ claimsKeyName →
        d.name ≠ claimsProofName → ∀ p, r.policy = some p → Policy.Fits p.rules d := by
  constructor
  · intro h
    exact ⟨fun d hd kind hname => (publicFaults_of_name hr hname).mp (h d hd),
      fun d hd hopen => (publicFaults_of_open hopen).mp (h d hd)⟩
  · intro ⟨hsupplies, hruled⟩ d hd
    rcases d.reserved_or_open with ⟨kind, hname⟩ | hopen
    · exact (publicFaults_of_name hr hname).mpr (hsupplies d hd kind hname)
    · exact (publicFaults_of_open hopen).mpr (hruled d hd hopen)

/-- Nothing is wrong with a request exactly when it can be built. -/
theorem faults_eq_nil_iff (hr : r.Standard) : r.faults = [] ↔ r.Buildable := by
  unfold faults
  rw [List.append_eq_nil_iff, List.append_eq_nil_iff, List.append_eq_nil_iff, List.append_eq_nil_iff,
    List.append_eq_nil_iff, List.flatMap_eq_nil_iff, List.flatMap_eq_nil_iff, circuitFaults_eq_nil_iff,
    policyFaults_eq_nil_iff, treeFaults_eq_nil_iff, privateFaults_eq_nil_iff hr, publicFaults_eq_nil_iff hr,
    keyFaults_eq_nil_iff]
  constructor
  · intro ⟨hscalars, htarget, hroom, ⟨hprivates, hclaimed⟩, ⟨hpublics, hruled⟩, hkey⟩
    exact ⟨hscalars, htarget, hroom, hprivates, hclaimed, hpublics, hruled, hkey⟩
  · intro h
    exact ⟨h.scalars, h.target, h.room, ⟨h.privates, h.claimed⟩, ⟨h.publics, h.ruled⟩, h.key⟩

end Request

/-- **When a build succeeds, and how it fails.** It succeeds for the requests that are
buildable, and otherwise fails with the first fault in the order of its checks. -/
theorem build_succeeds_iff {r : Request} (hr : r.Standard) :
    ((∃ a, r.build.outcome = .ok a) ↔ r.Buildable) ∧
      ∀ e, r.build.outcome = .error e ↔ r.faults.head? = some e :=
  ⟨(firstOf_build hr).ok_iff.trans (Request.faults_eq_nil_iff hr), (firstOf_build hr).error_iff⟩

/-! ### A request that can be built -/

def ageSubject : Json.Object where
  members :=
    [("address", .object [("city", .number (.natural 620)), ("zip", .string "90210")]),
     ("birthDate", .number (.natural 19890101)), ("name", .string "7")]
  ordered := by
    unfold Json.OrderedObject Keyed.Ordered
    refine ⟨by decide, ⟨?_, trivial, trivial, trivial⟩, trivial, trivial, trivial⟩
    unfold Keyed.Ordered
    decide

/-- Two claims are asked for out of path order, at a depth of two key bytes. Of the public
signals one is bound by rules out of index order, and two are left out. -/
def ageRequest : Request where
  credential := { subject := ageSubject, proof := ⟨"", ""⟩ }
  circuit :=
    { name := "age"
      privateSignals := [⟨"birthDate", 1⟩, ⟨"holderPrivateKey", 1⟩, ⟨"address_city", 1⟩]
      publicSignals :=
        [⟨"claimsKey", 1⟩, ⟨"claimsProof", 9⟩, ⟨"limits", 2⟩, ⟨"currentDate", 1⟩,
         ⟨"trusteePublicKeys", 2⟩, ⟨"context", 3⟩] }
  policy := some
    { service := "shop"
      circuit := "age"
      rules := [⟨1, "", "limits", [18]⟩, ⟨0, "", "limits", [1, 0]⟩] }
  materials := { holderKey := some [7], trusteeKeys := some [⟨1, 2⟩, ⟨3, 4⟩] }

theorem ageRequest_standard : ageRequest.Standard := ⟨rfl, rfl⟩

theorem ageRequest_publics : ∀ d ∈ ageRequest.circuit.publicSignals, ageRequest.publicFaults d = [] := by
  have hlimits : ageRequest.publicFaults ⟨"limits", 2⟩ = [] := by
    refine (Request.publicFaults_of_open rfl).mpr fun _ _ p hp => ?_
    cases hp
    exact fun _ => ⟨by decide, by decide⟩
  have hcontext : ageRequest.publicFaults ⟨"context", 3⟩ = [] := by
    refine (Request.publicFaults_of_open rfl).mpr fun _ _ p hp => ?_
    cases hp
    unfold Policy.Fits Policy.Binds
    decide
  intro d hd
  simp only [ageRequest, List.mem_cons, List.not_mem_nil, or_false] at hd
  rcases hd with rfl | rfl | rfl | rfl | rfl | rfl
  · rfl
  · rfl
  · exact hlimits
  · rfl
  · rfl
  · exact hcontext

theorem ageRequest_buildable : ageRequest.Buildable := by
  obtain ⟨hprivates, hclaimed⟩ :=
    (Request.privateFaults_eq_nil_iff ageRequest_standard).mp (by decide +kernel)
  obtain ⟨hpublics, hruled⟩ := (Request.publicFaults_eq_nil_iff ageRequest_standard).mp ageRequest_publics
  exact {
    scalars := by decide
    target := fun p hp => by cases hp; rfl
    room := fun _ => ⟨9, rfl, by decide, by decide, by decide⟩
    privates := hprivates
    claimed := hclaimed
    publics := hpublics
    ruled := hruled
    key := fun depth hdepth => by cases hdepth; decide +kernel }

theorem ageRequest_builds : ∃ a, ageRequest.build.outcome = .ok a :=
  (firstOf_build ageRequest_standard).ok_iff.mpr
    ((Request.faults_eq_nil_iff ageRequest_standard).mpr ageRequest_buildable)

/-- The request is built, and without the holder's key it fails for the lack of it. -/
theorem build_succeeds_with_key :
    (∃ a, ageRequest.build.outcome = .ok a) ∧
      { ageRequest with materials := {} }.build.outcome =
        .error (.missingMaterial "holderPrivateKey" .holderKey) :=
  ⟨(build_succeeds_iff ageRequest_standard).1.mpr ageRequest_buildable,
    ((build_succeeds_iff ⟨rfl, rfl⟩).2 _).mpr (by decide +kernel)⟩

end Disclosure
