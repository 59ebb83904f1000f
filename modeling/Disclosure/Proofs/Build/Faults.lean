import Disclosure.Proofs.Build.Session
import Disclosure.Proofs.Policy.Table

/-! What can be wrong with a request.

`Request.faults` lists everything that is wrong with a request, check by check in the order
of a build and without running one. A build finds the first fault of the list, and succeeds
when there is none (`firstOf_build`). The claims of a credential have no fault of their
own: flattening repeats no path and stays in the field. -/
namespace Disclosure
open Outcome

/-! ### Checks in the order of a build -/

/-- Arrays among the signals that claims back. -/
def Circuit.faults (c : Circuit) : List Error :=
  (c.privateSignals.filter fun d => !d.isScalar && !d.isReserved).map fun d =>
    .invalidDeclaration d.text .arrayClaim

namespace Request

def policyFaults (r : Request) : List Error :=
  match r.policy with
  | none => []
  | some p => if p.circuit = r.circuit.name then [] else [.circuitMismatch r.circuit.name p.circuit]

/-- A tree is only asked for where some signal is backed by a claim. -/
def treeFaults (r : Request) : List Error :=
  if r.claimSignals = [] then []
  else match r.depth? with
    | none => [.undeterminedDepth r.circuit.name]
    | some depth =>
      if depth = 0 ∨ Claim.maxDepth < depth then [.claimsTree (.depth depth Claim.maxDepth)]
      else if 2 ^ depth < r.claims.length then [.claimsTree (.capacity r.claims.length depth)]
      else []

/-- What is wrong with the material of a reserved signal. -/
def materialFaults (r : Request) (d : Declaration) : Reserved → List Error
  | .holderPrivateKey =>
    match r.materials.holderKey with
    | none => [.missingMaterial d.name .holderKey]
    | some key => if key = [] then [.invalidElement .emptyKey] else []
  | .trusteePublicKeys =>
    if d.arity % 2 ≠ 0 then [.invalidDeclaration d.text .oddTrusteeArity]
    else match r.materials.settledTrusteeKeys with
      | .error e => [e]
      | .ok none => [.missingMaterial d.name .trusteeKeys]
      | .ok (some keys) =>
        if keys.length < d.arity / 2 then
          [.missingMaterial d.name (.someTrusteeKeys keys.length (d.arity / 2))]
        else []
  | .timestamp => faultsOf r.materials.settledTimestamp
  | .credentialRoot | .issuerPublicKey | .issuerSignature => faultsOf r.payload

/-- What is wrong with the arity of a reserved signal whose material is there. -/
def arityFaults (r : Request) (d : Declaration) : Reserved → List Error
  | .holderPrivateKey | .credentialRoot => SignalValue.shapeFaults d 1
  | .trusteePublicKeys => []
  | .timestamp =>
    match r.materials.settledTimestamp with
    | .ok none => []
    | _ => SignalValue.shapeFaults d 1
  | .issuerPublicKey => SignalValue.shapeFaults d 2
  | .issuerSignature => SignalValue.shapeFaults d 3

def reservedFaults (r : Request) (d : Declaration) (kind : Reserved) : List Error :=
  r.materialFaults d kind ++ r.arityFaults d kind

/-- A private signal has to have a value. -/
def absenceFaults (r : Request) (d : Declaration) : Reserved → List Error
  | .timestamp =>
    match r.materials.settledTimestamp with
    | .ok none => [.missingMaterial d.name .timestamp]
    | _ => []
  | _ => []

def privateFaults (r : Request) (d : Declaration) : List Error :=
  match Reserved.ofName? d.name with
  | some kind => r.reservedFaults d kind ++ r.absenceFaults d kind
  | none =>
    if Claim.pathOf d.name ∈ r.claims.map (·.1) then []
    else [.missingClaim d.name (Claim.pathOf d.name)]

def publicFaults (r : Request) (d : Declaration) : List Error :=
  if Resolution.isPositional d then []
  else match Reserved.ofName? d.name, r.policy with
    | some kind, _ => r.reservedFaults d kind
    | none, some p => Policy.faults p.rules d
    | none, none => []

def keyFaults (r : Request) : List Error :=
  match r.depth? with
  | none => []
  | some depth => Field.faults (r.packedRanks depth)

/-- Everything that is wrong with a request, in the order in which a build would find it. -/
def faults (r : Request) : List Error :=
  r.circuit.faults ++ (r.policyFaults ++ (r.treeFaults ++ (r.circuit.privateSignals.flatMap r.privateFaults ++
    (r.circuit.publicSignals.flatMap r.publicFaults ++ r.keyFaults))))

end Request

/-! ### A build finds the first fault -/

namespace Request
variable {r : Request}

theorem mem_claimSignals {d : Declaration} :
    d ∈ r.claimSignals ↔ d ∈ r.circuit.privateSignals ∧ d.isReserved = false := by
  rw [claimSignals, List.mem_filter, Bool.not_eq_true']

theorem circuitFaults_eq_nil_iff : r.circuit.faults = [] ↔ ∀ d ∈ r.claimSignals, d.arity = 1 := by
  rw [Circuit.faults, List.map_eq_nil_iff, List.filter_eq_nil_iff]
  constructor
  · intro h d hd
    obtain ⟨hmem, hopen⟩ := mem_claimSignals.mp hd
    have hd := h d hmem
    rw [hopen, Declaration.isScalar] at hd
    simpa using hd
  · intro h d hmem hbad
    rw [Bool.and_eq_true, Bool.not_eq_true', Bool.not_eq_true'] at hbad
    have harity := h d (mem_claimSignals.mpr ⟨hmem, hbad.2⟩)
    rw [Declaration.isScalar, harity] at hbad
    exact absurd hbad.1 (by decide)

end Request

theorem Circuit.firstOf_validate (c : Circuit) : FirstOf c.faults c.validate := by
  unfold Circuit.faults Circuit.validate
  rw [← List.head?_filter]
  cases c.privateSignals.filter fun d => !d.isScalar && !d.isReserved with
  | nil => exact .ok ()
  | cons d rest => exact .error _ _

section Standard
variable {r : Request}

theorem firstOf_checkPolicy (r : Request) : FirstOf r.policyFaults r.checkPolicy := by
  unfold Request.policyFaults Request.checkPolicy
  cases r.policy with
  | none => exact .ok ()
  | some p => exact .ite (fun _ => .ok ()) fun _ => .error _ _

/-- The claims of a credential repeat no path and are in the field, so that only their
number can be too large for a tree. -/
theorem firstOf_claimsTree (hr : r.Standard) : FirstOf r.treeFaults (Plan.claimsTree r) := by
  unfold Request.treeFaults
  by_cases hnil : r.claimSignals = []
  · rw [if_pos hnil, Plan.claimsTree_of_nil hnil]
    exact .ok none
  · rw [if_neg hnil]
    cases hdepth : r.depth? with
    | none =>
      rw [Plan.claimsTree_of_undetermined hnil hdepth]
      exact .error _ _
    | some depth =>
      rw [Plan.claimsTree_of_depth hnil hdepth, Plan.build_of_sparse hr.accumulator, Request.claims,
        Claim.SparseTree.build_of_distinct (Claim.flatten_nodup r.credential.subject)
          (Claim.flatten_lt r.credential.subject)]
      refine FirstOf.map (FirstOf.map ?_ Claim.SparseTree.lookup) some
      exact .ite (fun _ => .error _ _) fun _ => .ite (fun _ => .error _ _) fun _ => .ok _

theorem firstOf_reservedElements (hr : r.Standard) (d : Declaration) (kind : Reserved) :
    FirstOf (r.materialFaults d kind) (Plan.reservedElements r d kind) := by
  cases kind with
  | holderPrivateKey =>
    unfold Request.materialFaults Plan.reservedElements
    cases r.materials.holderKey with
    | none => exact .error _ _
    | some key =>
      rw [hr.scheme]
      refine FirstOf.map ?_ fun scalar => some [scalar]
      exact .ite (fun _ => .error _ _) fun _ => .ok _
  | trusteePublicKeys =>
    unfold Request.materialFaults Plan.reservedElements
    refine .ite (fun _ => .error _ _) fun _ => ?_
    cases r.materials.settledTrusteeKeys with
    | error e => exact .error _ _
    | ok keys =>
      cases keys with
      | none => exact .error _ _
      | some keys =>
        refine FirstOf.map ?_ some
        exact .ite (fun _ => .error _ _) fun _ => .ok _
  | timestamp => exact (FirstOf.refl r.materials.settledTimestamp).map _
  | credentialRoot => exact (FirstOf.refl r.payload).map _
  | issuerPublicKey => exact (FirstOf.refl r.payload).map _
  | issuerSignature => exact (FirstOf.refl r.payload).map _

/-- Material that is there has a length of its own, whatever the arity. -/
theorem firstOf_shaped_of_elements {d : Declaration} {kind : Reserved} {ns : List Nat}
    (h : Plan.reservedElements r d kind = .ok (some ns)) :
    FirstOf (r.arityFaults d kind) (SignalValue.shaped d ns) := by
  have hshape := SignalValue.firstOf_shaped d ns
  cases Plan.fromMaterial_of_elements h with
  | holderKey => exact hshape
  | trusteeKeys _ heven henough =>
    rw [SignalValue.shapeFaults, if_pos (Plan.length_trusteeNumbers heven henough)] at hshape
    exact hshape
  | timestamp ht =>
    unfold Request.arityFaults
    rw [ht]
    exact hshape
  | root => exact hshape
  | issuerKey => exact hshape
  | signature => exact hshape

theorem firstOf_reservedOf (hr : r.Standard) (d : Declaration) (kind : Reserved) :
    FirstOf (r.reservedFaults d kind) (Plan.reservedOf r d kind) := by
  refine (firstOf_reservedElements hr d kind).bind fun values hvalues => ?_
  cases values with
  | some ns => exact (firstOf_shaped_of_elements hvalues).map some
  | none =>
    have hnone : Plan.reservedOf r d kind = .ok none := by
      unfold Plan.reservedOf
      rw [hvalues]
      rfl
    obtain ⟨rfl, hsettled⟩ := Plan.settled_of_reservedOf_none hnone
    unfold Request.arityFaults
    rw [hsettled]
    exact .ok none

/-! ### Private signals -/

theorem arity_of_validate (h : r.circuit.validate = .ok ()) {d : Declaration} (hd : d ∈ r.claimSignals) :
    d.arity = 1 :=
  Request.circuitFaults_eq_nil_iff.mp (r.circuit.firstOf_validate.ok_iff.mp ⟨(), h⟩) d hd

/-- A claim signal only lacks its claim: there is a tree, and its arity is one. -/
theorem firstOf_disclose (hr : r.Standard) {tree : Option Claim.Lookup} (htree : Plan.claimsTree r = .ok tree)
    (hvalid : r.circuit.validate = .ok ()) {d : Declaration} (hd : d ∈ r.claimSignals) :
    FirstOf (if Claim.pathOf d.name ∈ r.claims.map (·.1) then []
        else [.missingClaim d.name (Claim.pathOf d.name)])
      (Resolution.disclose r.circuit tree d) := by
  obtain ⟨hnil, _⟩ | ⟨_, depth, t, _, ht, rfl⟩ := Plan.claimsTree_cases_of_standard hr htree
  · rw [hnil] at hd
    cases hd
  · by_cases hpath : Claim.pathOf d.name ∈ r.claims.map (·.1)
    · obtain ⟨c, hc, hname⟩ := List.mem_map.mp hpath
      have hentry : t.lookup.get (Claim.pathOf d.name) = _ := hname ▸ Claim.SparseTree.entry_of_build ht hc
      unfold Resolution.disclose
      dsimp only
      rw [if_pos hpath, hentry]
      dsimp only
      rw [SignalValue.shaped_scalar (arity_of_validate hvalid hd)]
      exact .ok _
    · have hentry : t.lookup.get (Claim.pathOf d.name) = .absent :=
        Claim.SparseTree.entry_of_not_mem ht fun c hc heq => hpath (List.mem_map.mpr ⟨c, hc, heq⟩)
      unfold Resolution.disclose
      dsimp only
      rw [if_neg hpath, hentry]
      exact .error _ _

theorem firstOf_privateSignal (hr : r.Standard) {tree : Option Claim.Lookup}
    (htree : Plan.claimsTree r = .ok tree) (hvalid : r.circuit.validate = .ok ()) {d : Declaration}
    (hd : d ∈ r.circuit.privateSignals) : FirstOf (r.privateFaults d) (Plan.privateSignal r tree d) := by
  unfold Request.privateFaults Plan.privateSignal
  rcases d.reserved_or_open with ⟨kind, hname⟩ | hopen
  · rw [Declaration.ofName?_of_name hname, Plan.reserved_of_name hname]
    refine (firstOf_reservedOf hr d kind).bind fun value hvalue => ?_
    cases value with
    | none =>
      obtain ⟨rfl, hsettled⟩ := Plan.settled_of_reservedOf_none hvalue
      unfold Request.absenceFaults
      rw [hsettled]
      dsimp only
      rw [if_pos (Declaration.isReserved_of_name hname)]
      exact .error _ _
    | some v =>
      obtain ⟨hmaterial, _⟩ := Plan.fromMaterial_of_reservedOf hvalue
      generalize v.elements = ns at hmaterial
      cases hmaterial with
      | timestamp ht =>
        unfold Request.absenceFaults
        rw [ht]
        exact .ok _
      | _ => exact .ok _
  · rw [Declaration.ofName?_of_open hopen, Plan.reserved_of_open hopen]
    show FirstOf _ (if d.isReserved = true then _ else _)
    rw [if_neg (Bool.eq_false_iff.mp hopen)]
    exact firstOf_disclose hr htree hvalid (Request.mem_claimSignals.mpr ⟨hd, hopen⟩)

/-! ### Public signals -/

theorem firstOf_bound (policy : Option Policy) (d : Declaration) :
    FirstOf (match policy with
        | some p => Policy.faults p.rules d
        | none => [])
      (Resolution.bound policy d) := by
  cases policy with
  | none => exact .ok none
  | some p => exact Policy.firstOf_inject p.rules d

theorem firstOf_publicSignal (hr : r.Standard) (d : Declaration) :
    FirstOf (r.publicFaults d) (Plan.publicSignal r d) := by
  unfold Request.publicFaults Plan.publicSignal
  refine .ite (fun _ => .ok none) fun _ => ?_
  rcases d.reserved_or_open with ⟨kind, hname⟩ | hopen
  · rw [Declaration.ofName?_of_name hname, if_pos (Declaration.isReserved_of_name hname),
      Plan.reserved_of_name hname]
    exact (firstOf_reservedOf hr d kind).map _
  · rw [Declaration.ofName?_of_open hopen, if_neg (Bool.eq_false_iff.mp hopen)]
    refine FirstOf.map ?_ _
    have hbound := firstOf_bound r.policy d
    cases hpolicy : r.policy with
    | none =>
      rw [hpolicy] at hbound
      exact hbound
    | some p =>
      rw [hpolicy] at hbound
      exact hbound

/-! ### The key -/

theorem firstOf_packKeys (hr : r.accumulator = .sparse) {tree : Option Claim.Lookup}
    (htree : Plan.claimsTree r = .ok tree) {xs : List Disclosed}
    (hxs : List.Forall₂ (Plan.Discloses r tree) r.circuit.privateSignals xs) :
    FirstOf r.keyFaults (Request.packKeys ((xs.filterMap (·.inclusion)).map (·.1))) := by
  have hzero : ∀ depth, r.ranks = [] → Field.faults (r.packedRanks depth) = [] := by
    intro depth hnil
    apply Field.faults_eq_nil_iff.mpr
    rw [Request.packedRanks, hnil]
    exact Field.order_pos
  unfold Request.keyFaults
  obtain ⟨hnil, rfl⟩ | ⟨_, depth, t, hdepth, ht, rfl⟩ := Plan.claimsTree_cases_of_sparse hr htree
  · have hranks : r.ranks = [] := by rw [Request.ranks, hnil, List.map_nil]
    rw [Plan.inclusions_of_none hxs]
    cases r.depth? with
    | none => exact .ok none
    | some depth =>
      dsimp only
      rw [hzero depth hranks]
      exact .ok none
  · rw [hdepth, Plan.packKeys_eq ht hxs]
    dsimp only
    by_cases hranks : r.ranks = []
    · rw [if_pos hranks, hzero depth hranks]
      exact .ok none
    · rw [if_neg hranks]
      exact (Field.firstOf_check _).map _

/-! ### The whole build -/

/-- **A build finds the first fault**, and succeeds without one. -/
theorem firstOf_build (hr : r.Standard) : FirstOf r.faults r.build.outcome := by
  rw [build_outcome]
  refine r.circuit.firstOf_validate.bind fun _ hvalid => ?_
  refine (firstOf_checkPolicy r).bind fun _ _ => ?_
  refine (firstOf_claimsTree hr).bind fun tree htree => ?_
  refine FirstOf.bind (.mapM fun d hd => firstOf_privateSignal hr htree hvalid hd) fun xs hxs => ?_
  refine FirstOf.bind (.mapM fun d _ => firstOf_publicSignal hr d) fun publics _ => ?_
  refine (firstOf_packKeys hr.accumulator htree ?_).map _
  exact (mapM_eq_ok_iff.mp hxs).imp fun _ _ => Plan.discloses_of_privateSignal

end Standard

end Disclosure
