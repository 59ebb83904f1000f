import Disclosure.Build
import Disclosure.Proofs.Bytes.Number
import Disclosure.Proofs.Claim.Commitment
import Disclosure.Proofs.Claim.Flattening
import Disclosure.Proofs.Signal.Shape

/-! Plans of a build.

A plan looks every value up in the request alone: it remembers nothing, and material that
is loaded is what its source says when first consulted. What a build makes of a request is
what is planned; here is the plan, and what the parts of one that succeeds hold. -/
namespace Disclosure

/-! ### What a request settles on -/

/-- The supplied material, else what its source says when first consulted, else none. -/
def Materials.settled (kind : LoaderKind) (supplied : Option α) (source : Option (Source α)) :
    Except Error (Option α) :=
  match supplied, source with
  | some a, _ => .ok (some a)
  | none, none => .ok none
  | none, some source => ((source.answer 0).mapError (.loader kind)).map some

def Materials.settledTimestamp (m : Materials) : Except Error (Option UInt64) :=
  settled .timestamp m.timestamp m.timestampSource

def Materials.settledTrusteeKeys (m : Materials) : Except Error (Option (List TrusteeKey)) :=
  settled .trusteeKeys m.trusteeKeys m.trusteeKeySource

/-- The payload of the credential's proof. -/
def Request.payload (r : Request) : Except Error Payload :=
  r.scheme.payload r.credential.proof

theorem Request.payload_eq_ok_iff_parse {r : Request} {p : Payload} :
    r.payload = .ok p ↔ r.credential.proof.type = r.scheme.proofType ∧
      r.scheme.parse r.credential.proof.value = .ok p := by
  unfold payload SignatureScheme.payload
  by_cases htype : r.credential.proof.type = r.scheme.proofType
  · rw [if_pos htype]
    exact ⟨fun h => ⟨htype, h⟩, fun h => h.2⟩
  · rw [if_neg htype]
    exact ⟨nofun, fun h => absurd h.1 htype⟩

theorem Materials.settled_eq_none_iff (kind : LoaderKind)
    {supplied : Option α} {source : Option (Source α)} :
    settled kind supplied source = .ok none ↔ supplied = none ∧ source = none := by
  cases supplied with
  | some a => exact ⟨nofun, fun h => by cases h.1⟩
  | none =>
    cases source with
    | none => exact ⟨fun _ => ⟨rfl, rfl⟩, fun _ => rfl⟩
    | some source =>
      refine ⟨fun h => ?_, fun h => by cases h.2⟩
      unfold settled at h
      dsimp only at h
      cases hanswer : (source.answer 0).mapError (Error.loader kind) with
      | error e =>
        rw [hanswer] at h
        cases h
      | ok a =>
        rw [hanswer] at h
        cases h

namespace Plan

/-- The numbers of a reserved signal; none for a timestamp without material. -/
def reservedElements (r : Request) (d : Declaration) : Reserved → Except Error (Option (List Nat))
  | .holderPrivateKey =>
    match r.materials.holderKey with
    | none => .error (.missingMaterial d.name .holderKey)
    | some key => do
      let scalar ← r.scheme.keyScalar key
      .ok (some [scalar])
  | .trusteePublicKeys =>
    if d.arity % 2 ≠ 0 then .error (.invalidDeclaration d.text .oddTrusteeArity)
    else do
      let keys ← r.materials.settledTrusteeKeys
      let values ← Resolution.trusteeElements d keys
      .ok (some values)
  | .timestamp => do
    let t ← r.materials.settledTimestamp
    .ok (t.map fun t => [t.toNat])
  | .credentialRoot => do
    let p ← r.payload
    .ok (some [p.root])
  | .issuerPublicKey => do
    let p ← r.payload
    .ok (some p.issuerKeyElements)
  | .issuerSignature => do
    let p ← r.payload
    .ok (some p.signatureElements)

/-- The value of a reserved signal of a kind. -/
def reservedOf (r : Request) (d : Declaration) (kind : Reserved) : Except Error (Option SignalValue) := do
  match ← reservedElements r d kind with
  | none => .ok none
  | some values => do
    let value ← SignalValue.shaped d values
    .ok (some value)

/-- The value of a reserved signal; none for another signal. -/
def reserved (r : Request) (d : Declaration) : Except Error (Option SignalValue) :=
  match Reserved.ofName? d.name with
  | none => .ok none
  | some kind => reservedOf r d kind

def privateSignal (r : Request) (tree : Option Claim.Lookup) (d : Declaration) : Except Error Disclosed := do
  match ← reserved r d with
  | some value => .ok ⟨d.name, value, none⟩
  | none =>
    if d.isReserved then .error (.missingMaterial d.name .timestamp)
    else Resolution.disclose r.circuit tree d

def publicSignal (r : Request) (d : Declaration) : Except Error (Option (String × SignalValue)) :=
  if Resolution.isPositional d then .ok none
  else (if d.isReserved then reserved r d else Resolution.bound r.policy d) >>= fun value =>
    .ok (value.map fun v => (d.name, v))

/-- The claims tree, where some signal is backed by a claim. -/
def claimsTree (r : Request) : Except Error (Option Claim.Lookup) := do
  match ← r.circuit.treeDepth r.depth r.circuit.hasClaimSignals with
  | none => .ok none
  | some depth => do
    let tree ← r.accumulator.build (Claim.flatten r.credential.subject) depth
    .ok (some tree)

def assignment (r : Request) : Except Error Assignment := do
  r.circuit.validate
  r.checkPolicy
  let tree ← claimsTree r
  let disclosed ← r.circuit.privateSignals.mapM (privateSignal r tree)
  let publics ← r.circuit.publicSignals.mapM (publicSignal r)
  let inclusions := disclosed.filterMap (·.inclusion)
  let claimsKey ← Request.packKeys (inclusions.map (·.1))
  .ok
    { signals := disclosed.map (fun d => (d.name, d.value)) ++ publics.filterMap id
      claimsKey
      claimsProof := inclusions.map (·.2) }

end Plan

/-! ### What a request asks for -/

namespace Request

/-- The claims of the credential. -/
def claims (r : Request) : Claim.Claims :=
  Claim.flatten r.credential.subject

/-- The depth of the claims tree, where one is given. -/
def depth? (r : Request) : Option Nat :=
  r.depth.or r.circuit.declaredDepth?

/-- The private signals that are backed by claims. -/
def claimSignals (r : Request) : List Declaration :=
  r.circuit.privateSignals.filter fun d => !d.isReserved

/-- The ranks of the claims that are disclosed, in the order of their signals. -/
def ranks (r : Request) : List Nat :=
  r.claimSignals.map fun d => Claim.rank r.claims (Claim.pathOf d.name)

/-- The ranks as digits of one number, each as wide as the keys of the depth. -/
def packedRanks (r : Request) (depth : Nat) : Nat :=
  Nat.ofDigits (256 ^ Claim.keyWidth depth) r.ranks

/-- A request with the default accumulator and scheme. -/
structure Standard (r : Request) : Prop where
  accumulator : r.accumulator = .sparse
  scheme : r.scheme = .babyJubJub

theorem hasClaimSignals_eq (r : Request) : r.circuit.hasClaimSignals = !r.claimSignals.isEmpty := by
  unfold Circuit.hasClaimSignals claimSignals
  induction r.circuit.privateSignals with
  | nil => rfl
  | cons d rest ih => cases h : d.isReserved <;> simp [h, ih]

theorem hasClaimSignals_of_ne_nil {r : Request} (h : r.claimSignals ≠ []) :
    r.circuit.hasClaimSignals = true := by
  rw [hasClaimSignals_eq, List.isEmpty_eq_false_iff.mpr h]
  rfl

theorem treeDepth_eq_some_iff {r : Request} {depth : Nat} :
    r.circuit.treeDepth r.depth r.circuit.hasClaimSignals = .ok (some depth) ↔
      r.claimSignals ≠ [] ∧ r.depth? = some depth := by
  unfold Circuit.treeDepth
  by_cases hnil : r.claimSignals = []
  · rw [hasClaimSignals_eq, hnil]
    exact ⟨nofun, fun h => absurd rfl h.1⟩
  · rw [hasClaimSignals_of_ne_nil hnil, ← depth?]
    cases r.depth? with
    | none => exact ⟨nofun, fun h => by cases h.2⟩
    | some depth' => exact ⟨fun h => by cases h; exact ⟨hnil, rfl⟩, fun h => by cases h.2; rfl⟩

end Request

namespace Plan
variable {r : Request}

/-! ### The claims tree -/

theorem claimsTree_of_nil (h : r.claimSignals = []) : claimsTree r = .ok none := by
  unfold claimsTree Circuit.treeDepth
  rw [Request.hasClaimSignals_eq, h]
  rfl

theorem claimsTree_of_undetermined (h : r.claimSignals ≠ []) (hdepth : r.depth? = none) :
    claimsTree r = .error (.undeterminedDepth r.circuit.name) := by
  have hnone : r.depth.or r.circuit.declaredDepth? = none := hdepth
  unfold claimsTree Circuit.treeDepth
  rw [Request.hasClaimSignals_of_ne_nil h, hnone]
  rfl

theorem claimsTree_of_depth (h : r.claimSignals ≠ []) {depth : Nat} (hdepth : r.depth? = some depth) :
    claimsTree r = (r.accumulator.build r.claims depth).map some := by
  unfold claimsTree
  rw [Request.treeDepth_eq_some_iff.mpr ⟨h, hdepth⟩]
  show (r.accumulator.build r.claims depth >>= fun t => .ok (some t)) = _
  cases r.accumulator.build r.claims depth with
  | error e => rfl
  | ok t => rfl

/-- The tree of a request: none when no signal is backed by a claim, and else what the
accumulator makes of the credential's claims. -/
theorem claimsTree_cases {tree : Option Claim.Lookup} (h : claimsTree r = .ok tree) :
    (r.claimSignals = [] ∧ tree = none) ∨
      r.claimSignals ≠ [] ∧ ∃ depth t, r.depth? = some depth ∧
        r.accumulator.build r.claims depth = .ok t ∧ tree = some t := by
  by_cases hnil : r.claimSignals = []
  · rw [claimsTree_of_nil hnil] at h
    cases h
    exact .inl ⟨hnil, rfl⟩
  · cases hdepth : r.depth? with
    | none =>
      rw [claimsTree_of_undetermined hnil hdepth] at h
      cases h
    | some depth =>
      rw [claimsTree_of_depth hnil hdepth] at h
      cases ht : r.accumulator.build r.claims depth with
      | error e =>
        rw [ht] at h
        cases h
      | ok t =>
        rw [ht] at h
        cases h
        exact .inr ⟨hnil, depth, t, rfl, ht, rfl⟩

theorem build_of_sparse (hr : r.accumulator = .sparse) (depth : Nat) :
    r.accumulator.build r.claims depth =
      (Claim.SparseTree.build r.claims depth).map Claim.SparseTree.lookup := by
  rw [hr]
  rfl

theorem exists_sparseTree (hr : r.accumulator = .sparse) {depth : Nat} {t : Claim.Lookup}
    (h : r.accumulator.build r.claims depth = .ok t) :
    ∃ s, Claim.SparseTree.build r.claims depth = .ok s ∧ t = s.lookup :=
  Claim.sparse_eq_ok_iff.mp (hr ▸ h)

/-- The tree of a request with the default accumulator: none when no signal is backed by a
claim, and else the sparse tree of the credential's claims. -/
theorem claimsTree_cases_of_sparse (hr : r.accumulator = .sparse) {tree : Option Claim.Lookup}
    (h : claimsTree r = .ok tree) :
    (r.claimSignals = [] ∧ tree = none) ∨
      r.claimSignals ≠ [] ∧ ∃ depth t, r.depth? = some depth ∧
        Claim.SparseTree.build r.claims depth = .ok t ∧ tree = some t.lookup := by
  obtain hnone | ⟨hne, depth, t, hdepth, ht, rfl⟩ := claimsTree_cases h
  · exact .inl hnone
  · obtain ⟨s, hs, rfl⟩ := exists_sparseTree hr ht
    exact .inr ⟨hne, depth, s, hdepth, hs, rfl⟩

theorem claimsTree_cases_of_standard (hr : r.Standard) {tree : Option Claim.Lookup}
    (h : claimsTree r = .ok tree) :
    (r.claimSignals = [] ∧ tree = none) ∨
      r.claimSignals ≠ [] ∧ ∃ depth t, r.depth? = some depth ∧
        Claim.SparseTree.build r.claims depth = .ok t ∧ tree = some t.lookup :=
  claimsTree_cases_of_sparse hr.accumulator h

/-! ### Signals -/

theorem reserved_of_name {d : Declaration} {kind : Reserved} (h : d.name = kind.name) :
    reserved r d = reservedOf r d kind := by
  unfold reserved
  rw [Declaration.ofName?_of_name h]

theorem reserved_of_open {d : Declaration} (h : d.isReserved = false) : reserved r d = .ok none := by
  unfold reserved
  rw [Declaration.ofName?_of_open h]

/-- The numbers that the material of a reserved signal comes to. The holder's key is a scalar
of the scheme, which is the key reduced into the field when the scheme is the default one. -/
inductive FromMaterial (r : Request) (d : Declaration) : Reserved → List Nat → Prop
  | holderKey {key : Bytes} {scalar : Nat} (h : r.materials.holderKey = some key)
      (hscalar : r.scheme.keyScalar key = .ok scalar)
      (hreduced : r.scheme = .babyJubJub → scalar = Bytes.ofBigEndian key % Field.order) :
      FromMaterial r d .holderPrivateKey [scalar]
  | trusteeKeys {keys : List TrusteeKey} (h : r.materials.settledTrusteeKeys = .ok (some keys))
      (heven : d.arity % 2 = 0) (henough : d.arity / 2 ≤ keys.length) :
      FromMaterial r d .trusteePublicKeys ((keys.take (d.arity / 2)).flatMap fun key => [key.x, key.y])
  | timestamp {t : UInt64} (h : r.materials.settledTimestamp = .ok (some t)) :
      FromMaterial r d .timestamp [t.toNat]
  | root {p : Payload} (h : r.payload = .ok p) : FromMaterial r d .credentialRoot [p.root]
  | issuerKey {p : Payload} (h : r.payload = .ok p) :
      FromMaterial r d .issuerPublicKey [p.issuerKey.1, p.issuerKey.2]
  | signature {p : Payload} (h : r.payload = .ok p) :
      FromMaterial r d .issuerSignature [p.signature.1, p.signature.2.1, p.signature.2.2]

theorem length_trusteeNumbers {keys : List TrusteeKey} {arity : Nat} (heven : arity % 2 = 0)
    (henough : arity / 2 ≤ keys.length) :
    ((keys.take (arity / 2)).flatMap fun key => [key.x, key.y]).length = arity := by
  have htwo : ∀ ks : List TrusteeKey, (ks.flatMap fun key => [key.x, key.y]).length = 2 * ks.length := by
    intro ks
    induction ks with
    | nil => rfl
    | cons key rest ih =>
      rw [List.flatMap_cons, List.length_append, ih, List.length_cons]
      simp only [List.length_cons, List.length_nil]
      omega
  rw [htwo, List.length_take]
  omega

theorem reduced_of_keyScalar {key : Bytes} {scalar : Nat} (h : BabyJubJub.keyScalar key = .ok scalar) :
    scalar = Bytes.ofBigEndian key % Field.order := by
  unfold BabyJubJub.keyScalar at h
  split at h
  · cases h
  · cases h
    rfl

theorem supplied_of_trusteeElements {d : Declaration} {keys : Option (List TrusteeKey)} {values : List Nat}
    (h : Resolution.trusteeElements d keys = .ok values) :
    ∃ supplied, keys = some supplied ∧ d.arity / 2 ≤ supplied.length ∧
      values = (supplied.take (d.arity / 2)).flatMap fun key => [key.x, key.y] := by
  cases keys with
  | none => cases h
  | some supplied =>
    unfold Resolution.trusteeElements at h
    dsimp only at h
    by_cases hfew : supplied.length < d.arity / 2
    · rw [if_pos hfew] at h
      cases h
    · rw [if_neg hfew] at h
      cases h
      exact ⟨supplied, rfl, Nat.not_lt.mp hfew, rfl⟩

theorem fromMaterial_of_elements {d : Declaration} {kind : Reserved} {ns : List Nat}
    (h : reservedElements r d kind = .ok (some ns)) : FromMaterial r d kind ns := by
  cases kind with
  | holderPrivateKey =>
    unfold reservedElements at h
    cases hkey : r.materials.holderKey with
    | none =>
      rw [hkey] at h
      cases h
    | some key =>
      rw [hkey] at h
      obtain ⟨scalar, hscalar, h⟩ := Outcome.bind_eq_ok_iff.mp h
      cases h
      refine .holderKey hkey hscalar fun hscheme => reduced_of_keyScalar ?_
      rw [hscheme] at hscalar
      exact hscalar
  | trusteePublicKeys =>
    unfold reservedElements at h
    dsimp only at h
    by_cases heven : d.arity % 2 = 0
    · rw [if_neg (not_not_intro heven)] at h
      obtain ⟨keys, hkeys, h⟩ := Outcome.bind_eq_ok_iff.mp h
      obtain ⟨values, hvalues, h⟩ := Outcome.bind_eq_ok_iff.mp h
      cases h
      obtain ⟨supplied, rfl, henough, rfl⟩ := supplied_of_trusteeElements hvalues
      exact .trusteeKeys hkeys heven henough
    · rw [if_pos heven] at h
      cases h
  | timestamp =>
    obtain ⟨t, ht, h⟩ := Outcome.bind_eq_ok_iff.mp h
    cases t with
    | none => cases h
    | some t =>
      cases h
      exact .timestamp ht
  | credentialRoot =>
    obtain ⟨p, hp, h⟩ := Outcome.bind_eq_ok_iff.mp h
    cases h
    exact .root hp
  | issuerPublicKey =>
    obtain ⟨p, hp, h⟩ := Outcome.bind_eq_ok_iff.mp h
    cases h
    exact .issuerKey hp
  | issuerSignature =>
    obtain ⟨p, hp, h⟩ := Outcome.bind_eq_ok_iff.mp h
    cases h
    exact .signature hp

/-- **A reserved signal takes its own material**, in the declared shape. -/
theorem fromMaterial_of_reservedOf {d : Declaration} {kind : Reserved} {v : SignalValue}
    (h : reservedOf r d kind = .ok (some v)) : FromMaterial r d kind v.elements ∧ v.Shaped d := by
  obtain ⟨values, hvalues, h⟩ := Outcome.bind_eq_ok_iff.mp h
  cases values with
  | none => cases h
  | some ns =>
    obtain ⟨v', hv, h⟩ := Outcome.bind_eq_ok_iff.mp h
    cases h
    obtain ⟨hshape, helements⟩ := SignalValue.shaped_eq_ok_iff.mp hv
    exact ⟨helements ▸ fromMaterial_of_elements hvalues, hshape⟩

/-- How a private signal comes to its value: from its own material, or from the claim at
its path. -/
inductive Discloses (r : Request) (tree : Option Claim.Lookup) (d : Declaration) : Disclosed → Prop
  | material {kind : Reserved} {v : SignalValue} (hname : d.name = kind.name)
      (hv : reservedOf r d kind = .ok (some v)) : Discloses r tree d ⟨d.name, v, none⟩
  | claim {t : Claim.Lookup} (hopen : d.isReserved = false) (harity : d.arity = 1) (htree : tree = some t)
      (hfound : (t.get (Claim.pathOf d.name)).found = true) :
      Discloses r tree d ⟨d.name, .scalar (t.get (Claim.pathOf d.name)).value,
        some ((t.get (Claim.pathOf d.name)).key, (t.get (Claim.pathOf d.name)).siblings)⟩

theorem discloses_of_privateSignal {tree : Option Claim.Lookup} {d : Declaration} {x : Disclosed}
    (h : privateSignal r tree d = .ok x) : Discloses r tree d x := by
  obtain ⟨value, hvalue, h⟩ := Outcome.bind_eq_ok_iff.mp h
  rcases d.reserved_or_open with ⟨kind, hname⟩ | hopen
  · rw [reserved_of_name hname] at hvalue
    cases value with
    | some v =>
      cases h
      exact .material hname hvalue
    | none =>
      dsimp only at h
      rw [if_pos (Declaration.isReserved_of_name hname)] at h
      cases h
  · rw [reserved_of_open hopen] at hvalue
    cases hvalue
    dsimp only at h
    rw [if_neg (Bool.eq_false_iff.mp hopen)] at h
    cases tree with
    | none => cases h
    | some t =>
      unfold Resolution.disclose at h
      dsimp only at h
      by_cases hfound : (t.get (Claim.pathOf d.name)).found = true
      · rw [hfound] at h
        obtain ⟨v, hv, h⟩ := Outcome.bind_eq_ok_iff.mp h
        obtain ⟨hshape, helements⟩ := SignalValue.shaped_eq_ok_iff.mp hv
        have harity : d.arity = 1 := by rw [← hshape.count, helements, List.length_singleton]
        rw [SignalValue.shaped_scalar harity] at hv
        cases hv
        cases h
        exact .claim hopen harity rfl hfound
      · rw [Bool.eq_false_iff.mpr hfound] at h
        cases h

/-- What the claims of disclosed signals bring along: keys and siblings of the claim
signals, in the order of their declarations. -/
theorem inclusions_eq {t : Claim.Lookup} {ds : List Declaration} {xs : List Disclosed}
    (h : List.Forall₂ (Discloses r (some t)) ds xs) :
    xs.filterMap (·.inclusion) = (ds.filter fun d => !d.isReserved).map fun d =>
      ((t.get (Claim.pathOf d.name)).key, (t.get (Claim.pathOf d.name)).siblings) := by
  induction h with
  | nil => rfl
  | cons hx _ ih =>
    cases hx with
    | material hname _ =>
      have hreserved := Declaration.isReserved_of_name hname
      rw [List.filterMap_cons_none rfl, List.filter_cons_of_neg (by rw [hreserved]; decide), ih]
    | claim hopen _ htree _ =>
      cases htree
      rw [List.filterMap_cons, List.filter_cons_of_pos (by rw [hopen]; decide), List.map_cons, ← ih]

/-- Without a tree nothing is disclosed from claims. -/
theorem inclusions_of_none {ds : List Declaration} {xs : List Disclosed}
    (h : List.Forall₂ (Discloses r none) ds xs) : xs.filterMap (·.inclusion) = [] := by
  induction h with
  | nil => rfl
  | cons hx _ ih =>
    cases hx with
    | material => rw [List.filterMap_cons_none rfl, ih]
    | claim _ _ htree _ => cases htree

section Tree
variable {depth : Nat} {t : Claim.SparseTree}

/-- Every claim signal that is disclosed from a tree has a claim. -/
theorem claim_of_discloses (ht : Claim.SparseTree.build r.claims depth = .ok t) {ds : List Declaration}
    {xs : List Disclosed} (h : List.Forall₂ (Discloses r (some t.lookup)) ds xs) {d : Declaration}
    (hd : d ∈ ds.filter fun d => !d.isReserved) : ∃ value, (Claim.pathOf d.name, value) ∈ r.claims := by
  obtain ⟨hmem, hopen⟩ := List.mem_filter.mp hd
  obtain ⟨i, hi, rfl⟩ := List.getElem_of_mem hmem
  obtain ⟨x, hx⟩ : ∃ x, Discloses r (some t.lookup) ds[i] x := ⟨_, h.get hi (h.length_eq ▸ hi)⟩
  cases hx with
  | material hname _ =>
    rw [Declaration.isReserved_of_name hname] at hopen
    cases hopen
  | claim _ _ htree hfound =>
    cases htree
    exact Claim.SparseTree.mem_of_found ht hfound

theorem keys_eq (ht : Claim.SparseTree.build r.claims depth = .ok t) {xs : List Disclosed}
    (h : List.Forall₂ (Discloses r (some t.lookup)) r.circuit.privateSignals xs) :
    (xs.filterMap (·.inclusion)).map (·.1) =
      r.ranks.map (Bytes.toLittleEndian (Claim.keyWidth depth)) := by
  rw [inclusions_eq h, List.map_map, Request.ranks, List.map_map]
  apply List.map_congr_left
  intro d hd
  obtain ⟨value, hc⟩ := claim_of_discloses ht h hd
  show (t.entry (Claim.pathOf d.name)).key = _
  rw [Claim.SparseTree.entry_of_build ht hc]
  rfl

theorem rank_lt_of_discloses (ht : Claim.SparseTree.build r.claims depth = .ok t) {xs : List Disclosed}
    (h : List.Forall₂ (Discloses r (some t.lookup)) r.circuit.privateSignals xs) :
    ∀ n ∈ r.ranks, n < 256 ^ Claim.keyWidth depth := by
  intro n hn
  obtain ⟨d, hd, rfl⟩ := List.mem_map.mp hn
  obtain ⟨value, hc⟩ := claim_of_discloses ht h hd
  exact Claim.SparseTree.rank_lt_pow_keyWidth ht hc

/-- The key of an assignment is made of the ranks. -/
theorem packKeys_eq (ht : Claim.SparseTree.build r.claims depth = .ok t) {xs : List Disclosed}
    (h : List.Forall₂ (Discloses r (some t.lookup)) r.circuit.privateSignals xs) :
    Request.packKeys ((xs.filterMap (·.inclusion)).map (·.1)) =
      if r.ranks = [] then .ok none
      else Field.check (r.packedRanks depth) >>= fun _ => .ok (some (r.packedRanks depth)) := by
  unfold Request.packKeys Request.packedRanks
  rw [keys_eq ht h, Bytes.ofLittleEndian_flatMap (rank_lt_of_discloses ht h)]
  by_cases hnil : r.ranks = []
  · rw [if_pos hnil, if_pos (List.map_eq_nil_iff.mpr hnil)]
  · rw [if_neg hnil, if_neg fun hmap => hnil (List.map_eq_nil_iff.mp hmap)]

end Tree

/-- Only a timestamp can be left without a value. -/
theorem settled_of_reservedOf_none {d : Declaration} {kind : Reserved} (h : reservedOf r d kind = .ok none) :
    kind = .timestamp ∧ r.materials.settledTimestamp = .ok none := by
  obtain ⟨values, hvalues, h⟩ := Outcome.bind_eq_ok_iff.mp h
  cases values with
  | some ns =>
    obtain ⟨v, _, h⟩ := Outcome.bind_eq_ok_iff.mp h
    cases h
  | none =>
    cases kind with
    | holderPrivateKey =>
      unfold reservedElements at hvalues
      cases hkey : r.materials.holderKey with
      | none =>
        rw [hkey] at hvalues
        cases hvalues
      | some key =>
        rw [hkey] at hvalues
        exact absurd hvalues (Outcome.bind_some_ne_none _ _)
    | trusteePublicKeys =>
      unfold reservedElements at hvalues
      dsimp only at hvalues
      split at hvalues
      · cases hvalues
      · obtain ⟨_, _, hvalues⟩ := Outcome.bind_eq_ok_iff.mp hvalues
        exact absurd hvalues (Outcome.bind_some_ne_none _ _)
    | timestamp =>
      obtain ⟨t, ht, hvalues⟩ := Outcome.bind_eq_ok_iff.mp hvalues
      cases t with
      | none => exact ⟨rfl, ht⟩
      | some t => cases hvalues
    | credentialRoot => exact absurd hvalues (Outcome.bind_some_ne_none _ _)
    | issuerPublicKey => exact absurd hvalues (Outcome.bind_some_ne_none _ _)
    | issuerSignature => exact absurd hvalues (Outcome.bind_some_ne_none _ _)

/-- How a public signal comes to its value, or to none. -/
inductive Publishes (r : Request) (d : Declaration) : Option (String × SignalValue) → Prop
  | positional (h : Resolution.isPositional d = true) : Publishes r d none
  | undated (h : Resolution.isPositional d = false) (hname : d.name = Reserved.timestamp.name)
      (hnone : r.materials.settledTimestamp = .ok none) : Publishes r d none
  | material {kind : Reserved} {v : SignalValue} (h : Resolution.isPositional d = false)
      (hname : d.name = kind.name) (hv : reservedOf r d kind = .ok (some v)) :
      Publishes r d (some (d.name, v))
  | bound {value : Option SignalValue} (h : Resolution.isPositional d = false) (hopen : d.isReserved = false)
      (hvalue : Resolution.bound r.policy d = .ok value) :
      Publishes r d (value.map fun v => (d.name, v))

theorem publishes_of_publicSignal {d : Declaration} {x : Option (String × SignalValue)}
    (h : publicSignal r d = .ok x) : Publishes r d x := by
  unfold publicSignal at h
  cases hpositional : Resolution.isPositional d with
  | true =>
    rw [hpositional] at h
    cases h
    exact .positional hpositional
  | false =>
    rw [hpositional, if_neg Bool.false_ne_true] at h
    obtain ⟨value, hvalue, h⟩ := Outcome.bind_eq_ok_iff.mp h
    cases h
    rcases d.reserved_or_open with ⟨kind, hname⟩ | hopen
    · rw [if_pos (Declaration.isReserved_of_name hname), reserved_of_name hname] at hvalue
      cases value with
      | some v => exact .material hpositional hname hvalue
      | none =>
        obtain ⟨rfl, hnone⟩ := settled_of_reservedOf_none hvalue
        exact .undated hpositional hname hnone
    · rw [if_neg (Bool.eq_false_iff.mp hopen)] at hvalue
      exact .bound hpositional hopen hvalue

/-! ### Assignments -/

/-- The parts of a plan that succeeds. -/
structure Parts (r : Request) (a : Assignment) where
  tree : Option Claim.Lookup
  disclosed : List Disclosed
  publics : List (Option (String × SignalValue))
  claimsTree_eq : claimsTree r = .ok tree
  discloses : List.Forall₂ (Discloses r tree) r.circuit.privateSignals disclosed
  publishes : List.Forall₂ (Publishes r) r.circuit.publicSignals publics
  signals : a.signals = disclosed.map (fun x => (x.name, x.value)) ++ publics.filterMap id
  claimsKey : Request.packKeys ((disclosed.filterMap (·.inclusion)).map (·.1)) = .ok a.claimsKey
  claimsProof : a.claimsProof = (disclosed.filterMap (·.inclusion)).map (·.2)

theorem exists_parts {a : Assignment} (h : assignment r = .ok a) : Nonempty (Parts r a) := by
  obtain ⟨_, _, h⟩ := Outcome.bind_eq_ok_iff.mp h
  obtain ⟨_, _, h⟩ := Outcome.bind_eq_ok_iff.mp h
  obtain ⟨tree, htree, h⟩ := Outcome.bind_eq_ok_iff.mp h
  obtain ⟨disclosed, hdisclosed, h⟩ := Outcome.bind_eq_ok_iff.mp h
  obtain ⟨publics, hpublics, h⟩ := Outcome.bind_eq_ok_iff.mp h
  obtain ⟨key, hkey, h⟩ := Outcome.bind_eq_ok_iff.mp h
  cases h
  exact ⟨{
    tree, disclosed, publics
    claimsTree_eq := htree
    discloses := (Outcome.mapM_eq_ok_iff.mp hdisclosed).imp fun _ _ => discloses_of_privateSignal
    publishes := (Outcome.mapM_eq_ok_iff.mp hpublics).imp fun _ _ => publishes_of_publicSignal
    signals := rfl
    claimsKey := hkey
    claimsProof := rfl }⟩

/-- The key of an assignment with claims is made of their ranks. -/
theorem Parts.claimsKey_eq {a : Assignment} (parts : Parts r a) {depth : Nat} {t : Claim.SparseTree}
    (ht : Claim.SparseTree.build r.claims depth = .ok t) (htree : parts.tree = some t.lookup)
    (hneeded : r.claimSignals ≠ []) : a.claimsKey = some (r.packedRanks depth) := by
  have hranks : r.ranks ≠ [] := fun hnil => hneeded (List.map_eq_nil_iff.mp hnil)
  have hkey := parts.claimsKey
  rw [packKeys_eq ht (htree ▸ parts.discloses), if_neg hranks] at hkey
  obtain ⟨_, _, hkey⟩ := Outcome.bind_eq_ok_iff.mp hkey
  exact (Except.ok.inj hkey).symm

end Plan
end Disclosure
