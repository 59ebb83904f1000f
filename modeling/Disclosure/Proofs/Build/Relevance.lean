import Disclosure.Proofs.Build.Buildable

/-! What a build depends on.

A build looks at the material of the reserved signals that are declared, at the claims where
some signal is backed by one, and at the rules for the public signals that rules can bind.
Requests that agree on these, and on the accumulator and the scheme where they are used, come
to one outcome (`build_congr`). What is not asked for may be anything, a proof that cannot be
decoded among it: the plan has no place where it would be looked at. -/
namespace Disclosure

/-- The kinds of material that the issuer signed, or signed with. -/
def Reserved.isSigned : Reserved → Bool
  | .credentialRoot | .issuerPublicKey | .issuerSignature => true
  | .holderPrivateKey | .trusteePublicKeys | .timestamp => false

/-- The names of public signals that rules can bind. -/
def Circuit.binds (c : Circuit) (key : String) : Bool :=
  c.publicSignals.any fun d => d.name == key && !d.isReserved && !Resolution.isPositional d

/-- The rules for such names, in table order. -/
def Request.boundRules (r : Request) : List Rule :=
  (r.policy.elim [] Policy.rules).filter fun rule => r.circuit.binds rule.key

/-- Requests for one circuit that agree on what it asks for. -/
structure Request.AgreeOnAsked (r r' : Request) : Prop where
  circuit : r.circuit = r'.circuit
  holderKey : r.circuit.Declares .holderPrivateKey → r.materials.holderKey = r'.materials.holderKey
  timestamp : r.circuit.Declares .timestamp →
    r.materials.timestamp = r'.materials.timestamp ∧
      r.materials.timestampSource = r'.materials.timestampSource
  trusteeKeys : r.circuit.Declares .trusteePublicKeys →
    r.materials.trusteeKeys = r'.materials.trusteeKeys ∧
      r.materials.trusteeKeySource = r'.materials.trusteeKeySource
  proof : ∀ kind : Reserved, kind.isSigned = true → r.circuit.Declares kind →
    r.credential.proof = r'.credential.proof
  claims : r.claimSignals ≠ [] → r.credential.subject = r'.credential.subject ∧ r.depth? = r'.depth?
  target : r.policy.map (·.circuit) = r'.policy.map (·.circuit)
  rules : r.boundRules = r'.boundRules

/-- The scheme reads the holder's key and the issuer's proof. -/
def Circuit.UsesScheme (c : Circuit) : Prop :=
  c.Declares .holderPrivateKey ∨ ∃ kind : Reserved, kind.isSigned = true ∧ c.Declares kind

section Congruence
variable {r r' : Request} (h : r.AgreeOnAsked r')
include h

theorem policy_cases : (r.policy = none ∧ r'.policy = none) ∨
    ∃ p p', r.policy = some p ∧ r'.policy = some p' ∧ p.circuit = p'.circuit := by
  have htarget := h.target
  cases hp : r.policy with
  | none =>
    rw [hp, eq_comm, Option.map_none, Option.map_eq_none_iff] at htarget
    exact .inl ⟨rfl, htarget⟩
  | some p =>
    rw [hp, eq_comm, Option.map_some, Option.map_eq_some_iff] at htarget
    obtain ⟨p', hp', hcircuit⟩ := htarget
    exact .inr ⟨p, p', rfl, hp', hcircuit.symm⟩

theorem checkPolicy_congr : r.checkPolicy = r'.checkPolicy := by
  unfold Request.checkPolicy
  rw [← h.circuit]
  obtain ⟨hp, hp'⟩ | ⟨p, p', hp, hp', hcircuit⟩ := policy_cases h
  · rw [hp, hp']
  · rw [hp, hp']
    dsimp only
    rw [hcircuit]

/-- The rules of a policy matter for the signals that they can bind only. -/
theorem bound_congr {d : Declaration} (hd : d ∈ r.circuit.publicSignals) (hopen : d.isReserved = false)
    (hpositional : Resolution.isPositional d = false) :
    Resolution.bound r.policy d = Resolution.bound r'.policy d := by
  have hbinds : r.circuit.binds d.name = true := by
    refine List.any_eq_true.mpr ⟨d, hd, ?_⟩
    rw [hopen, hpositional, beq_self_eq_true]
    rfl
  obtain ⟨hp, hp'⟩ | ⟨p, p', hp, hp', _⟩ := policy_cases h
  · rw [hp, hp']
  · have hrules := h.rules
    rw [Request.boundRules, Request.boundRules, ← h.circuit, hp, hp'] at hrules
    have hrules : Policy.rulesFor p.rules d.name = Policy.rulesFor p'.rules d.name := by
      rw [← Policy.rulesFor_filter p.rules hbinds, ← Policy.rulesFor_filter p'.rules hbinds]
      exact congrArg (Policy.rulesFor · d.name) hrules
    rw [hp, hp']
    exact Policy.inject_congr hrules

theorem claimsTree_congr (haccumulator : r.claimSignals ≠ [] → r.accumulator = r'.accumulator) :
    Plan.claimsTree r = Plan.claimsTree r' := by
  have hsignals : r.claimSignals = r'.claimSignals := by
    rw [Request.claimSignals, h.circuit, Request.claimSignals]
  by_cases hnil : r.claimSignals = []
  · rw [Plan.claimsTree_of_nil hnil, Plan.claimsTree_of_nil (hsignals ▸ hnil)]
  · obtain ⟨hsubject, hdepth⟩ := h.claims hnil
    have hnil' : r'.claimSignals ≠ [] := hsignals ▸ hnil
    cases hd : r.depth? with
    | none =>
      rw [Plan.claimsTree_of_undetermined hnil hd, Plan.claimsTree_of_undetermined hnil' (hdepth ▸ hd),
        h.circuit]
    | some depth =>
      rw [Plan.claimsTree_of_depth hnil hd, Plan.claimsTree_of_depth hnil' (hdepth ▸ hd),
        haccumulator hnil, Request.claims, hsubject, Request.claims]

section Scheme
variable (hscheme : r.circuit.UsesScheme → r.scheme = r'.scheme)
include hscheme

theorem payload_congr {kind : Reserved}
    (hsigned : kind.isSigned = true) (hdeclared : r.circuit.Declares kind) :
    r.payload = r'.payload := by
  rw [Request.payload, Request.payload, h.proof kind hsigned hdeclared,
    hscheme (.inr ⟨kind, hsigned, hdeclared⟩)]

/-- A reserved signal looks at its own material, which is agreed on where it is declared. -/
theorem reservedElements_congr (d : Declaration) {kind : Reserved} (hdeclared : r.circuit.Declares kind) :
    Plan.reservedElements r d kind = Plan.reservedElements r' d kind := by
  cases kind with
  | holderPrivateKey =>
    unfold Plan.reservedElements
    rw [h.holderKey hdeclared, hscheme (.inl hdeclared)]
  | trusteePublicKeys =>
    obtain ⟨hkeys, hsource⟩ := h.trusteeKeys hdeclared
    unfold Plan.reservedElements Materials.settledTrusteeKeys
    rw [hkeys, hsource]
  | timestamp =>
    obtain ⟨htimestamp, hsource⟩ := h.timestamp hdeclared
    unfold Plan.reservedElements Materials.settledTimestamp
    rw [htimestamp, hsource]
  | credentialRoot =>
    unfold Plan.reservedElements
    rw [payload_congr h hscheme rfl hdeclared]
  | issuerPublicKey =>
    unfold Plan.reservedElements
    rw [payload_congr h hscheme rfl hdeclared]
  | issuerSignature =>
    unfold Plan.reservedElements
    rw [payload_congr h hscheme rfl hdeclared]

theorem reserved_congr {d : Declaration} (hd : d ∈ r.circuit.privateSignals ++ r.circuit.publicSignals) :
    Plan.reserved r d = Plan.reserved r' d := by
  rcases d.reserved_or_open with ⟨kind, hname⟩ | hopen
  · rw [Plan.reserved_of_name hname, Plan.reserved_of_name hname, Plan.reservedOf, Plan.reservedOf,
      reservedElements_congr h hscheme d ⟨d, hd, hname⟩]
  · rw [Plan.reserved_of_open hopen, Plan.reserved_of_open hopen]

theorem privateSignal_congr (tree : Option Claim.Lookup)
    {d : Declaration} (hd : d ∈ r.circuit.privateSignals) :
    Plan.privateSignal r tree d = Plan.privateSignal r' tree d := by
  rw [Plan.privateSignal, Plan.privateSignal, reserved_congr h hscheme (List.mem_append_left _ hd), h.circuit]

theorem publicSignal_congr {d : Declaration} (hd : d ∈ r.circuit.publicSignals) :
    Plan.publicSignal r d = Plan.publicSignal r' d := by
  unfold Plan.publicSignal
  by_cases hpositional : Resolution.isPositional d = true
  · rw [if_pos hpositional, if_pos hpositional]
  · rw [if_neg hpositional, if_neg hpositional]
    by_cases hreserved : d.isReserved = true
    · rw [if_pos hreserved, if_pos hreserved, reserved_congr h hscheme (List.mem_append_right _ hd)]
    · rw [if_neg hreserved, if_neg hreserved,
        bound_congr h hd (Bool.eq_false_iff.mpr hreserved) (Bool.eq_false_iff.mpr hpositional)]

end Scheme
end Congruence

/-- **A build depends on what its circuit asks for** and on nothing else: requests that agree
on that come to the same assignment or to the same error. -/
theorem build_congr {r r' : Request} (h : r.AgreeOnAsked r')
    (haccumulator : r.claimSignals ≠ [] → r.accumulator = r'.accumulator)
    (hscheme : r.circuit.UsesScheme → r.scheme = r'.scheme) : r.build.outcome = r'.build.outcome := by
  have hvalid : r.circuit.validate = r'.circuit.validate := congrArg Circuit.validate h.circuit
  have hprivates : ∀ tree, r.circuit.privateSignals.mapM (Plan.privateSignal r tree) =
      r'.circuit.privateSignals.mapM (Plan.privateSignal r' tree) := by
    intro tree
    rw [← h.circuit]
    exact Outcome.mapM_congr fun d hd => privateSignal_congr h hscheme tree hd
  have hpublics : r.circuit.publicSignals.mapM (Plan.publicSignal r) =
      r'.circuit.publicSignals.mapM (Plan.publicSignal r') := by
    rw [← h.circuit]
    exact Outcome.mapM_congr fun d hd => publicSignal_congr h hscheme hd
  rw [build_outcome, build_outcome, Plan.assignment, Plan.assignment]
  simp only [hvalid, checkPolicy_congr h, claimsTree_congr h haccumulator, hprivates, hpublics]

/-- Another credential with a proof that cannot be decoded and a table with rules for a private
and a reserved signal, for the packed key and for a name that is not declared; the depth is
given outright. -/
def strangeRequest : Request :=
  { ageRequest with
    credential :=
      { id := "other"
        issuer := "elsewhere"
        subject := ageSubject
        proof := ⟨BabyJubJub.proofType, "0xy"⟩ }
    policy := some
      { service := "kiosk", circuit := "age"
        rules :=
          [⟨0, "", "birthDate", [1]⟩, ⟨1, "", "limits", [18]⟩, ⟨0, "", "trusteePublicKeys", [2]⟩,
           ⟨7, "", "claimsKey", [3]⟩, ⟨0, "", "limits", [1, 0]⟩, ⟨0, "", "unknown", [4]⟩] }
    depth := some 9 }

theorem ageRequest_agrees_strange : ageRequest.AgreeOnAsked strangeRequest where
  circuit := rfl
  holderKey _ := rfl
  timestamp _ := ⟨rfl, rfl⟩
  trusteeKeys _ := ⟨rfl, rfl⟩
  proof kind hsigned hdeclared := by
    have hsilent : ∀ kind : Reserved, kind.isSigned = true → ¬ageRequest.circuit.Declares kind := by
      intro kind
      cases kind <;> decide
    exact absurd hdeclared (hsilent kind hsigned)
  claims _ := ⟨rfl, rfl⟩
  target := rfl
  rules := by decide

/-- Nothing of it shows. -/
theorem strangeRequest_builds :
    ∃ a, ageRequest.build.outcome = .ok a ∧ strangeRequest.build.outcome = .ok a := by
  obtain ⟨a, ha⟩ := ageRequest_builds
  have hsame : ageRequest.build.outcome = strangeRequest.build.outcome :=
    build_congr ageRequest_agrees_strange (fun _ => rfl) fun _ => rfl
  exact ⟨a, ha, hsame ▸ ha⟩

/-! ### The accumulator and the scheme are looked at -/

def plainSubject : Json.Object where
  members := [("a", .number (.natural 5))]
  ordered := by
    unfold Json.OrderedObject Keyed.Ordered
    exact ⟨by decide, trivial, trivial⟩

/-- One claim and the holder's key are asked for. -/
def plainRequest : Request where
  credential := { subject := plainSubject, proof := ⟨"", ""⟩ }
  circuit := { name := "plain", privateSignals := [⟨"holderPrivateKey", 1⟩, ⟨"a", 1⟩] }
  materials := { holderKey := some [1, 2] }
  depth := some 1

def Claim.Accumulator.unavailable : Accumulator :=
  ⟨fun _ _ => .error (.claimsTree (.other "unavailable"))⟩

/-- A scheme whose scalar of a key is the key's length. -/
def SignatureScheme.measuring : SignatureScheme :=
  { SignatureScheme.babyJubJub with keyScalar := fun key => .ok key.length }

/-- What is asked for of the settings is agreed on, and yet another accumulator fails and
another scheme gives another scalar. -/
theorem plainRequest_depends :
    plainRequest.build.outcome =
        .ok ⟨[("holderPrivateKey", .scalar 258), ("a", .scalar 5)], some 0, [[0]]⟩ ∧
      (plainRequest.AgreeOnAsked { plainRequest with accumulator := .unavailable } ∧
        { plainRequest with accumulator := .unavailable }.build.outcome =
          .error (.claimsTree (.other "unavailable"))) ∧
      (plainRequest.AgreeOnAsked { plainRequest with scheme := .measuring } ∧
        { plainRequest with scheme := .measuring }.build.outcome =
          .ok ⟨[("holderPrivateKey", .scalar 2), ("a", .scalar 5)], some 0, [[0]]⟩) := by
  have hagrees : ∀ accumulator scheme,
      plainRequest.AgreeOnAsked { plainRequest with accumulator, scheme } :=
    fun _ _ => ⟨rfl, fun _ => rfl, fun _ => ⟨rfl, rfl⟩, fun _ => ⟨rfl, rfl⟩, fun _ _ _ => rfl,
      fun _ => ⟨rfl, rfl⟩, rfl, rfl⟩
  exact ⟨by decide +kernel, ⟨hagrees _ _, by decide +kernel⟩, hagrees _ _, by decide +kernel⟩

end Disclosure
