import Disclosure.Session

/-! Resolving signals.

A reserved signal takes its material, a private signal its claim, a public one its
policy rules. Only a public timestamp without material, and a public signal without
rules, are left out. -/
namespace Disclosure

/-- A resolved private signal; a claim brings its key and its siblings. -/
structure Disclosed where
  name : String
  value : SignalValue
  inclusion : Option (Bytes × List Nat) := none
  deriving Repr, DecidableEq

namespace Resolution

/-- The first `arity / 2` of the keys, flattened. -/
def trusteeElements (d : Declaration) : Option (List TrusteeKey) → Except Error (List Nat)
  | none => .error (.missingMaterial d.name .trusteeKeys)
  | some keys =>
    let required := d.arity / 2
    if keys.length < required then
      .error (.missingMaterial d.name (.someTrusteeKeys keys.length required))
    else .ok ((keys.take required).flatMap TrusteeKey.elements)

/-- The numbers of a reserved signal. -/
def reservedElements (r : Request) (d : Declaration) : Reserved → Step (Option (List Nat))
  | .holderPrivateKey =>
    match r.materials.holderKey with
    | none => throw (.missingMaterial d.name .holderKey)
    | some key => do pure (some [← .ofExcept (r.scheme.keyScalar key)])
  | .trusteePublicKeys =>
    if d.arity % 2 ≠ 0 then throw (.invalidDeclaration d.text .oddTrusteeArity)
    else do
      let keys ← Step.trusteeKeys r.materials
      pure (some (← .ofExcept (trusteeElements d keys)))
  | .timestamp => do
    let t ← Step.timestamp r.materials
    pure (t.map fun t => [t.toNat])
  | .credentialRoot => do
    let p ← Step.payload r.scheme r.credential.proof
    pure (some [p.root])
  | .issuerPublicKey => do
    let p ← Step.payload r.scheme r.credential.proof
    pure (some p.issuerKeyElements)
  | .issuerSignature => do
    let p ← Step.payload r.scheme r.credential.proof
    pure (some p.signatureElements)

/-- The value of a reserved signal; none for another signal, and for a timestamp without
material. -/
def reserved (r : Request) (d : Declaration) : Step (Option SignalValue) :=
  match Reserved.ofName? d.name with
  | none => pure none
  | some kind => do
    match ← reservedElements r d kind with
    | none => pure none
    | some values => do pure (some (← .ofExcept (SignalValue.shaped d values)))

/-- Discloses the claim behind a private signal. -/
def disclose (circuit : Circuit) (tree : Option Claim.Lookup) (d : Declaration) :
    Except Error Disclosed :=
  match tree with
  | none => .error (.undeterminedDepth circuit.name)
  | some tree =>
    let path := Claim.pathOf d.name
    let entry := tree.get path
    if !entry.found then .error (.missingClaim d.name path)
    else do
      let value ← SignalValue.shaped d [entry.value]
      .ok ⟨d.name, value, some (entry.key, entry.siblings)⟩

def privateSignal (r : Request) (tree : Option Claim.Lookup) (d : Declaration) : Step Disclosed := do
  match ← reserved r d with
  | some value => pure ⟨d.name, value, none⟩
  | none =>
    if d.isReserved then throw (.missingMaterial d.name .timestamp)
    else .ofExcept (disclose r.circuit tree d)

/-- The policy's value for a public signal. -/
def bound (policy : Option Policy) (d : Declaration) : Except Error (Option SignalValue) :=
  match policy with
  | none => .ok none
  | some p => Policy.inject p.rules d

/-- Signals that the private ones fill by position. -/
def isPositional (d : Declaration) : Bool :=
  d.name == claimsKeyName || d.name == claimsProofName

def publicSignal (r : Request) (d : Declaration) : Step (Option (String × SignalValue)) := do
  if isPositional d then pure none
  else
    let value ← if d.isReserved then reserved r d else .ofExcept (bound r.policy d)
    pure (value.map fun v => (d.name, v))

end Resolution
end Disclosure
