import Disclosure.Circuit
import Disclosure.Claim.Sparse
import Disclosure.Issuer
import Disclosure.Material
import Disclosure.Policy

/-! Requests, and the course of one build.

A request is what one build is given. It starts from a credential and a circuit; settings
add to it, a later one taking the place of an earlier one of its kind.

A session remembers the material that was loaded and the payload that was decoded, so
that each is fetched once, and lists in order what was consulted. A `Step` is a part of
a build; when it fails the session stays as it was left. -/
namespace Disclosure

structure Request where
  credential : Credential
  circuit : Circuit
  policy : Option Policy := none
  materials : Materials := {}
  /-- Takes the place of the depth that the circuit declares. -/
  depth : Option Nat := none
  accumulator : Claim.Accumulator := .sparse
  scheme : SignatureScheme := .babyJubJub

inductive Setting
  | policy (p : Policy)
  | timestamp (t : UInt64)
  | timestampSource (s : Source UInt64)
  | holderKey (key : Bytes)
  | trusteeKeys (keys : List TrusteeKey)
  | trusteeKeySource (s : Source (List TrusteeKey))
  | depth (d : Nat)
  | accumulator (a : Claim.Accumulator)
  | scheme (s : SignatureScheme)

namespace Request

def set (r : Request) : Setting → Request
  | .policy p => { r with policy := some p }
  | .timestamp t => { r with materials := { r.materials with timestamp := some t } }
  | .timestampSource s => { r with materials := { r.materials with timestampSource := some s } }
  | .holderKey key => { r with materials := { r.materials with holderKey := some key } }
  | .trusteeKeys keys => { r with materials := { r.materials with trusteeKeys := some keys } }
  | .trusteeKeySource s => { r with materials := { r.materials with trusteeKeySource := some s } }
  | .depth d => { r with depth := some d }
  | .accumulator a => { r with accumulator := a }
  | .scheme s => { r with scheme := s }

def configured (credential : Credential) (circuit : Circuit) (settings : List Setting) : Request :=
  settings.foldl set { credential, circuit }

end Request

/-! ### Sessions -/

/-- What a build asks of its surroundings, and the one warning it gives. -/
inductive Event
  | timestampConsulted
  | trusteeKeysConsulted
  | proofParsed (value : String)
  | claimsAccumulated (depth count : Nat)
  | rootMismatch
  deriving Repr, DecidableEq

structure Session where
  timestamp : Option UInt64
  trusteeKeys : Option (List TrusteeKey)
  payload : Option Payload := none
  events : List Event := []

def Session.start (m : Materials) : Session :=
  { timestamp := m.timestamp, trusteeKeys := m.trusteeKeys }

abbrev Step := ExceptT Error (StateM Session)

namespace Step

def ofExcept (result : Except Error α) : Step α :=
  ExceptT.mk (pure result)

def note (event : Event) : Step Unit :=
  modify fun s => { s with events := s.events ++ [event] }

/-- Consults a source, which may know how often it was consulted before. -/
def consult (event : Event) (kind : LoaderKind) (source : Source α) : Step α := do
  let earlier := (← get).events.count event
  note event
  ofExcept ((source.answer earlier).mapError (.loader kind))

/-- The supplied timestamp, else the loaded one, else none. -/
def timestamp (m : Materials) : Step (Option UInt64) := do
  match (← get).timestamp, m.timestampSource with
  | some t, _ => pure (some t)
  | none, none => pure none
  | none, some source => do
    let t ← consult .timestampConsulted .timestamp source
    modify fun s => { s with timestamp := some t }
    pure (some t)

/-- The supplied trustee keys, else the loaded ones, else none. -/
def trusteeKeys (m : Materials) : Step (Option (List TrusteeKey)) := do
  match (← get).trusteeKeys, m.trusteeKeySource with
  | some keys, _ => pure (some keys)
  | none, none => pure none
  | none, some source => do
    let keys ← consult .trusteeKeysConsulted .trusteeKeys source
    modify fun s => { s with trusteeKeys := some keys }
    pure (some keys)

/-- Decodes the issuer's proof. A proof of another type is not looked into. -/
def decodeProof (scheme : SignatureScheme) (proof : IssuerProof) : Step (Except Error Payload) := do
  if proof.type = scheme.proofType then note (.proofParsed proof.value)
  pure (scheme.payload proof)

/-- The issuer's payload, decoded when first needed. -/
def payload (scheme : SignatureScheme) (proof : IssuerProof) : Step Payload := do
  match (← get).payload with
  | some p => pure p
  | none => do
    let p ← ofExcept (← decodeProof scheme proof)
    modify fun s => { s with payload := some p }
    pure p

end Step

end Disclosure
