import Disclosure.Resolution

/-! Building an assignment, which is what a prover is given.

An assignment lists the resolved signals in the order of their resolution, and for the
disclosed claims one packed key and the rows of siblings. It is read by name, as the
list a witness builder takes, and as JSON with decimal texts.

A build checks the circuit and the policy, commits the claims if some signal is backed
by one, resolves the private and then the public signals in declaration order, and packs
the keys of the disclosed claims into one number. The first failure is the outcome. -/
namespace Disclosure

structure Assignment where
  signals : List (String × SignalValue)
  /-- The keys of the disclosed claims, packed; none when no claim is disclosed. -/
  claimsKey : Option Nat
  claimsProof : List (List Nat)
  deriving Repr, DecidableEq

namespace Assignment

/-- The value of a signal; the first of one name. -/
def find? (a : Assignment) (name : String) : Option SignalValue :=
  Keyed.find? name a.signals

def contains (a : Assignment) (name : String) : Bool :=
  (a.find? name).isSome

/-- Each name with its elements; the rows of siblings are run together. -/
def circuitInput (a : Assignment) : List (String × List Nat) :=
  a.signals.map (fun s => (s.1, s.2.elements)) ++
    match a.claimsKey with
    | none => []
    | some key => [(claimsKeyName, [key]), (claimsProofName, a.claimsProof.flatten)]

def members (a : Assignment) : List (String × Json) :=
  a.signals.map (fun s => (s.1, s.2.toJson)) ++
    match a.claimsKey with
    | none => []
    | some key =>
      [(claimsKeyName, SignalValue.numeral key),
       (claimsProofName, .array (a.claimsProof.map fun row => .array (row.map SignalValue.numeral)))]

/-- The members in the order of resolution. -/
def inOrder (a : Assignment) : Json :=
  .object a.members

/-- The members by key, the last of one name winning. -/
def toJson (a : Assignment) : Json :=
  .object (Keyed.ofList a.members)

end Assignment

/-! ### Builds -/

/-- The outcome of a build, and what happened in it. -/
structure Report where
  outcome : Except Error Assignment
  events : List Event

namespace Request

def checkPolicy (r : Request) : Except Error Unit :=
  match r.policy with
  | none => .ok ()
  | some p =>
    if p.circuit = r.circuit.name then .ok ()
    else .error (.circuitMismatch r.circuit.name p.circuit)

/-- Warns when the issuer signed another root. A proof that does not decode is no reason
to warn. -/
def compareRoots (r : Request) (tree : Claim.Lookup) : Step Unit := do
  match ← Step.decodeProof r.scheme r.credential.proof with
  | .ok p => if p.root = tree.root then pure () else Step.note .rootMismatch
  | .error _ => pure ()

/-- Commits the claims, if a signal needs them. -/
def claimsTree (r : Request) : Step (Option Claim.Lookup) := do
  match ← .ofExcept (r.circuit.treeDepth r.depth r.circuit.hasClaimSignals) with
  | none => pure none
  | some depth => do
    let claims := Claim.flatten r.credential.subject
    Step.note (.claimsAccumulated depth claims.length)
    let tree ← .ofExcept (r.accumulator.build claims depth)
    r.compareRoots tree
    pure (some tree)

/-- The keys one after the other as one little-endian number, which has to be a field
element; none when there are no keys. -/
def packKeys (keys : List Bytes) : Except Error (Option Nat) :=
  if keys = [] then .ok none
  else do
    let key := Bytes.ofLittleEndian keys.flatten
    Field.check key
    .ok (some key)

def steps (r : Request) : Step Assignment := do
  .ofExcept r.circuit.validate
  .ofExcept r.checkPolicy
  let tree ← r.claimsTree
  let disclosed ← r.circuit.privateSignals.mapM (Resolution.privateSignal r tree)
  let publics ← r.circuit.publicSignals.mapM (Resolution.publicSignal r)
  let inclusions := disclosed.filterMap (·.inclusion)
  let claimsKey ← .ofExcept (packKeys (inclusions.map (·.1)))
  pure
    { signals := disclosed.map (fun d => (d.name, d.value)) ++ publics.filterMap id
      claimsKey
      claimsProof := inclusions.map (·.2) }

def build (r : Request) : Report :=
  let (outcome, session) := r.steps.run (.start r.materials)
  ⟨outcome, session.events⟩

end Request

/-- The text of an event that is a warning. -/
def Event.warning? : Event → Option String
  | .rootMismatch => some "Claims tree root differs from the issuer-signed credential root"
  | _ => none

end Disclosure
