import Disclosure.FilePath
import Disclosure.Signal

/-! Circuits, and loading one from its descriptor.

A circuit declares its private and public signals in order and names the artifacts
of its proving system. A private signal that is not reserved is backed by a claim,
and a claim is one number: `validate` refuses a claim-backed array. -/
namespace Disclosure

structure Artifacts where
  wasmPath : Option FilePath := none
  r1csPath : Option FilePath := none
  zkeyPath : Option FilePath := none
  vkeyPath : Option FilePath := none
  deriving Repr, DecidableEq

structure Circuit where
  name : String
  privateSignals : List Declaration := []
  publicSignals : List Declaration := []
  artifacts : Artifacts := {}
  deriving Repr, DecidableEq

def Declaration.isReserved (d : Declaration) : Bool :=
  (Reserved.ofName? d.name).isSome

namespace Artifacts

/-- Relative paths are taken from `base`. -/
def resolvedAgainst (base : FilePath) (a : Artifacts) : Artifacts :=
  let resolve := Option.map fun (path : FilePath) => if path.isRelative then base.join path else path
  ⟨resolve a.wasmPath, resolve a.r1csPath, resolve a.zkeyPath, resolve a.vkeyPath⟩

end Artifacts

namespace Circuit

def validate (c : Circuit) : Except Error Unit :=
  match c.privateSignals.find? fun d => !d.isScalar && !d.isReserved with
  | some d => .error (.invalidDeclaration d.text .arrayClaim)
  | none => .ok ()

/-- A valid circuit from declarations in text, the private ones read first. -/
def ofDeclarations (name : String) (privates publics : List String) : Except Error Circuit := do
  let privates ← privates.mapM Declaration.parse
  let publics ← publics.mapM Declaration.parse
  let circuit : Circuit := { name, privateSignals := privates, publicSignals := publics }
  circuit.validate
  .ok circuit

/-- The depth that the first public `claimsProof` declares. -/
def declaredDepth? (c : Circuit) : Option Nat :=
  (c.publicSignals.find? (·.name = claimsProofName)).map (·.arity)

/-- Whether some private signal is backed by a claim. -/
def hasClaimSignals (c : Circuit) : Bool :=
  c.privateSignals.any fun d => !d.isReserved

/-- The depth of the claims tree: the explicit one, else the declared one. There is
none where no signal is backed by a claim. -/
def treeDepth (explicit : Option Nat) (c : Circuit) (hasClaimSignals : Bool) :
    Except Error (Option Nat) :=
  if !hasClaimSignals then .ok none
  else match explicit.or c.declaredDepth? with
    | some depth => .ok (some depth)
    | none => .error (.undeterminedDepth c.name)

end Circuit

/-! ### File form -/

open Json.Decoder (field required)

namespace FilePath

/-- A path, or nothing. -/
def optionalDecoder : Json.Decoder (Option FilePath) := fun node => do
  let text ← Json.Decoder.optionalString node
  .ok (text.map ofText)

/-- A path that has no text cannot be written. -/
def toJson (path : FilePath) : Except Error Json :=
  match path.text? with
  | some text => .ok (.string text)
  | none => .error (.encoding .pathNotText)

end FilePath

namespace Artifacts

def decoder : Json.Decoder Artifacts :=
  Json.Decoder.record
    { fields :=
        [field "wasmPath" FilePath.optionalDecoder fun path (a : Artifacts) => { a with wasmPath := path },
         field "r1csPath" FilePath.optionalDecoder fun path a => { a with r1csPath := path },
         field "zkeyPath" FilePath.optionalDecoder fun path a => { a with zkeyPath := path },
         field "vkeyPath" FilePath.optionalDecoder fun path a => { a with vkeyPath := path }]
      empty := {}
      finish := fun _ a => .ok a }

/-- Absent paths are not written. -/
def toJson (a : Artifacts) : Except Error Json := do
  let wasm ← a.wasmPath.mapM FilePath.toJson
  let r1cs ← a.r1csPath.mapM FilePath.toJson
  let zkey ← a.zkeyPath.mapM FilePath.toJson
  let vkey ← a.vkeyPath.mapM FilePath.toJson
  let member := fun key (path : Option Json) => (path.map fun p => (key, p)).toList
  .ok (.object (member "wasmPath" wasm ++ member "r1csPath" r1cs ++
    member "zkeyPath" zkey ++ member "vkeyPath" vkey))

end Artifacts

namespace Circuit

/-- A circuit that is being read. -/
structure Draft where
  name : Option String := none
  privateSignals : List Declaration := []
  publicSignals : List Declaration := []
  artifacts : Artifacts := {}

def decoder : Json.Decoder Circuit :=
  Json.Decoder.record
    { fields :=
        [field "name" Json.Decoder.string fun name (d : Draft) => { d with name := some name },
         field "privateSignals" (Json.Decoder.list Declaration.decoder)
           fun signals d => { d with privateSignals := signals },
         field "publicSignals" (Json.Decoder.list Declaration.decoder)
           fun signals d => { d with publicSignals := signals },
         field "artifacts" Artifacts.decoder fun artifacts d => { d with artifacts := artifacts }]
      empty := {}
      finish := fun missing d => do
        let name ← required missing "name" d.name
        .ok ⟨name, d.privateSignals, d.publicSignals, d.artifacts⟩ }

def toJson (c : Circuit) : Except Error Json := do
  let artifacts ← c.artifacts.toJson
  .ok (.object
    [("name", .string c.name),
     ("privateSignals", .array (c.privateSignals.map Declaration.toJson)),
     ("publicSignals", .array (c.publicSignals.map Declaration.toJson)),
     ("artifacts", artifacts)])

/-- A valid circuit from its descriptor. -/
def ofText (text : String) : Except Error Circuit := do
  let circuit ← Json.decodeText decoder text
  circuit.validate
  .ok circuit

end Circuit

/-- What stands at a path. -/
inductive FileContent
  | absent
  | directory
  | bytes (content : ByteArray)

/-- Loads a valid circuit; its relative artifact paths are taken from the directory of
the descriptor. -/
def Circuit.load (path : FilePath) : FileContent → Except Error Circuit
  | .absent => .error (.circuitNotFound path)
  | .directory => .error (.file .directory)
  | .bytes content =>
    match String.fromUTF8? content with
    | none => .error (.file .notText)
    | some text => do
      let circuit ← Circuit.ofText text
      match path.parent? with
      | some base => .ok { circuit with artifacts := circuit.artifacts.resolvedAgainst base }
      | none => .ok circuit

end Disclosure
