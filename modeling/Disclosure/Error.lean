import Disclosure.FilePath
import Disclosure.Json.Document

/-! What can go wrong, and how it is said.

An error is a cause with what it is about; `Error.message` is the only place where
causes become text. -/
namespace Disclosure

/-- Why a declaration is refused. -/
inductive DeclarationFault
  | unmatchedBracket
  | unclosedBracket
  | arityNotPositive
  | arityOutOfRange
  | notIdentifier
  | arrayClaim
  | oddTrusteeArity
  deriving Repr, DecidableEq

def DeclarationFault.message : DeclarationFault → String
  | .unmatchedBracket => "unmatched ']'"
  | .unclosedBracket => "expected closing ']' at end"
  | .arityNotPositive => "arity must be a positive integer"
  | .arityOutOfRange => "arity out of range"
  | .notIdentifier => "name must be an identifier"
  | .arrayClaim => "claim-backed private signals must be scalar"
  | .oddTrusteeArity => "trustee keys are (x, y) pairs; arity must be even"

/-- Why something is no field element. -/
inductive ElementFault
  | outOfField (n : Nat)
  | notNumeral (text : String) (fault : Decimal.Fault)
  | emptyKey
  | compositeClaim
  deriving Repr, DecidableEq

def ElementFault.message : ElementFault → String
  | .outOfField n => s!"{Decimal.write n} exceeds the BN254 scalar field"
  | .notNumeral text fault => s!"invalid number {Quoted.text text}: {fault.message}"
  | .emptyKey => "empty private key"
  | .compositeClaim => "composite claim values must be flattened"

/-- Why a proof value is not a payload. -/
inductive ProofFault
  | hex (fault : Hex.Fault)
  | length (expected found : Nat)
  | other (reason : String)
  deriving Repr, DecidableEq

def ProofFault.message : ProofFault → String
  | .hex fault => fault.message
  | .length expected found => s!"expected {Decimal.write expected} bytes, got {Decimal.write found}"
  | .other reason => reason

/-- Why claims cannot be accumulated. -/
inductive TreeFault
  | depth (found greatest : Nat)
  | capacity (count depth : Nat)
  | duplicate (path : String)
  | other (reason : String)
  deriving Repr, DecidableEq

def TreeFault.message : TreeFault → String
  | .depth found greatest => s!"depth {Decimal.write found} outside 1..={Decimal.write greatest}"
  | .capacity count levels =>
    let leaves := Decimal.write (Nat.pow 2 levels)
    s!"{Decimal.write count} claims exceed the {leaves} leaves of a depth {Decimal.write levels} tree"
  | .duplicate path => s!"duplicate claim path {path}"
  | .other reason => reason

/-- The material behind a reserved signal. -/
inductive MaterialKind
  | holderKey
  | timestamp
  | trusteeKeys
  | someTrusteeKeys (present required : Nat)
  deriving Repr, DecidableEq

def MaterialKind.message : MaterialKind → String
  | .holderKey => "holder private key"
  | .timestamp => "timestamp"
  | .trusteeKeys => "trustee public keys"
  | .someTrusteeKeys present required =>
    s!"trustee public keys ({Decimal.write present} of {Decimal.write required})"

inductive LoaderKind
  | timestamp
  | trusteeKeys
  deriving Repr, DecidableEq

def LoaderKind.message : LoaderKind → String
  | .timestamp => "timestamp"
  | .trusteeKeys => "trustee key"

/-- Why a document is not the record asked for. -/
inductive DecodeFault
  | text (fault : Json.Fault)
  /-- A value of the wrong shape or range. -/
  | shape
  /-- More elements than the record has fields. -/
  | excess
  | missingField (name : String)
  | duplicateField (name : String)
  | declaration (source : String) (fault : DeclarationFault)
  | hex (fault : Hex.Fault)
  deriving Repr, DecidableEq

/-- Where a record was read from: a text, or a value held in memory. -/
inductive Medium
  | text
  | value
  deriving Repr, DecidableEq

inductive DecodeCategory
  | truncated
  | malformed
  | unsuitable
  deriving Repr, DecidableEq

/-- In a text, excess elements are text where the closing bracket should stand. -/
def DecodeFault.category (medium : Medium) : DecodeFault → DecodeCategory
  | .text .truncated => .truncated
  | .text .malformed => .malformed
  | .excess => if medium = .text then .malformed else .unsuitable
  | _ => .unsuitable

/-- Why a record cannot be written. -/
inductive EncodeFault
  | pathNotText
  deriving Repr, DecidableEq

inductive FileFault
  | directory
  | notText
  deriving Repr, DecidableEq

inductive Error
  | missingClaim (signal path : String)
  | missingMaterial (signal : String) (material : MaterialKind)
  | wrongProofType (expected found : String)
  | undeterminedDepth (circuit : String)
  | invalidDeclaration (declaration : String) (fault : DeclarationFault)
  | arityMismatch (signal : String) (expected found : Nat)
  | ruleArity (signal : String) (expected found : Nat)
  | circuitMismatch (circuit policyCircuit : String)
  | invalidElement (fault : ElementFault)
  | invalidProof (fault : ProofFault)
  | claimsTree (fault : TreeFault)
  | circuitNotFound (path : FilePath)
  | loader (kind : LoaderKind) (reason : String)
  | decoding (medium : Medium) (fault : DecodeFault)
  | encoding (fault : EncodeFault)
  | file (fault : FileFault)
  deriving Repr, DecidableEq

def declarationMessage (declaration : String) (fault : DeclarationFault) : String :=
  s!"Invalid signal declaration {Quoted.text declaration}: {fault.message}"

def DecodeFault.message : DecodeFault → String
  | .text .truncated => "unexpected end of text"
  | .text .malformed => "malformed text"
  | .shape => "unexpected value"
  | .excess => "too many elements"
  | .missingField name => s!"missing field `{name}`"
  | .duplicateField name => s!"duplicate field `{name}`"
  | .declaration source fault => declarationMessage source fault
  | .hex fault => fault.message

def EncodeFault.message : EncodeFault → String
  | .pathNotText => "path contains invalid UTF-8 characters"

def FileFault.message : FileFault → String
  | .directory => "is a directory"
  | .notText => "invalid data"

def Error.message : Error → String
  | .missingClaim signal path =>
    s!"Credential has no claim for private signal {signal} (path {path})"
  | .missingMaterial signal material => s!"Missing {material.message} for signal {signal}"
  | .wrongProofType expected found =>
    s!"Invalid credential proof type: {found} (expected {expected})"
  | .undeterminedDepth circuit =>
    s!"Claims tree depth undetermined for circuit {circuit}: set it explicitly or declare claimsProof[N]"
  | .invalidDeclaration declaration fault => declarationMessage declaration fault
  | .arityMismatch signal expected found =>
    s!"Signal {signal} declares arity {Decimal.write expected} but resolved {Decimal.write found} values"
  | .ruleArity signal expected found =>
    s!"Policy binds {Decimal.write found} rules to signal {signal} of arity {Decimal.write expected}"
  | .circuitMismatch circuit policyCircuit =>
    s!"Policy targets circuit {policyCircuit}, not {circuit}"
  | .invalidElement fault => s!"Invalid field element: {fault.message}"
  | .invalidProof fault => s!"Invalid proof format: {fault.message}"
  | .claimsTree fault => s!"Claims tree error: {fault.message}"
  | .circuitNotFound path => s!"Circuit descriptor not found: {path.display}"
  | .loader kind reason => s!"{kind.message} loader failed: {reason}"
  | .decoding _ fault => s!"Serialization error: {fault.message}"
  | .encoding fault => s!"Serialization error: {fault.message}"
  | .file fault => s!"IO error: {fault.message}"

end Disclosure
