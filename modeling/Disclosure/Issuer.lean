import Disclosure.Credential
import Disclosure.Field

/-! Issuer signatures.

A scheme knows one type of proof: how to decode its value into a payload, and how key
material of the holder becomes a circuit scalar.

The default scheme signs over Baby Jubjub. Its proof value is the hexadecimal form of six
field elements of 32 bytes, big-endian: the root, the issuer key and the signature. Key
material is reduced into the field. -/
namespace Disclosure

/-- What an issuer signs and with what: the claims root, the key `(x, y)` and the
signature `(R8x, R8y, S)`. -/
structure Payload where
  root : Nat
  issuerKey : Nat × Nat
  signature : Nat × Nat × Nat
  deriving Repr, DecidableEq

namespace Payload

def issuerKeyElements (p : Payload) : List Nat :=
  [p.issuerKey.1, p.issuerKey.2]

def signatureElements (p : Payload) : List Nat :=
  [p.signature.1, p.signature.2.1, p.signature.2.2]

def elements (p : Payload) : List Nat :=
  p.root :: (p.issuerKeyElements ++ p.signatureElements)

end Payload

structure SignatureScheme where
  proofType : String
  parse : String → Except Error Payload
  keyScalar : Bytes → Except Error Nat

namespace SignatureScheme

/-- The payload of a proof of the scheme's type. -/
def payload (s : SignatureScheme) (proof : IssuerProof) : Except Error Payload :=
  if proof.type = s.proofType then s.parse proof.value
  else .error (.wrongProofType s.proofType proof.type)

end SignatureScheme

/-! ### Baby Jubjub -/

namespace BabyJubJub

def proofType : String := "BJJSignature2021"

def elementWidth : Nat := 32

def payloadWidth : Nat := 6 * elementWidth

def encode (p : Payload) : Except Error String := do
  let elements ← p.elements.mapM Field.toElement
  .ok (Hex.encode (elements.flatMap Field.Element.bytes))

/-- The number at the place `i` of a payload. -/
def elementAt (bytes : Bytes) (i : Nat) : Except Error Nat :=
  Field.ofBytes ((bytes.drop (i * elementWidth)).take elementWidth)

def parse (proofValue : String) : Except Error Payload := do
  let bytes ← (Hex.decode (Hex.stripped proofValue.toList)).mapError fun fault => .invalidProof (.hex fault)
  if bytes.length ≠ payloadWidth then .error (.invalidProof (.length payloadWidth bytes.length))
  else
    let root ← elementAt bytes 0
    let x ← elementAt bytes 1
    let y ← elementAt bytes 2
    let r8x ← elementAt bytes 3
    let r8y ← elementAt bytes 4
    let s ← elementAt bytes 5
    .ok ⟨root, (x, y), (r8x, r8y, s)⟩

def keyScalar (key : Bytes) : Except Error Nat :=
  if key = [] then .error (.invalidElement .emptyKey)
  else .ok (Field.Element.reduce (Bytes.ofBigEndian key)).val

end BabyJubJub

/-- The default scheme. -/
def SignatureScheme.babyJubJub : SignatureScheme :=
  ⟨BabyJubJub.proofType, BabyJubJub.parse, BabyJubJub.keyScalar⟩

end Disclosure
