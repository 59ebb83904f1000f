import Disclosure.Json.Decoder

/-! Credentials.

A credential makes claims about a subject, an object of any nesting, and carries the
issuer's proof in the wire form of a signature scheme. -/
namespace Disclosure

structure IssuerProof where
  type : String
  value : String
  deriving Repr, DecidableEq

structure Credential where
  id : String := ""
  issuer : String := ""
  subject : Json.Object
  proof : IssuerProof

/-! ### File form -/

open Json.Decoder (field required)

namespace IssuerProof

/-- A proof that is being read. -/
structure Draft where
  type : Option String := none
  value : Option String := none

def decoder : Json.Decoder IssuerProof :=
  Json.Decoder.record
    { fields :=
        [field "type" Json.Decoder.string fun type (d : Draft) => { d with type := some type },
         field "proofValue" Json.Decoder.string fun value d => { d with value := some value }]
      empty := {}
      finish := fun missing d => do
        let type ← required missing "type" d.type
        let value ← required missing "proofValue" d.value
        .ok ⟨type, value⟩ }

def toJson (p : IssuerProof) : Json :=
  .object [("type", .string p.type), ("proofValue", .string p.value)]

end IssuerProof

namespace Credential

/-- A credential that is being read. -/
structure Draft where
  id : String := ""
  issuer : String := ""
  subject : Option Json.Object := none
  proof : Option IssuerProof := none

def decoder : Json.Decoder Credential :=
  Json.Decoder.record
    { fields :=
        [field "id" Json.Decoder.string fun id (d : Draft) => { d with id := id },
         field "issuer" Json.Decoder.string fun issuer d => { d with issuer := issuer },
         field "credentialSubject" Json.Decoder.object fun subject d => { d with subject := some subject },
         field "proof" IssuerProof.decoder fun proof d => { d with proof := some proof }]
      empty := {}
      finish := fun missing d => do
        let subject ← required missing "credentialSubject" d.subject
        let proof ← required missing "proof" d.proof
        .ok ⟨d.id, d.issuer, subject, proof⟩ }

def toJson (c : Credential) : Json :=
  .object
    [("id", .string c.id),
     ("issuer", .string c.issuer),
     ("credentialSubject", .object c.subject.members),
     ("proof", c.proof.toJson)]

end Credential

end Disclosure
