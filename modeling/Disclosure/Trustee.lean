import Disclosure.Field
import Disclosure.Json.Decoder

/-! Trustees, and which of them a proved request involves.

A trustee is selected when both halves of its key occur among the public inputs, each
at any place. Inputs come as numbers, as field elements or as decimal numerals.

In the file form a key is the array of its two halves, and a half is a number as an array
of digits to the base `2^32`, least significant first. High zero digits are read but not
written. -/
namespace Disclosure

structure TrusteeKey where
  x : Nat
  y : Nat
  deriving Repr, DecidableEq

structure Trustee where
  id : String
  publicKey : TrusteeKey
  deriving Repr, DecidableEq

def TrusteeKey.elements (key : TrusteeKey) : List Nat :=
  [key.x, key.y]

namespace Trustee

/-- The selected trustees, in registry order. -/
def select (registry : List Trustee) (inputs : List Nat) : List Trustee :=
  registry.filter fun t => inputs.contains t.publicKey.x && inputs.contains t.publicKey.y

def selectElements (registry : List Trustee) (inputs : List Field.Element) : List Trustee :=
  select registry (inputs.map (·.val))

def selectDecimals (registry : List Trustee) (inputs : List String) : Except Error (List Trustee) := do
  let inputs ← inputs.mapM Field.ofDecimal
  .ok (select registry inputs)

end Trustee

/-! ### File form -/

open Json.Decoder (field required)

namespace WideNumber

def ofDigits : List UInt32 → Nat
  | [] => 0
  | d :: rest => d.toNat + UInt32.size * ofDigits rest

/-- The digits of a number; zero has none. -/
def digits (n : Nat) : List UInt32 :=
  if n = 0 then [] else UInt32.ofNat n :: digits (n / UInt32.size)
termination_by n
decreasing_by exact Nat.div_lt_self (by omega) (by decide)

def decoder : Json.Decoder Nat := fun node => do
  let digits ← Json.Decoder.list Json.Decoder.uint32 node
  .ok (ofDigits digits)

def toJson (n : Nat) : Json :=
  .array ((digits n).map fun d => .number (.natural d.toUInt64))

end WideNumber

namespace TrusteeKey

def decoder : Json.Decoder TrusteeKey := fun node => do
  let (x, y) ← Json.Decoder.pair WideNumber.decoder WideNumber.decoder node
  .ok ⟨x, y⟩

def toJson (key : TrusteeKey) : Json :=
  .array [WideNumber.toJson key.x, WideNumber.toJson key.y]

end TrusteeKey

namespace Trustee

/-- A trustee that is being read. -/
structure Draft where
  id : Option String := none
  publicKey : Option TrusteeKey := none

def decoder : Json.Decoder Trustee :=
  Json.Decoder.record
    { fields :=
        [field "id" Json.Decoder.string fun id (d : Draft) => { d with id := some id },
         field "publicKey" TrusteeKey.decoder fun key d => { d with publicKey := some key }]
      empty := {}
      finish := fun missing d => do
        let id ← required missing "id" d.id
        let publicKey ← required missing "publicKey" d.publicKey
        .ok ⟨id, publicKey⟩ }

def toJson (t : Trustee) : Json :=
  .object [("id", .string t.id), ("publicKey", t.publicKey.toJson)]

end Trustee

end Disclosure
