import Disclosure.Field
import Disclosure.Signal

/-! Policies: the constants a service binds to the public signals of a circuit.

Each rule binds one slot of the signal its key names. The rules of a signal are taken
by index, rules of equal index in table order. In the file form their values are
hexadecimal text. -/
namespace Disclosure

structure Rule where
  index : UInt32
  /-- A heading for display; the empty text stands for none. -/
  group : String := ""
  key : String
  /-- A big-endian number. -/
  value : Bytes
  deriving Repr, DecidableEq

structure Policy where
  service : String
  circuit : String
  rules : List Rule := []
  deriving Repr, DecidableEq

/-- The rule that binds a number, in as few bytes as it takes. -/
def Rule.ofNat (index : UInt32) (key : String) (n : Nat) : Rule :=
  { index, key, value := Bytes.minimalBigEndian n }

namespace Policy

/-- Sorted by index; the sort is stable. -/
def byIndex (rules : List Rule) : List Rule :=
  rules.mergeSort fun r s => r.index ≤ s.index

def rulesFor (rules : List Rule) (name : String) : List Rule :=
  byIndex (rules.filter (·.key = name))

/-- The value that a rule table binds to a public signal. A signal without rules is left
unbound; one with rules needs exactly one for each of its slots. -/
def inject (rules : List Rule) (d : Declaration) : Except Error (Option SignalValue) :=
  match rulesFor rules d.name with
  | [] => .ok none
  | bound =>
    if bound.length ≠ d.arity then .error (.ruleArity d.name d.arity bound.length)
    else do
      let values ← bound.mapM fun rule => Field.ofBytes rule.value
      let value ← SignalValue.shaped d values
      .ok (some value)

end Policy

/-! ### File form -/

open Json.Decoder (field required)

def hexText : Json.Decoder Bytes := fun node => do
  let text ← Json.Decoder.string node
  (Hex.decode (Hex.stripped text.toList)).mapError .hex

namespace Rule

/-- A rule that is being read. -/
structure Draft where
  index : Option UInt32 := none
  group : String := ""
  key : Option String := none
  value : Option Bytes := none

def decoder : Json.Decoder Rule :=
  Json.Decoder.record
    { fields :=
        [field "index" Json.Decoder.uint32 fun index (d : Draft) => { d with index := some index },
         field "group" Json.Decoder.string fun group d => { d with group := group },
         field "key" Json.Decoder.string fun key d => { d with key := some key },
         field "value" hexText fun value d => { d with value := some value }]
      empty := {}
      finish := fun missing d => do
        let index ← required missing "index" d.index
        let key ← required missing "key" d.key
        let value ← required missing "value" d.value
        .ok ⟨index, d.group, key, value⟩ }

def toJson (r : Rule) : Json :=
  .object
    [("index", .number (.natural r.index.toUInt64)),
     ("group", .string r.group),
     ("key", .string r.key),
     ("value", .string (Hex.encode r.value))]

end Rule

namespace Policy

/-- A policy that is being read. -/
structure Draft where
  service : Option String := none
  circuit : Option String := none
  rules : List Rule := []

def decoder : Json.Decoder Policy :=
  Json.Decoder.record
    { fields :=
        [field "service" Json.Decoder.string fun service (d : Draft) => { d with service := some service },
         field "circuit" Json.Decoder.string fun circuit d => { d with circuit := some circuit },
         field "rules" (Json.Decoder.list Rule.decoder) fun rules d => { d with rules := rules }]
      empty := {}
      finish := fun missing d => do
        let service ← required missing "service" d.service
        let circuit ← required missing "circuit" d.circuit
        .ok ⟨service, circuit, d.rules⟩ }

def toJson (p : Policy) : Json :=
  .object
    [("service", .string p.service),
     ("circuit", .string p.circuit),
     ("rules", .array (p.rules.map Rule.toJson))]

end Policy

end Disclosure
