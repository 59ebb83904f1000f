import Disclosure.Error
import Disclosure.Json.Ordered
import Disclosure.Json.Reader

/-! Decoders of documents.

A decoder takes a node apart. The first problem in the order of the text decides,
whether it lies in the text or in the value. A record is read from an object, whose
members may come in any order and whose unknown members are skipped, or from the
array of its fields, whose last fields may be left out when they have a default. -/
namespace Disclosure.Json

abbrev Decoder (α : Type) := Node → Except DecodeFault α

namespace Decoder

def ofFault (fault : Fault) : DecodeFault :=
  .text fault

/-- A node that does not fit is refused, and one that cannot be read fails as such. -/
def refuse : Node → Except DecodeFault α
  | .flawed flaw => .error (.text flaw.reading)
  | _ => .error .shape

def string : Decoder String
  | .string s => .ok s
  | node => refuse node

/-- A number of 32 bits. -/
def uint32 : Decoder UInt32
  | .number (.natural n) => if n.toNat < UInt32.size then .ok n.toUInt32 else .error .shape
  | node => refuse node

/-- A text, or nothing. -/
def optionalString : Decoder (Option String)
  | .null => .ok none
  | .string s => .ok (some s)
  | node => refuse node

def closed (ending : Option Fault) : Except DecodeFault Unit :=
  (Node.closed ending).mapError .text

def list (decode : Decoder α) : Decoder (List α)
  | .array items ending => do
    let values ← items.mapM decode
    closed ending
    .ok values
  | node => refuse node

/-- Any value. -/
def json : Decoder Json :=
  fun node => node.value.mapError .text

/-- Any object. -/
def object : Decoder Object
  | .object members ending =>
    match h : Node.memberValues members with
    | .error fault => .error (.text fault)
    | .ok values => do
      closed ending
      .ok ⟨Keyed.ofList values, orderedObject_ofList (ordered_of_memberValues members h)⟩
  | node => refuse node

/-- An array of exactly two elements. -/
def pair (first : Decoder α) (second : Decoder β) : Decoder (α × β)
  | .array items ending =>
    match items with
    | [] => do closed ending; .error .shape
    | a :: rest => do
      let a ← first a
      match rest with
      | [] => do closed ending; .error .shape
      | b :: rest => do
        let b ← second b
        if rest.isEmpty then closed ending else .error .excess
        .ok (a, b)
  | node => refuse node

/-! ### Records -/

/-- A field of a record that is being read into a draft `σ`. -/
structure Field (σ : Type) where
  name : String
  read : Node → σ → Except DecodeFault σ

def field (name : String) (decode : Decoder α) (set : α → σ → σ) : Field σ :=
  ⟨name, fun node draft => do .ok (set (← decode node) draft)⟩

/-- The value of a field that has no default, or the fault of leaving it out. -/
def required (missing : String → DecodeFault) (name : String) : Option α → Except DecodeFault α
  | some a => .ok a
  | none => .error (missing name)

/-- A record as its fields in order, the empty draft, and the record a draft makes. -/
structure Record (σ α : Type) where
  fields : List (Field σ)
  empty : σ
  finish : (missing : String → DecodeFault) → σ → Except DecodeFault α

/-- Reads members in the order of the text. A field that was read already is refused
before its value is looked at. -/
def readMembers (fields : List (Field σ)) (ending : Option Fault) (seen : List String) (draft : σ) :
    List (Key × Node) → Except DecodeFault σ
  | [] => do
    closed ending
    .ok draft
  | (.error flaw, _) :: _ => .error (.text flaw.reading)
  | (.ok key, node) :: rest =>
    match fields.find? (·.name = key) with
    | none =>
      match node.skip with
      | some fault => .error (.text fault)
      | none => readMembers fields ending seen draft rest
    | some field =>
      if key ∈ seen then .error (.duplicateField key)
      else do
        let draft ← field.read node draft
        readMembers fields ending (key :: seen) draft rest

def readItems (ending : Option Fault) : List (Field σ) → List Node → σ → Except DecodeFault σ
  | _, [], draft => do
    closed ending
    .ok draft
  | [], _ :: _, _ => .error .excess
  | field :: fields, node :: nodes, draft => do
    let draft ← field.read node draft
    readItems ending fields nodes draft

def record (r : Record σ α) : Decoder α
  | .object members ending => do
    let draft ← readMembers r.fields ending [] r.empty members
    r.finish .missingField draft
  | .array items ending => do
    let draft ← readItems ending r.fields items r.empty
    r.finish (fun _ => .shape) draft
  | node => refuse node

end Decoder

/-- Decodes a whole document; anything after its value is a fault of the text. -/
def Document.decode (decode : Decoder α) (document : Document) : Except DecodeFault α := do
  let a ← decode document.root
  if document.trailing then .error (.text .malformed) else .ok a

/-- Decodes a text. -/
def decodeText (decode : Decoder α) (text : String) : Except Error α :=
  ((Document.ofText text.toList).decode decode).mapError (.decoding .text)

/-- Decodes a value held in memory. -/
def decodeValue (decode : Decoder α) (value : Json) : Except Error α :=
  (decode (.ofJson value)).mapError (.decoding .value)

end Disclosure.Json
