import Disclosure.Json.Basic

/-! What a text holds as JSON, up to the first place where it stops being JSON.

A decoder takes a document apart in the order of the text and fails at the first
thing it cannot use, be that a value of the wrong shape or a fault of the text. So a
`Node` keeps everything before a fault. What is skipped is checked less strictly
than what is read: a `Flaw` says what each of the two runs into. -/
namespace Disclosure.Json

/-- A text ends too early, or is not JSON. -/
inductive Fault
  | truncated
  | malformed
  deriving Repr, DecidableEq

/-- A place that cannot be read. `skipping` is the fault that skipping it meets, if
any; a fault met by both ends the document. -/
structure Flaw where
  reading : Fault
  skipping : Option Fault
  deriving Repr, DecidableEq

def Flaw.ofFault (fault : Fault) : Flaw :=
  ⟨fault, some fault⟩

/-- A member's key, or what is wrong with it. -/
abbrev Key := Except Flaw String

/-- A container ends with its closing bracket (`none`) or with a fault. -/
inductive Node
  | null
  | bool (value : Bool)
  | number (value : Number)
  | string (value : String)
  | array (items : List Node) (ending : Option Fault)
  | object (members : List (Key × Node)) (ending : Option Fault)
  | flawed (flaw : Flaw)

namespace Node

def stuck (fault : Fault) : Node :=
  .flawed (.ofFault fault)

mutual

/-- The fault met by skipping a node. -/
def skip : Node → Option Fault
  | .array items ending => skipItems ending items
  | .object members ending => skipMembers ending members
  | .flawed flaw => flaw.skipping
  | _ => none

def skipItems (ending : Option Fault) : List Node → Option Fault
  | [] => ending
  | node :: rest => (skip node).or (skipItems ending rest)

def skipMembers (ending : Option Fault) : List (Key × Node) → Option Fault
  | [] => ending
  | (.error flaw, node) :: rest => flaw.skipping.or ((skip node).or (skipMembers ending rest))
  | (.ok _, node) :: rest => (skip node).or (skipMembers ending rest)

end

def closed : Option Fault → Except Fault Unit
  | none => .ok ()
  | some fault => .error fault

mutual

/-- The value a node holds. Members are put in key order, the last of repeated keys
winning. -/
def value : Node → Except Fault Json
  | .null => .ok .null
  | .bool b => .ok (.bool b)
  | .number n => .ok (.number n)
  | .string s => .ok (.string s)
  | .array items ending => do
    let items ← itemValues items
    closed ending
    .ok (.array items)
  | .object members ending => do
    let members ← memberValues members
    closed ending
    .ok (.object (Keyed.ofList members))
  | .flawed flaw => .error flaw.reading

def itemValues : List Node → Except Fault (List Json)
  | [] => .ok []
  | node :: rest => do
    let item ← value node
    let items ← itemValues rest
    .ok (item :: items)

def memberValues : List (Key × Node) → Except Fault (List (String × Json))
  | [] => .ok []
  | (.error flaw, _) :: _ => .error flaw.reading
  | (.ok key, node) :: rest => do
    let member ← value node
    let members ← memberValues rest
    .ok ((key, member) :: members)

end

mutual

/-- The node of a whole value. -/
def ofJson : Json → Node
  | .null => .null
  | .bool b => .bool b
  | .number n => .number n
  | .string s => .string s
  | .array items => .array (ofItems items) none
  | .object members => .object (ofMembers members) none

def ofItems : List Json → List Node
  | [] => []
  | item :: rest => ofJson item :: ofItems rest

def ofMembers : List (String × Json) → List (Key × Node)
  | [] => []
  | (key, member) :: rest => (.ok key, ofJson member) :: ofMembers rest

end

end Node

/-- A text's node, and whether anything but blanks follows it. -/
structure Document where
  root : Node
  trailing : Bool

end Disclosure.Json
