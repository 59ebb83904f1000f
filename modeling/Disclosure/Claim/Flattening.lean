import Disclosure.Field
import Disclosure.Json.Ordered

/-! Claims of a subject: its scalars as numbers of the field, under dotted paths.

Naturals keep their value, and so do texts of decimal digits that stay below the
field's order; every other scalar is hashed by its text. Null is not committed.

Keys and indices on the way to a scalar are joined by dots. `flatten` collects the
encoded scalars in path order; where two ways join to one path the later in depth-first
order wins. -/
namespace Disclosure.Claim

/-- A text that is hashed, or its value when it is all digits and below the order. -/
def encodeText (text : String) : Nat :=
  let digits := text.toList
  if digits ≠ [] ∧ digits.all Char.isDigit ∧ Decimal.ofDigits digits < Field.order then
    Decimal.ofDigits digits
  else (Field.hashText text).val

/-- The number of a scalar; null and containers have none. -/
def encodeScalar? : Json → Option Nat
  | .bool b => some b.toNat
  | .number (.natural n) => some n.toNat
  | .number n => some (Field.hashText n.text).val
  | .string s => some (encodeText s)
  | _ => none

/-- Encodes one claim value. A container has to be flattened first. -/
def encode : Json → Except Error (Option Nat)
  | .array _ | .object _ => .error (.invalidElement .compositeClaim)
  | scalar => .ok (encodeScalar? scalar)

/-! ### Flattening -/

/-- Claims by path, in path order. -/
abbrev Claims := List (String × Nat)

/-- The claim path that a signal name asks for. -/
def pathOf (signal : String) : String :=
  signal.map fun c => if c = '_' then '.' else c

mutual

/-- Sets the claims at or below a path. -/
def collect (path : String) (value : Json) (claims : Claims) : Claims :=
  match value with
  | .array items => collectItems path 0 items claims
  | .object members => collectMembers path members claims
  | scalar =>
    match encodeScalar? scalar with
    | some n => Keyed.insert path n claims
    | none => claims

def collectItems (path : String) (index : Nat) (items : List Json) (claims : Claims) : Claims :=
  match items with
  | [] => claims
  | item :: rest =>
    collectItems path (index + 1) rest (collect (path ++ "." ++ Decimal.write index) item claims)

def collectMembers (path : String) (members : List (String × Json)) (claims : Claims) : Claims :=
  match members with
  | [] => claims
  | (key, member) :: rest => collectMembers path rest (collect (path ++ "." ++ key) member claims)

end

/-- The claims of a subject. Its own keys begin the paths. -/
def flatten (subject : Json.Object) : Claims :=
  subject.members.foldl (fun claims m => collect m.1 m.2 claims) []

end Disclosure.Claim
