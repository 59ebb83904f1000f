import Disclosure.Json.Shortest
import Disclosure.Keyed

/-! JSON values, and their compact text.

A number is a natural below `2^64`, a negative whole number down to `-2^63`, or a
double. An object lists its members; values read from a text or held in memory list
them in bytewise key order, each key once (`Ordered`), and file forms in the order
they are written.

The text has no space between tokens. In strings the quote, the backslash and the
characters below the space are escaped, and nothing else. -/
namespace Disclosure

inductive Number
  | natural (n : UInt64)
  /-- The whole number `-(n + 1)`. -/
  | negative (n : Nat)
  | double (x : Binary64)
  deriving Repr, DecidableEq

inductive Json
  | null
  | bool (value : Bool)
  | number (value : Number)
  | string (value : String)
  | array (items : List Json)
  | object (members : List (String × Json))
  deriving Repr

namespace Json

/-- Doubles are positional from `0.00001` up to below `10^16`. -/
def numberLayout : Binary64.Layout := ⟨-5, 15⟩

end Json

def Number.text : Number → String
  | .natural n => Decimal.write n.toNat
  | .negative n => "-" ++ Decimal.write (n + 1)
  | .double x => Json.numberLayout.text x

namespace Json

/-! ### Text -/

def escapeChar (c : Char) : List Char :=
  if c = '"' then ['\\', '"']
  else if c = '\\' then ['\\', '\\']
  else if c = '\x08' then ['\\', 'b']
  else if c = '\x09' then ['\\', 't']
  else if c = '\x0a' then ['\\', 'n']
  else if c = '\x0c' then ['\\', 'f']
  else if c = '\x0d' then ['\\', 'r']
  else if c.toNat < 0x20 then
    ['\\', 'u', '0', '0', Nat.digitChar (c.toNat / 16), Nat.digitChar (c.toNat % 16)]
  else [c]

def stringText (s : String) : List Char :=
  '"' :: s.toList.flatMap escapeChar ++ ['"']

mutual

def chars : Json → List Char
  | .null => ['n', 'u', 'l', 'l']
  | .bool true => ['t', 'r', 'u', 'e']
  | .bool false => ['f', 'a', 'l', 's', 'e']
  | .number n => n.text.toList
  | .string s => stringText s
  | .array items => '[' :: itemChars items ++ [']']
  | .object members => '\x7b' :: memberChars members ++ ['\x7d']

def itemChars : List Json → List Char
  | [] => []
  | [item] => chars item
  | item :: rest => chars item ++ ',' :: itemChars rest

def memberChars : List (String × Json) → List Char
  | [] => []
  | [(key, value)] => stringText key ++ ':' :: chars value
  | (key, value) :: rest => stringText key ++ ':' :: chars value ++ ',' :: memberChars rest

end

def text (value : Json) : String :=
  String.ofList (chars value)

end Json

end Disclosure
