import Disclosure.Bytes
import Disclosure.Json.Document

/-! Reading a text as a document.

The reader descends into containers and stops at the first fault; its result pairs
what was found with the text after it, or with `none` when the text ended in a fault.
A container nested deeper than 127 can be skipped but not read. A number must be in
the range of a double, and surrogate escapes must come in pairs, to be read; skipping
asks for neither. -/
namespace Disclosure.Json.Reader

def isBlank (c : Char) : Bool :=
  c = ' ' ∨ c = '\t' ∨ c = '\n' ∨ c = '\r'

def skipBlank (cs : List Char) : List Char :=
  cs.dropWhile isBlank

/-! ### Strings -/

def escaped? : Char → Option Char
  | '"' => some '"'
  | '\\' => some '\\'
  | '/' => some '/'
  | 'b' => some '\x08'
  | 'f' => some '\x0c'
  | 'n' => some '\n'
  | 'r' => some '\r'
  | 't' => some '\t'
  | _ => none

def isLeading (unit : Nat) : Bool :=
  0xd800 ≤ unit ∧ unit < 0xdc00

def isTrailing (unit : Nat) : Bool :=
  0xdc00 ≤ unit ∧ unit < 0xe000

def pairChar (leading trailing : Nat) : Char :=
  Char.ofNat (0x10000 + (leading - 0xd800) * 0x400 + (trailing - 0xdc00))

/-- Where the reading of a string stands: between characters, after a backslash, or
inside a `\u` escape with so many digits read. -/
inductive Mode
  | plain
  | backslash
  | unicode (digits unit : Nat)

/-- The characters read so far, last first; a leading surrogate that waits for its
other half; and the first fault of reading, which does not end the skipping. -/
structure Progress where
  chars : List Char
  leading : Option Nat
  flaw : Option Fault

namespace Progress

def spoil (p : Progress) : Progress :=
  { p with leading := none, flaw := p.flaw.or (some .malformed) }

/-- A waiting surrogate must be followed by the escape of its other half. -/
def settle (p : Progress) : Progress :=
  if p.leading.isSome then p.spoil else p

def push (p : Progress) (c : Char) : Progress :=
  { p.settle with chars := c :: p.chars }

def pushUnit (p : Progress) (unit : Nat) : Progress :=
  match p.leading with
  | some leading =>
    if isTrailing unit then { p with chars := pairChar leading unit :: p.chars, leading := none }
    else if isLeading unit then { p.spoil with leading := some unit }
    else p.spoil
  | none =>
    if isLeading unit then { p with leading := some unit }
    else if isTrailing unit then p.spoil
    else { p with chars := Char.ofNat unit :: p.chars }

def stop (p : Progress) (fault : Fault) : Key :=
  .error ⟨p.flaw.getD fault, some fault⟩

def finish (p : Progress) : Key :=
  match p.settle.flaw with
  | none => .ok (String.ofList p.chars.reverse)
  | some fault => .error ⟨fault, none⟩

end Progress

/-- Reads a string after its opening quote. A `\u` escape with fewer than four bytes of
text after it is cut short; otherwise a digit that is none is an error. -/
def stringTail (p : Progress) : Mode → List Char → Key × Option (List Char)
  | _, [] => (p.stop .truncated, none)
  | .plain, c :: rest =>
    if c = '"' then (p.finish, some rest)
    else if c = '\\' then stringTail p .backslash rest
    else if c.toNat < 0x20 then (p.settle.stop .malformed, none)
    else stringTail (p.push c) .plain rest
  | .backslash, c :: rest =>
    if c = 'u' then stringTail p (.unicode 0 0) rest
    else match escaped? c with
      | some d => stringTail (p.push d) .plain rest
      | none => (p.settle.stop .malformed, none)
  | .unicode digits unit, c :: rest =>
    match Hex.digit? c with
    | none =>
      let left := digits + (String.ofList (c :: rest)).utf8ByteSize
      (p.stop (if left < 4 then .truncated else .malformed), none)
    | some d =>
      if digits = 3 then stringTail (p.pushUnit (16 * unit + d)) .plain rest
      else stringTail p (.unicode (digits + 1) (16 * unit + d)) rest

def string (afterQuote : List Char) : Key × Option (List Char) :=
  stringTail ⟨[], none, none⟩ .plain afterQuote

/-! ### Numbers -/

/-- Leading digits are taken into the significand while it stays below `2^64`. -/
def accumulate (significand : Nat) : List Char → Nat × List Char
  | [] => (significand, [])
  | c :: rest =>
    let next := 10 * significand + (c.toNat - '0'.toNat)
    if next < UInt64.size then accumulate next rest else (significand, c :: rest)

/-- The number written with these digits. Digits before the point that no longer fit the
significand raise the exponent, digits after it that no longer fit are dropped. -/
def numberOf (negative : Bool) (whole : List Char) (fraction : Option (List Char))
    (exponent : Option Int) : Option Number :=
  let (significand, excess) := accumulate 0 whole
  if fraction = none ∧ exponent = none ∧ excess = [] ∧
      (negative = false ∨ 0 < significand ∧ significand ≤ Nat.pow 2 63) then
    some (if negative then .negative (significand - 1) else .natural (UInt64.ofNat significand))
  else
    let places := fraction.getD []
    let (significand, dropped) := accumulate significand places
    let shift : Int := excess.length - (places.length - dropped.length : Nat)
    (Binary64.ofScientific? negative significand (shift + exponent.getD 0)).map .double

def digits (cs : List Char) : List Char × List Char :=
  cs.span Char.isDigit

/-- A numeral that breaks off: reading sees the end of the text, skipping a missing digit. -/
def breakOff (rest : List Char) : Node × Option (List Char) :=
  (.flawed ⟨if rest = [] then .truncated else .malformed, some .malformed⟩, none)

def numberNode (value : Option Number) (rest : List Char) : Node × Option (List Char) :=
  match value with
  | some n => (.number n, some rest)
  | none => (.flawed ⟨.malformed, none⟩, some rest)

def exponentPart (make : Option Int → Option Number) (rest : List Char) :
    Node × Option (List Char) :=
  let (negative, rest) := match rest with
    | '-' :: rest => (true, rest)
    | '+' :: rest => (false, rest)
    | rest => (false, rest)
  match digits rest with
  | ([], rest) => breakOff rest
  | (ds, rest) =>
    let n : Int := Decimal.ofDigits ds
    numberNode (make (some (if negative then -n else n))) rest

def afterWhole (negative : Bool) (whole rest : List Char) : Node × Option (List Char) :=
  match rest with
  | '.' :: rest =>
    match digits rest with
    | ([], rest) => breakOff rest
    | (fraction, rest) =>
      match rest with
      | c :: tail =>
        if c = 'e' ∨ c = 'E' then exponentPart (numberOf negative whole (some fraction)) tail
        else numberNode (numberOf negative whole (some fraction) none) rest
      | [] => numberNode (numberOf negative whole (some fraction) none) rest
  | c :: tail =>
    if c = 'e' ∨ c = 'E' then exponentPart (numberOf negative whole none) tail
    else numberNode (numberOf negative whole none none) rest
  | [] => numberNode (numberOf negative whole none none) rest

/-- Reads a number after its sign. A zero is followed by no further digit. -/
def number (negative : Bool) (cs : List Char) : Node × Option (List Char) :=
  match digits cs with
  | ([], rest) => breakOff rest
  | ('0' :: _ :: _, _) => (.stuck .malformed, none)
  | (whole, rest) => afterWhole negative whole rest

/-! ### Values -/

/-- The rest of a literal name. -/
def literal (node : Node) : (name : List Char) → List Char → Node × Option (List Char)
  | [], rest => (node, some rest)
  | _ :: _, [] => (.stuck .truncated, none)
  | c :: name, d :: rest => if c = d then literal node name rest else (.stuck .malformed, none)

/-- A container beyond the depth limit can only be skipped. -/
def limit (depth : Nat) (node : Node) : Node :=
  if depth = 0 then .flawed ⟨.malformed, node.skip⟩ else node

mutual

/-- Reads one value with `depth` more containers allowed. Every two units of fuel cover
a character; running out of it counts as running out of text. -/
def value : (fuel depth : Nat) → List Char → Node × Option (List Char)
  | 0, _, _ => (.stuck .truncated, none)
  | fuel + 1, depth, cs =>
    match skipBlank cs with
    | [] => (.stuck .truncated, none)
    | 'n' :: rest => literal .null ['u', 'l', 'l'] rest
    | 't' :: rest => literal (.bool true) ['r', 'u', 'e'] rest
    | 'f' :: rest => literal (.bool false) ['a', 'l', 's', 'e'] rest
    | '-' :: rest => number true rest
    | '"' :: rest =>
      match string rest with
      | (.ok s, rest) => (.string s, rest)
      | (.error flaw, rest) => (.flawed flaw, rest)
    | '[' :: rest =>
      match skipBlank rest with
      | [] => (limit depth (.array [] (some .truncated)), none)
      | ']' :: rest => (limit depth (.array [] none), some rest)
      | rest =>
        let (items, ending, rest) := items fuel (depth - 1) rest
        (limit depth (.array items ending), rest)
    | '\x7b' :: rest =>
      match skipBlank rest with
      | [] => (limit depth (.object [] (some .truncated)), none)
      | '\x7d' :: rest => (limit depth (.object [] none), some rest)
      | rest =>
        let (members, ending, rest) := members fuel (depth - 1) rest
        (limit depth (.object members ending), rest)
    | c :: rest => if c.isDigit then number false (c :: rest) else (.stuck .malformed, none)

/-- Reads an item and those after it, through the closing bracket. -/
def items : (fuel depth : Nat) → List Char → List Node × Option Fault × Option (List Char)
  | 0, _, _ => ([], some .truncated, none)
  | fuel + 1, depth, cs =>
    match value fuel depth cs with
    | (node, none) => ([node], some .malformed, none)
    | (node, some rest) =>
      match skipBlank rest with
      | [] => ([node], some .truncated, none)
      | ']' :: rest => ([node], none, some rest)
      | ',' :: rest =>
        let (nodes, ending, rest) := items fuel depth rest
        (node :: nodes, ending, rest)
      | _ => ([node], some .malformed, none)

/-- Reads a member and those after it, through the closing brace. -/
def members : (fuel depth : Nat) → List Char →
    List (Key × Node) × Option Fault × Option (List Char)
  | 0, _, _ => ([], some .truncated, none)
  | fuel + 1, depth, cs =>
    match skipBlank cs with
    | [] => ([], some .truncated, none)
    | '"' :: rest =>
      match string rest with
      | (key, none) => ([(key, .stuck .malformed)], some .malformed, none)
      | (key, some rest) =>
        match skipBlank rest with
        | [] => ([(key, .stuck .truncated)], some .truncated, none)
        | ':' :: rest =>
          match value fuel depth rest with
          | (node, none) => ([(key, node)], some .malformed, none)
          | (node, some rest) =>
            match skipBlank rest with
            | [] => ([(key, node)], some .truncated, none)
            | '\x7d' :: rest => ([(key, node)], none, some rest)
            | ',' :: rest =>
              let (nodes, ending, rest) := members fuel depth rest
              ((key, node) :: nodes, ending, rest)
            | _ => ([(key, node)], some .malformed, none)
        | _ => ([(key, .stuck .malformed)], some .malformed, none)
    | _ => ([], some .malformed, none)

end

def maxDepth : Nat := 127

end Reader

/-- The document a text holds. -/
def Document.ofText (text : List Char) : Document :=
  match Reader.value (2 * text.length + 2) Reader.maxDepth text with
  | (root, none) => ⟨root, false⟩
  | (root, some rest) => ⟨root, !(Reader.skipBlank rest).isEmpty⟩

end Disclosure.Json
