import Disclosure.Json.Decoder

/-! Signals: their reserved names, declarations and values.

Six names belong to the protocol. A signal of such a name takes its value from its
own material and from nothing else.

A declaration is `name`, or `name[N]` for an array of `N` elements. A name is an ASCII
identifier and `N` a positive number below `2^64` in decimal digits, leading zeros
allowed. `Declaration.text` writes the shortest form, which leaves out an arity of one.

A value is one number for a declaration of arity one, an array otherwise. -/
namespace Disclosure

inductive Reserved
  | holderPrivateKey
  | trusteePublicKeys
  | timestamp
  | credentialRoot
  | issuerPublicKey
  | issuerSignature
  deriving Repr, DecidableEq

namespace Reserved

def all : List Reserved :=
  [.holderPrivateKey, .trusteePublicKeys, .timestamp, .credentialRoot, .issuerPublicKey, .issuerSignature]

/-- The signal's name in a circuit. -/
def name : Reserved → String
  | .holderPrivateKey => "holderPrivateKey"
  | .trusteePublicKeys => "trusteePublicKeys"
  | .timestamp => "currentDate"
  | .credentialRoot => "credentialRoot"
  | .issuerPublicKey => "issuerPk"
  | .issuerSignature => "issuerSignature"

def ofName? (name : String) : Option Reserved :=
  all.find? (·.name = name)

end Reserved

/-- The public signal whose arity is the depth of the claims tree. -/
def claimsProofName : String := "claimsProof"

/-- The signal that carries the packed keys of the disclosed claims. -/
def claimsKeyName : String := "claimsKey"

/-! ### Declarations -/

structure Declaration where
  name : String
  arity : Nat
  deriving Repr, DecidableEq

namespace Declaration

def isScalar (d : Declaration) : Bool :=
  d.arity == 1

def text (d : Declaration) : String :=
  if d.isScalar then d.name else d.name ++ "[" ++ Decimal.write d.arity ++ "]"

def startsName (c : Char) : Bool :=
  c.isAlpha || c == '_'

def continuesName (c : Char) : Bool :=
  c.isAlphanum || c == '_'

def isIdentifier : List Char → Bool
  | [] => false
  | c :: rest => startsName c && rest.all continuesName

/-- Takes the closing bracket off the end. -/
def closing? (cs : List Char) : Option (List Char) :=
  if cs.getLast? = some ']' then some cs.dropLast else none

def readArity (digits : List Char) : Except DeclarationFault Nat :=
  if digits = [] ∨ ¬ digits.all Char.isDigit then .error .arityNotPositive
  else
    let arity := Decimal.ofDigits digits
    if arity = 0 then .error .arityNotPositive
    else if UInt64.size ≤ arity then .error .arityOutOfRange
    else .ok arity

/-- Cuts a declaration into its name and its arity. The name is everything before the
first opening bracket. -/
def split (cs : List Char) : Except DeclarationFault (List Char × Nat) :=
  match cs.span (· ≠ '[') with
  | (name, []) => if ']' ∈ name then .error .unmatchedBracket else .ok (name, 1)
  | (name, _ :: inner) =>
    match closing? inner with
    | none => .error .unclosedBracket
    | some digits => do .ok (name, ← readArity digits)

/-- The brackets are judged first, the name last. -/
def read (cs : List Char) : Except DeclarationFault Declaration := do
  let (name, arity) ← split cs
  if isIdentifier name then .ok ⟨String.ofList name, arity⟩ else .error .notIdentifier

def parse (source : String) : Except Error Declaration :=
  (read source.toList).mapError (.invalidDeclaration source)

def toJson (d : Declaration) : Json :=
  .string d.text

def decoder : Json.Decoder Declaration := fun node => do
  let source ← Json.Decoder.string node
  (read source.toList).mapError (.declaration source)

end Declaration

/-! ### Values -/

inductive SignalValue
  | scalar (n : Nat)
  | array (ns : List Nat)
  deriving Repr, DecidableEq

namespace SignalValue

/-- Shapes values as declared; there must be as many as the arity says. -/
def shaped (d : Declaration) (values : List Nat) : Except Error SignalValue :=
  if values.length ≠ d.arity then .error (.arityMismatch d.name d.arity values.length)
  else match values with
    | [n] => .ok (.scalar n)
    | ns => .ok (.array ns)

def elements : SignalValue → List Nat
  | .scalar n => [n]
  | .array ns => ns

def scalar? : SignalValue → Option Nat
  | .scalar n => some n
  | .array _ => none

def numeral (n : Nat) : Json :=
  .string (Decimal.write n)

/-- Numbers are written as decimal text. -/
def toJson : SignalValue → Json
  | .scalar n => numeral n
  | .array ns => .array (ns.map numeral)

end SignalValue

end Disclosure
