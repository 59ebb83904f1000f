import Disclosure.Text

/-! Byte strings, as numbers and as hexadecimal text.

A byte string is a list of bytes. `ofBigEndian` and `ofLittleEndian` read one as
a number; `toLittleEndian` and `toBigEndian` write a number in a given width,
dropping what does not fit, and `minimalBigEndian` in as few bytes as it takes,
at least one.

`Hex.encode` writes two lower-case digits a byte. `Hex.decode` reads either case. It
refuses a text whose UTF-8 form has an odd number of bytes, and else names the first byte
of it that is no digit; `Hex.stripped` removes any number of leading `0x`. -/
namespace Disclosure

abbrev Bytes := List UInt8

namespace Bytes

def ofBigEndian (bytes : Bytes) : Nat :=
  bytes.foldl (fun n b => 256 * n + b.toNat) 0

def ofLittleEndian : Bytes → Nat
  | [] => 0
  | b :: rest => b.toNat + 256 * ofLittleEndian rest

def toLittleEndian : (width : Nat) → Nat → Bytes
  | 0, _ => []
  | width + 1, n => UInt8.ofNat n :: toLittleEndian width (n / 256)

def toBigEndian (width n : Nat) : Bytes :=
  (toLittleEndian width n).reverse

/-- The number of bytes a number takes; zero takes one. -/
def byteWidth (n : Nat) : Nat :=
  n.log2 / 8 + 1

def minimalBigEndian (n : Nat) : Bytes :=
  toBigEndian (byteWidth n) n

@[simp] theorem length_toLittleEndian (width n : Nat) : (toLittleEndian width n).length = width := by
  induction width generalizing n with
  | zero => rfl
  | succ width ih => simp [toLittleEndian, ih]

@[simp] theorem length_toBigEndian (width n : Nat) : (toBigEndian width n).length = width := by
  simp [toBigEndian]

end Bytes

/-! ### Hexadecimal text -/

namespace Hex

inductive Fault
  | oddLength
  | badByte (byte : UInt8) (position : Nat)
  deriving Repr, DecidableEq

/-- The byte is shown as the character of that code point. -/
def Fault.message : Fault → String
  | .oddLength => "Odd number of digits"
  | .badByte byte position =>
    s!"Invalid character {Quoted.char (Char.ofNat byte.toNat)} at position {position}"

def digit (n : Nat) : Char :=
  Nat.digitChar n

def encode (bytes : Bytes) : String :=
  String.ofList (bytes.flatMap fun b => [digit (b.toNat / 16), digit (b.toNat % 16)])

def digit? (c : Char) : Option Nat :=
  if c.isDigit then some (c.toNat - '0'.toNat)
  else if 'a' ≤ c ∧ c ≤ 'f' then some (c.toNat - 'a'.toNat + 10)
  else if 'A' ≤ c ∧ c ≤ 'F' then some (c.toNat - 'A'.toNat + 10)
  else none

def stripped : List Char → List Char
  | '0' :: 'x' :: rest => stripped rest
  | cs => cs

def leadByte (c : Char) : UInt8 :=
  (String.utf8EncodeChar c).headD 0

def digitAt (c : Char) (position : Nat) : Except Fault Nat :=
  match digit? c with
  | some n => .ok n
  | none => .error (.badByte (leadByte c) position)

/-- Reads pairs of digits, the first of them at `position`. -/
def pairs (position : Nat) : List Char → Except Fault Bytes
  | [] => .ok []
  | [c] => do
    let _ ← digitAt c position
    .error .oddLength
  | high :: low :: rest => do
    let h ← digitAt high position
    let l ← digitAt low (position + 1)
    let bytes ← pairs (position + 2) rest
    .ok (UInt8.ofNat (16 * h + l) :: bytes)

def decode (cs : List Char) : Except Fault Bytes :=
  if (String.ofList cs).utf8ByteSize % 2 = 1 then .error .oddLength else pairs 0 cs

end Hex

end Disclosure
