import Disclosure.Bytes.Sha256
import Disclosure.Error

/-! The scalar field of BN254: numbers read into it, and hashing into it.

An `Element` is a residue below the field's order. Each reader accepts exactly the numbers
below the order and refuses the others; only a digest or key material is reduced. -/
namespace Disclosure.Field

/-- The order of the scalar field. -/
def order : Nat :=
  21888242871839275222246405745257275088548364400416034343698204186575808495617

theorem order_pos : 0 < order := by decide

instance : @NeZero Nat Zero.ofOfNat0 order := ⟨Nat.ne_of_gt order_pos⟩

abbrev Element := Fin order

def Element.reduce (n : Nat) : Element :=
  Fin.ofNat order n

/-- The 32-byte big-endian form of an element. -/
def Element.bytes (e : Element) : Bytes :=
  Bytes.toBigEndian 32 e.val

def hashBytes (message : Bytes) : Element :=
  .reduce (Bytes.ofBigEndian (Sha256.digest message))

def hashText (text : String) : Element :=
  hashBytes text.toUTF8.data.toList

/-- The two-to-one compression of leaves and inner nodes. -/
def hashPair (left right : Element) : Element :=
  hashBytes (left.bytes ++ right.bytes)

/-! ### Readers -/

/-- Refuses numbers at or above the order. -/
def check (n : Nat) : Except Error Unit :=
  if n < order then .ok () else .error (.invalidElement (.outOfField n))

def toElement (n : Nat) : Except Error Element :=
  if h : n < order then .ok ⟨n, h⟩ else .error (.invalidElement (.outOfField n))

/-- The number of a big-endian byte string. -/
def ofBytes (bytes : Bytes) : Except Error Nat := do
  let n := Bytes.ofBigEndian bytes
  check n
  .ok n

/-- The number of a decimal numeral. -/
def ofDecimal (text : String) : Except Error Nat := do
  let n ← (Decimal.read text).mapError fun fault => .invalidElement (.notNumeral text fault)
  check n
  .ok n

end Disclosure.Field
