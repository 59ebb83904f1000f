import Disclosure.Bytes

/-! File paths.

A path is a string of bytes, and has a text when they are the UTF-8 of one. It is cut at
its slashes. Empty segments and `.` segments name nothing, except that a leading `.` or
slash is kept. `parent?` is what stands before the last name; `join` sets a relative path
under a directory. -/
namespace Disclosure

structure FilePath where
  bytes : Bytes
  deriving Repr, DecidableEq

namespace FilePath

def ofText (text : String) : FilePath :=
  ⟨text.toUTF8.data.toList⟩

/-- The text of a path, if it has one. -/
def text? (path : FilePath) : Option String :=
  String.fromUTF8? path.bytes.toByteArray

/-! ### Segments -/

def slash : UInt8 := 0x2f

def dot : UInt8 := 0x2e

def isRelative (path : FilePath) : Bool :=
  path.bytes.head? != some slash

/-- Cuts bytes at slashes. `done` holds the finished segments, last one first, and
`current` the reversed start of the segment being read. -/
def segmentsFrom (done : List Bytes) (current : Bytes) : Bytes → List Bytes
  | [] => current.reverse :: done
  | b :: rest =>
    if b = slash then segmentsFrom (current.reverse :: done) [] rest
    else segmentsFrom done (b :: current) rest

/-- The segments of a path, last one first. -/
def segments (path : FilePath) : List Bytes :=
  segmentsFrom [] [] path.bytes

/-- Drops the segments that name nothing from the end, keeping the leading one. -/
def trimEnd : List Bytes → List Bytes
  | [] => []
  | [first] => [first]
  | segment :: rest => if segment = [] ∨ segment = [dot] then trimEnd rest else segment :: rest

/-- The path of reversed segments. A lone empty segment is the root. -/
def ofSegments (segments : List Bytes) : FilePath :=
  if segments = [[]] then ⟨[slash]⟩ else ⟨[slash].intercalate segments.reverse⟩

/-- The directory a path lies in; the empty path for a bare name. -/
def parent? (path : FilePath) : Option FilePath :=
  match trimEnd path.segments with
  | [] => none
  | [name] => if name = [] then none else some ⟨[]⟩
  | _ :: rest => some (ofSegments (trimEnd rest))

def join (base path : FilePath) : FilePath :=
  if base.bytes = [] ∨ base.bytes.getLast? = some slash then ⟨base.bytes ++ path.bytes⟩
  else ⟨base.bytes ++ slash :: path.bytes⟩

/-! ### Display

A path without a text is displayed with one replacement character for each longest start
of a character that is not completed, and for each byte that starts none. -/

def replacement : Char := '\ufffd'

/-- A character of which some bytes are read: its number so far, and the ranges in which
the bytes to come have to lie. -/
structure Partial where
  code : Nat
  next : UInt8 × UInt8
  later : List (UInt8 × UInt8)

/-- The range of a byte that continues a character. -/
def tail : UInt8 × UInt8 := (0x80, 0xbf)

/-- What is shown once a first byte is read, and the character it starts. The range of the
second byte is narrower where the number would be too small, too large or a surrogate. -/
def start (b : UInt8) : List Char × Option Partial :=
  if b < 0x80 then ([Char.ofNat b.toNat], none)
  else if b < 0xc2 then ([replacement], none)
  else if b < 0xe0 then ([], some ⟨b.toNat % 32, tail, []⟩)
  else if b = 0xe0 then ([], some ⟨0, (0xa0, 0xbf), [tail]⟩)
  else if b = 0xed then ([], some ⟨13, (0x80, 0x9f), [tail]⟩)
  else if b < 0xf0 then ([], some ⟨b.toNat % 16, tail, [tail]⟩)
  else if b = 0xf0 then ([], some ⟨0, (0x90, 0xbf), [tail, tail]⟩)
  else if b < 0xf4 then ([], some ⟨b.toNat % 8, tail, [tail, tail]⟩)
  else if b = 0xf4 then ([], some ⟨4, (0x80, 0x8f), [tail, tail]⟩)
  else ([replacement], none)

/-- Reads one byte more. A byte that does not continue the character starts another. -/
def advance : Option Partial → UInt8 → List Char × Option Partial
  | none, b => start b
  | some ⟨code, (low, high), later⟩, b =>
    if low ≤ b ∧ b ≤ high then
      let code := 64 * code + b.toNat % 64
      match later with
      | [] => ([Char.ofNat code], none)
      | next :: later => ([], some ⟨code, next, later⟩)
    else
      let (cs, started) := start b
      (replacement :: cs, started)

/-- The characters of bytes, after the start of one if there is any. -/
def shown : Option Partial → Bytes → List Char
  | none, [] => []
  | some _, [] => [replacement]
  | started, b :: rest =>
    let (cs, started) := advance started b
    cs ++ shown started rest

def display (path : FilePath) : String :=
  path.text?.getD (String.ofList (shown none path.bytes))

end FilePath
end Disclosure
