import Disclosure.Trustee

/-! Materials of the reserved signals.

A timestamp and the trustee keys are supplied, or come from a source that is consulted
when first needed. The text of materials tells what there is without showing keys.

A date is the number `YYYYMMDD`. A day is counted from the first of March of a leap
century, so that a leap day ends its year. -/
namespace Disclosure

/-- A lazy source. `answer n` is what it says, or how it fails, when consulted after `n`
earlier times. -/
structure Source (α : Type) where
  answer : Nat → Except String α

structure Materials where
  timestamp : Option UInt64 := none
  timestampSource : Option (Source UInt64) := none
  holderKey : Option Bytes := none
  trusteeKeys : Option (List TrusteeKey) := none
  trusteeKeySource : Option (Source (List TrusteeKey)) := none

/-! ### Text -/

/-- A value as it is described: a word, or one optional value. -/
inductive Shown
  | word (text : String)
  | present (text : String)

namespace Shown

def flag (b : Bool) : Shown :=
  .word (if b then "true" else "false")

def ofOption (text : α → String) : Option α → Shown
  | some a => .present (text a)
  | none => .word "None"

def line : Shown → String
  | .word text => text
  | .present text => "Some(" ++ text ++ ")"

/-- One field over several lines, indented by one step. -/
def lines : Shown → String
  | .word text => text
  | .present text => "Some(\n        " ++ text ++ ",\n    )"

end Shown

namespace Materials

def shown (m : Materials) : List (String × Shown) :=
  [("timestamp", .ofOption (fun t => Decimal.write t.toNat) m.timestamp),
   ("timestamp_source", .flag m.timestampSource.isSome),
   ("holder_private_key", .ofOption (fun _ => Quoted.text "<redacted>") m.holderKey),
   ("trustee_keys", .ofOption (fun keys => Decimal.write keys.length) m.trusteeKeys),
   ("trustee_key_source", .flag m.trusteeKeySource.isSome)]

def describe (m : Materials) : String :=
  "KnownMaterials \x7b " ++ ", ".intercalate (m.shown.map fun f => f.1 ++ ": " ++ f.2.line) ++ " \x7d"

/-- The description with a field a line. -/
def describeTall (m : Materials) : String :=
  "KnownMaterials \x7b\n" ++
    String.join (m.shown.map fun f => "    " ++ f.1 ++ ": " ++ f.2.lines ++ ",\n") ++ "\x7d"

end Materials

/-! ### Dates -/

namespace Calendar

/-- Days from the first of March of year zero to the first of January 1970. -/
def epochDay : Nat := 719468

/-- The date of a day after the first of January 1970, in the Gregorian calendar. -/
def dateNumber (day : Nat) : Nat :=
  let shifted := day + epochDay
  let cycle := shifted / 146097
  let dayOfCycle := shifted % 146097
  let yearOfCycle := (dayOfCycle - dayOfCycle / 1460 + dayOfCycle / 36524 - dayOfCycle / 146096) / 365
  let dayOfYear := dayOfCycle - (365 * yearOfCycle + yearOfCycle / 4 - yearOfCycle / 100)
  let march := (5 * dayOfYear + 2) / 153
  let dayOfMonth := dayOfYear - (153 * march + 2) / 5 + 1
  let month := if march < 10 then march + 3 else march - 9
  let year := cycle * 400 + yearOfCycle + if month ≤ 2 then 1 else 0
  year * 10000 + month * 100 + dayOfMonth

/-- The date at a number of seconds after the start of 1970. -/
def dateAt (seconds : Nat) : Nat :=
  dateNumber (seconds / 86400)

def isPlausible (date : Nat) : Bool :=
  20000101 < date ∧ date < 99991231 ∧ 1 ≤ date / 100 % 100 ∧ date / 100 % 100 ≤ 12 ∧
    1 ≤ date % 100 ∧ date % 100 ≤ 31

end Calendar

end Disclosure
