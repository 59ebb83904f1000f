import Disclosure.Policy

/-! Labels: a rule table as a user reads it.

A rule is headed by its group, or by the part of its key before the first dot, and the
rest is its leaf. Rules that share a key make one entry, under the heading of the first
of them; the entry shows the leaf of the rule that comes first by index, and the values
in that order. Headings, and the keys under one, come by first appearance. -/
namespace Disclosure

structure Label where
  heading : String
  entries : List String
  deriving Repr, DecidableEq

namespace Label

def line (label : Label) : String :=
  match label.entries with
  | [entry] =>
    if (label.heading ++ " = ").toList.isPrefixOf entry.toList then entry
    else label.heading ++ ": " ++ entry
  | entries => label.heading ++ ": " ++ ", ".intercalate entries

/-- Cuts a text at its first dot. -/
def cutDot? (text : String) : Option (String × String) :=
  match text.toList.span (· ≠ '.') with
  | (_, []) => none
  | (first, _ :: rest) => some (String.ofList first, String.ofList rest)

/-- The heading and the leaf of a rule. -/
def parts (rule : Rule) : String × String :=
  if rule.group = "" then (cutDot? rule.key).getD (rule.key, rule.key) else (rule.group, rule.key)

/-- Field elements are shown in decimal, other numbers as their bytes. -/
def valueText (value : Bytes) : String :=
  let n := Bytes.ofBigEndian value
  if n < Field.order then Decimal.write n else "0x" ++ Hex.encode value

/-- The rules that share a key, in table order. -/
structure Bundle where
  first : Rule
  others : List Rule

def Bundle.key (b : Bundle) : String :=
  b.first.key

def Bundle.rules (b : Bundle) : List Rule :=
  b.first :: b.others

/-- The bundles under one heading. -/
structure Group where
  heading : String
  bundles : List Bundle

/-- Adds a rule to the bundle of its key, if there is one. -/
def addToBundle (rule : Rule) : List Bundle → Option (List Bundle)
  | [] => none
  | b :: rest =>
    if b.key = rule.key then some ({ b with others := b.others ++ [rule] } :: rest)
    else (addToBundle rule rest).map (b :: ·)

def addToGroups (rule : Rule) : List Group → Option (List Group)
  | [] => none
  | g :: rest =>
    match addToBundle rule g.bundles with
    | some bundles => some ({ g with bundles } :: rest)
    | none => (addToGroups rule rest).map (g :: ·)

/-- Opens a bundle under a heading, which is opened last if there is none. -/
def openBundle (heading : String) (rule : Rule) : List Group → List Group
  | [] => [⟨heading, [⟨rule, []⟩]⟩]
  | g :: rest =>
    if g.heading = heading then { g with bundles := g.bundles ++ [⟨rule, []⟩] } :: rest
    else g :: openBundle heading rule rest

def add (groups : List Group) (rule : Rule) : List Group :=
  (addToGroups rule groups).getD (openBundle (parts rule).1 rule groups)

def Bundle.entry (b : Bundle) : String :=
  let rules := Policy.byIndex b.rules
  let leaf := (parts (rules.headD b.first)).2
  match rules.map fun rule => valueText rule.value with
  | [value] => leaf ++ " = " ++ value
  | values => leaf ++ " = [" ++ ", ".intercalate values ++ "]"

def Group.label (g : Group) : Label :=
  ⟨g.heading, g.bundles.map Bundle.entry⟩

def ofRules (rules : List Rule) : List Label :=
  (rules.foldl add []).map Group.label

end Label
end Disclosure
