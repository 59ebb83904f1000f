import Disclosure.Json.Basic
import Disclosure.Proofs.Bytes.Hex
import Disclosure.Proofs.Json.Within
import Disclosure.Proofs.Text.Numeral
import Mathlib.Data.List.TakeDrop

/-! Reading back what is printed.

A printed value is read as the node of that value, and what follows it is left, as long as
its numbers are whole and it nests within the limit (`Reader.value_chars`). So a value's text
holds the value and nothing else (`Document.ofText_chars`). -/
namespace Disclosure.Json

namespace Reader
open Node (ofJson ofItems ofMembers Within ItemsWithin MembersWithin)

variable {depth fuel : Nat} {rest : List Char}

/-! ### Strings -/

/-- The characters below the space are escaped by their code. -/
theorem stringTail_code (p : Progress) (rest : List Char)
    {high low : Nat} (hhigh : high < 16) (hlow : low < 16) :
    stringTail p .plain (['\\', 'u', '0', '0', Hex.digit high, Hex.digit low] ++ rest) =
      stringTail (p.pushUnit (16 * high + low)) .plain rest := by
  show stringTail p (.unicode 2 0) (Hex.digit high :: Hex.digit low :: rest) = _
  rw [stringTail, Hex.digit?_digit hhigh]
  show stringTail p (.unicode 3 (16 * 0 + high)) (Hex.digit low :: rest) = _
  rw [stringTail, Hex.digit?_digit hlow, Nat.mul_zero, Nat.zero_add]
  rfl

theorem pushUnit_of_control (read : List Char) {c : Char} (h : c.toNat < 0x20) :
    Progress.pushUnit ⟨read, none, none⟩ c.toNat = ⟨c :: read, none, none⟩ := by
  have hleading : isLeading c.toNat = false := decide_eq_false (by omega)
  have htrailing : isTrailing c.toNat = false := decide_eq_false (by omega)
  unfold Progress.pushUnit
  simp [hleading, htrailing]

/-- A character is escaped by a letter or by its code, or it is written as it is. -/
theorem escapeChar_cases (c : Char) :
    (∃ letter, escapeChar c = ['\\', letter] ∧ letter ≠ 'u' ∧ escaped? letter = some c) ∨
    (c.toNat < 0x20 ∧
      escapeChar c = ['\\', 'u', '0', '0', Hex.digit (c.toNat / 16), Hex.digit (c.toNat % 16)]) ∨
    (c ≠ '"' ∧ c ≠ '\\' ∧ ¬ c.toNat < 0x20 ∧ escapeChar c = [c]) := by
  unfold escapeChar
  by_cases hquote : c = '"'
  · exact .inl ⟨'"', if_pos hquote, by decide, by rw [hquote]; rfl⟩
  rw [if_neg hquote]
  by_cases hslash : c = '\\'
  · exact .inl ⟨'\\', if_pos hslash, by decide, by rw [hslash]; rfl⟩
  rw [if_neg hslash]
  iterate 5
    split
    · rename_i hc
      exact .inl ⟨_, rfl, by decide, hc ▸ rfl⟩
  split
  · rename_i hcontrol
    exact .inr (.inl ⟨hcontrol, rfl⟩)
  · rename_i hplain
    exact .inr (.inr ⟨hquote, hslash, hplain, rfl⟩)

theorem stringTail_escapeChar (read : List Char) (c : Char) :
    stringTail ⟨read, none, none⟩ .plain (escapeChar c ++ rest) =
      stringTail ⟨c :: read, none, none⟩ .plain rest := by
  rcases escapeChar_cases c with ⟨letter, hescape, hletter, hc⟩ | ⟨hcontrol, hescape⟩ |
    ⟨hquote, hslash, hplain, hescape⟩
  · rw [hescape]
    show stringTail ⟨read, none, none⟩ .backslash (letter :: rest) = _
    rw [stringTail, if_neg hletter, hc]
    rfl
  · have hcode := stringTail_code ⟨read, none, none⟩ rest (show c.toNat / 16 < 16 by omega)
      (Nat.mod_lt c.toNat (by decide : 16 > 0))
    rw [Nat.div_add_mod, pushUnit_of_control read hcontrol] at hcode
    rw [hescape, hcode]
  · rw [hescape, List.singleton_append, stringTail, if_neg hquote, if_neg hslash, if_neg hplain]
    rfl

theorem stringTail_flatMap (read cs : List Char) :
    stringTail ⟨read, none, none⟩ .plain (cs.flatMap escapeChar ++ '"' :: rest) =
      (.ok (String.ofList (read.reverse ++ cs)), some rest) := by
  induction cs generalizing read with
  | nil =>
    rw [List.append_nil]
    rfl
  | cons c cs ih =>
    rw [List.flatMap_cons, List.append_assoc, stringTail_escapeChar, ih, List.reverse_cons, List.append_assoc]
    rfl

/-- A printed string is read after its opening quote. -/
theorem string_flatMap (s : String) (rest : List Char) :
    string (s.toList.flatMap escapeChar ++ '"' :: rest) = (.ok s, some rest) := by
  rw [string, stringTail_flatMap, List.reverse_nil, List.nil_append, String.ofList_toList]

/-! ### Numbers -/

/-- What may follow a value in a printed text. -/
def Delimited (rest : List Char) : Prop :=
  ∀ c ∈ rest.head?, c = ',' ∨ c = ']' ∨ c = '\x7d'

theorem delimited_cons {c : Char} (h : c = ',' ∨ c = ']' ∨ c = '\x7d')
    (rest : List Char) : Delimited (c :: rest) := by
  rintro _ ⟨⟩
  exact h

theorem digits_append {ds : List Char} (hds : ∀ c ∈ ds, c.isDigit = true) (hrest : Delimited rest) :
    digits (ds ++ rest) = (ds, rest) := by
  have hstop : rest.takeWhile Char.isDigit = [] ∧ rest.dropWhile Char.isDigit = rest := by
    cases rest with
    | nil => exact ⟨rfl, rfl⟩
    | cons c tail => obtain rfl | rfl | rfl := hrest c rfl <;> exact ⟨rfl, rfl⟩
  rw [digits, List.span_eq_takeWhile_dropWhile, List.takeWhile_append_of_pos hds,
    List.dropWhile_append_of_pos hds, hstop.1, hstop.2, List.append_nil]

/-- Digits are taken into the significand as long as the whole number fits. -/
theorem accumulate_eq {ds : List Char} {significand : Nat}
    (h : Nat.ofDigitChars 10 ds significand < UInt64.size) :
    accumulate significand ds = (Nat.ofDigitChars 10 ds significand, []) := by
  induction ds generalizing significand with
  | nil => rfl
  | cons c ds ih =>
    rw [Nat.ofDigitChars_cons] at h ⊢
    have hle : 10 * significand + (c.toNat - '0'.toNat) ≤
        Nat.ofDigitChars 10 ds (10 * significand + (c.toNat - '0'.toNat)) := by
      rw [Nat.ofDigitChars_eq_ofDigitChars_zero]
      exact Nat.le_add_right_of_le (Nat.le_mul_of_pos_left _ (Nat.pow_pos (by decide)))
    rw [accumulate, if_pos (Nat.lt_of_le_of_lt hle h), ih h]

theorem numberOf_natural {n : Nat} (h : n < UInt64.size) :
    numberOf false (Nat.toDigits 10 n) none none = some (.natural (UInt64.ofNat n)) := by
  have hread := Nat.ofDigitChars_ten_toDigits (n := n)
  rw [numberOf, accumulate_eq (by rw [hread]; exact h), hread]
  rfl

theorem numberOf_negative {n : Nat} (h : n < Nat.pow 2 63) :
    numberOf true (Nat.toDigits 10 (n + 1)) none none = some (.negative n) := by
  have hfits : n + 1 < UInt64.size := by
    have hsize : Nat.pow 2 63 < UInt64.size := by decide
    omega
  have hread := Nat.ofDigitChars_ten_toDigits (n := n + 1)
  rw [numberOf, accumulate_eq (by rw [hread]; exact hfits), hread]
  dsimp only
  rw [if_pos ⟨rfl, rfl, rfl, .inr ⟨Nat.succ_pos n, h⟩⟩]
  rfl

/-- A numeral is read up to its end. -/
theorem number_toDigits (negative : Bool) (n : Nat) (hrest : Delimited rest) :
    number negative (Nat.toDigits 10 n ++ rest) =
      numberNode (numberOf negative (Nat.toDigits 10 n) none none) rest := by
  have hend : ∀ whole, afterWhole negative whole rest =
      numberNode (numberOf negative whole none none) rest := by
    intro whole
    cases rest with
    | nil => rfl
    | cons c tail => obtain rfl | rfl | rfl := hrest c rfl <;> rfl
  rw [number, digits_append (fun c hc => Nat.isDigit_of_mem_toDigits (by decide) (by decide) hc) hrest]
  rcases Decimal.toDigits_head (n := n) with hzero | ⟨c, ds, hds, hne⟩
  · rw [hzero]
    exact hend _
  · rw [hds]
    split
    · rename_i heq
      cases heq
    · rename_i heq
      cases heq
      exact absurd rfl hne
    · rename_i heq
      cases heq
      exact hend _

/-! ### Values -/

theorem skipBlank_cons {c : Char} (h : isBlank c = false) (cs : List Char) : skipBlank (c :: cs) = c :: cs :=
  List.dropWhile_cons_of_neg (by rw [h]; decide)

theorem isBlank_of_isDigit {c : Char} (h : c.isDigit = true) : isBlank c = false := by
  refine decide_eq_false ?_
  rintro (rfl | rfl | rfl | rfl) <;> exact absurd h (by decide)

/-- A digit is the start of a number and of nothing else. -/
theorem value_of_isDigit {c : Char} (h : c.isDigit = true) (cs : List Char) :
    value (fuel + 1) depth (c :: cs) = number false (c :: cs) := by
  rw [value, skipBlank_cons (isBlank_of_isDigit h)]
  split <;> rename_i heq <;> cases heq
  all_goals first | rw [if_pos h] | exact absurd h (by decide)

theorem value_natural (n : UInt64) (hrest : Delimited rest) :
    value (fuel + 1) depth ((Number.natural n).text.toList ++ rest) = (.number (.natural n), some rest) := by
  have hread := number_toDigits false n.toNat hrest
  rw [numberOf_natural n.toNat_lt, UInt64.ofNat_toNat] at hread
  rw [Number.text, Decimal.write, Nat.toList_repr]
  cases hds : Nat.toDigits 10 n.toNat with
  | nil => exact absurd hds Nat.toDigits_ne_nil
  | cons c ds =>
    have hdigit : c.isDigit = true :=
      Nat.isDigit_of_mem_toDigits (by decide) (by decide) (hds ▸ List.mem_cons_self)
    rw [hds] at hread
    rw [List.cons_append, value_of_isDigit hdigit, ← List.cons_append, hread]
    rfl

theorem value_negative {n : Nat} (h : n < Nat.pow 2 63) (hrest : Delimited rest) :
    value (fuel + 1) depth ((Number.negative n).text.toList ++ rest) =
      (.number (.negative n), some rest) := by
  have hread := number_toDigits true (n + 1) hrest
  rw [numberOf_negative h] at hread
  rw [Number.text, String.toList_append, Decimal.write, Nat.toList_repr]
  show value (fuel + 1) depth ('-' :: (Nat.toDigits 10 (n + 1) ++ rest)) = _
  rw [value]
  exact hread

theorem value_string (s : String) :
    value (fuel + 1) depth (stringText s ++ rest) = (.string s, some rest) := by
  have hread := string_flatMap s rest
  rw [stringText, List.append_assoc]
  show value (fuel + 1) depth ('"' :: (s.toList.flatMap escapeChar ++ '"' :: rest)) = _
  rw [value, skipBlank_cons (by decide)]
  split <;> rename_i heq <;> cases heq
  · rw [hread]
  · contradiction

/-! ### Containers -/

section Containers
variable {cs more : List Char} {node : Node} {ending : Option Fault} {left : Option (List Char)}

theorem items_last (h : value fuel depth cs = (node, some (']' :: rest))) :
    items (fuel + 1) depth cs = ([node], none, some rest) := by
  rw [items, h]
  rfl

theorem items_more {nodes : List Node} (h : value fuel depth cs = (node, some (',' :: more)))
    (hmore : items fuel depth more = (nodes, ending, left)) :
    items (fuel + 1) depth cs = (node :: nodes, ending, left) := by
  rw [items, h]
  exact congrArg (fun read => (node :: read.1, read.2.1, read.2.2)) hmore

/-- The key of a member is read up to its value. -/
theorem members_key (key : String) (cs : List Char) :
    members (fuel + 1) depth (stringText key ++ ':' :: cs) =
      match value fuel depth cs with
      | (node, none) => ([(.ok key, node)], some .malformed, none)
      | (node, some rest) =>
        match skipBlank rest with
        | [] => ([(.ok key, node)], some .truncated, none)
        | '\x7d' :: rest => ([(.ok key, node)], none, some rest)
        | ',' :: rest =>
          let (nodes, ending, rest) := members fuel depth rest
          ((.ok key, node) :: nodes, ending, rest)
        | _ => ([(.ok key, node)], some .malformed, none) := by
  have hread := string_flatMap key (':' :: cs)
  rw [stringText, List.append_assoc]
  show members (fuel + 1) depth ('"' :: (key.toList.flatMap escapeChar ++ '"' :: ':' :: cs)) = _
  rw [members, skipBlank_cons (by decide)]
  split
  · rename_i heq
    cases heq
  · rename_i heq
    cases heq
    rw [hread]
    rfl
  · rename_i hopen
    exact absurd rfl (hopen _)

theorem members_last {key : String} (h : value fuel depth cs = (node, some ('\x7d' :: rest))) :
    members (fuel + 1) depth (stringText key ++ ':' :: cs) = ([(.ok key, node)], none, some rest) := by
  rw [members_key, h]
  rfl

theorem members_more {key : String} {nodes : List (Key × Node)}
    (h : value fuel depth cs = (node, some (',' :: more)))
    (hmore : members fuel depth more = (nodes, ending, left)) :
    members (fuel + 1) depth (stringText key ++ ':' :: cs) = ((.ok key, node) :: nodes, ending, left) := by
  rw [members_key, h]
  exact congrArg (fun read => ((.ok key, node) :: read.1, read.2.1, read.2.2)) hmore

/-- Within the limit a container is read. -/
theorem limit_of_pos (h : 0 < depth) (node : Node) : limit depth node = node :=
  if_neg (by omega)

theorem value_array {nodes : List Node} {c : Char}
    (hdepth : 0 < depth) (hblank : isBlank c = false) (hopen : c ≠ ']')
    (h : items fuel (depth - 1) (c :: cs) = (nodes, none, some rest)) :
    value (fuel + 1) depth ('[' :: c :: cs) = (.array nodes none, some rest) := by
  rw [value, skipBlank_cons (by decide)]
  split <;> rename_i heq <;> cases heq
  · rw [skipBlank_cons hblank]
    split
    · rename_i heq
      cases heq
    · rename_i heq
      cases heq
      exact absurd rfl hopen
    · rw [h]
      exact congrArg (·, some rest) (limit_of_pos hdepth _)
  · contradiction

theorem value_object {nodes : List (Key × Node)} (hdepth : 0 < depth)
    (h : members fuel (depth - 1) ('"' :: cs) = (nodes, none, some rest)) :
    value (fuel + 1) depth ('\x7b' :: '"' :: cs) = (.object nodes none, some rest) := by
  rw [value]
  exact (congrArg (fun read => (limit depth (.object read.1 read.2.1), read.2.2)) h).trans
    (congrArg (·, some rest) (limit_of_pos hdepth _))

end Containers

/-! ### Printed values -/

/-- A printed value starts with no blank, and not as the end of an array does. -/
theorem chars_head {v : Json} (h : (ofJson v).Within Number.Whole depth) :
    ∃ c cs, chars v = c :: cs ∧ isBlank c = false ∧ c ≠ ']' := by
  cases v with
  | null => exact ⟨_, _, rfl, by decide, by decide⟩
  | bool b => cases b <;> exact ⟨_, _, rfl, by decide, by decide⟩
  | number n =>
    cases n with
    | double x => exact False.elim h
    | negative n =>
      refine ⟨'-', (Decimal.write (n + 1)).toList, ?_, by decide, by decide⟩
      rw [chars, Number.text, String.toList_append]
      rfl
    | natural n =>
      cases hds : (Decimal.write n.toNat).toList with
      | nil => exact absurd hds (Decimal.write_ne_nil _)
      | cons c ds =>
        have hdigit : c.isDigit = true := Decimal.isDigit_of_mem_write (hds ▸ List.mem_cons_self)
        refine ⟨c, ds, hds, isBlank_of_isDigit hdigit, ?_⟩
        rintro rfl
        exact absurd hdigit (by decide)
  | string s => exact ⟨_, _, rfl, by decide, by decide⟩
  | array items => exact ⟨_, _, rfl, by decide, by decide⟩
  | object members => exact ⟨_, _, rfl, by decide, by decide⟩

/-- A unit of fuel, where enough is left for a value. -/
theorem exists_fuel {v : Json} (h : (ofJson v).Within Number.Whole depth)
    (hfuel : 2 * (chars v).length ≤ fuel) :
    ∃ less, fuel = less + 1 := by
  obtain ⟨c, cs, hhead, _⟩ := chars_head h
  rw [hhead, List.length_cons] at hfuel
  exact ⟨fuel - 1, by omega⟩

theorem itemChars_cons (item next : Json) (others : List Json) :
    itemChars (item :: next :: others) = chars item ++ ',' :: itemChars (next :: others) := rfl

theorem memberChars_cons (key : String) (member : Json)
    (next : String × Json) (others : List (String × Json)) :
    memberChars ((key, member) :: next :: others) =
      stringText key ++ ':' :: chars member ++ ',' :: memberChars (next :: others) := rfl

theorem itemChars_head {items : List Json}
    (h : ItemsWithin Number.Whole depth (ofItems items)) (hne : items ≠ []) :
    ∃ c cs, itemChars items = c :: cs ∧ isBlank c = false ∧ c ≠ ']' := by
  match items, hne with
  | [item], _ => exact chars_head h.1
  | item :: next :: others, _ =>
    obtain ⟨c, cs, hhead, hc⟩ := chars_head h.1
    exact ⟨c, cs ++ ',' :: itemChars (next :: others), by rw [itemChars_cons, hhead]; rfl, hc⟩

theorem memberChars_head {members : List (String × Json)} (hne : members ≠ []) :
    ∃ cs, memberChars members = '"' :: cs := by
  match members, hne with
  | [(key, member)], _ => exact ⟨_, rfl⟩
  | (key, member) :: next :: others, _ => exact ⟨_, rfl⟩

mutual

/-- **A printed value is read back**, and what follows it is left. The induction is on the
value, and two units of fuel for each character are enough. -/
theorem value_chars : (v : Json) → (rest : List Char) → {fuel depth : Nat} →
    (ofJson v).Within Number.Whole depth → 2 * (chars v).length ≤ fuel + 1 → Delimited rest →
    value (fuel + 1) depth (chars v ++ rest) = (ofJson v, some rest)
  | .null, _, _, _, _, _, _ => rfl
  | .bool true, _, _, _, _, _, _ => rfl
  | .bool false, _, _, _, _, _, _ => rfl
  | .number (.natural n), _, _, _, _, _, hrest => value_natural n hrest
  | .number (.negative _), _, _, _, h, _, hrest => value_negative h hrest
  | .string s, _, _, _, _, _, _ => value_string s
  | .array [], rest, _, _, h, _, _ => congrArg (·, some rest) (limit_of_pos h.1 (.array [] none))
  | .array (item :: others), rest, fuel, depth, h, hfuel, _ => by
    rw [chars, List.length_append, List.length_cons, List.length_singleton] at hfuel
    obtain ⟨less, rfl⟩ : ∃ less, fuel = less + 1 := ⟨fuel - 1, by omega⟩
    have hread := items_chars (item :: others) (List.cons_ne_nil _ _) rest h.2 (show _ ≤ less by omega)
    obtain ⟨c, cs, hhead, hblank, hopen⟩ := itemChars_head h.2 (List.cons_ne_nil _ _)
    rw [hhead] at hread
    rw [chars, hhead, List.append_assoc]
    exact value_array h.1 hblank hopen hread
  | .object [], rest, _, _, h, _, _ => congrArg (·, some rest) (limit_of_pos h.1 (.object [] none))
  | .object (m :: others), rest, fuel, depth, h, hfuel, _ => by
    rw [chars, List.length_append, List.length_cons, List.length_singleton] at hfuel
    obtain ⟨less, rfl⟩ : ∃ less, fuel = less + 1 := ⟨fuel - 1, by omega⟩
    have hread := members_chars (m :: others) (List.cons_ne_nil _ _) rest h.2 (show _ ≤ less by omega)
    obtain ⟨cs, hhead⟩ := memberChars_head (List.cons_ne_nil m others)
    rw [hhead] at hread
    rw [chars, hhead, List.append_assoc]
    exact value_object h.1 hread

theorem items_chars : (list : List Json) → list ≠ [] → (rest : List Char) → {fuel depth : Nat} →
    ItemsWithin Number.Whole depth (ofItems list) → 2 * (itemChars list).length ≤ fuel →
    items (fuel + 1) depth (itemChars list ++ ']' :: rest) = (ofItems list, none, some rest)
  | [item], _, rest, fuel, depth, h, hfuel => by
    obtain ⟨less, rfl⟩ := exists_fuel h.1 hfuel
    exact items_last (value_chars item _ h.1 hfuel (delimited_cons (.inr (.inl rfl)) rest))
  | item :: next :: others, _, rest, fuel, depth, h, hfuel => by
    rw [itemChars_cons, List.length_append, List.length_cons] at hfuel
    obtain ⟨less, rfl⟩ := exists_fuel h.1 (show _ ≤ fuel by omega)
    have hmore := items_chars (next :: others) (List.cons_ne_nil _ _) rest h.2 (show _ ≤ less by omega)
    rw [itemChars_cons, List.append_assoc]
    exact items_more (value_chars item _ h.1 (by omega) (delimited_cons (.inl rfl) _)) hmore

theorem members_chars : (list : List (String × Json)) →
    list ≠ [] → (rest : List Char) → {fuel depth : Nat} →
    MembersWithin Number.Whole depth (ofMembers list) → 2 * (memberChars list).length ≤ fuel →
    members (fuel + 1) depth (memberChars list ++ '\x7d' :: rest) = (ofMembers list, none, some rest)
  | [(key, member)], _, rest, fuel, depth, h, hfuel => by
    rw [memberChars, List.length_append, List.length_cons] at hfuel
    obtain ⟨less, rfl⟩ := exists_fuel h.1 (show _ ≤ fuel by omega)
    rw [memberChars, List.append_assoc]
    exact members_last (value_chars member _ h.1 (by omega) (delimited_cons (.inr (.inr rfl)) rest))
  | (key, member) :: next :: others, _, rest, fuel, depth, h, hfuel => by
    rw [memberChars_cons] at hfuel
    simp only [List.length_append, List.length_cons] at hfuel
    obtain ⟨less, rfl⟩ := exists_fuel h.1 (show _ ≤ fuel by omega)
    have hmore := members_chars (next :: others) (List.cons_ne_nil _ _) rest h.2 (show _ ≤ less by omega)
    rw [memberChars_cons, List.append_assoc, List.append_assoc]
    exact members_more (value_chars member _ h.1 (by omega) (delimited_cons (.inl rfl) _)) hmore

end

end Reader

/-- **The text of a value holds the value and nothing else.** -/
theorem Document.ofText_chars {v : Json} (h : (Node.ofJson v).Within Number.Whole Reader.maxDepth) :
    Document.ofText (chars v) = ⟨Node.ofJson v, false⟩ := by
  have hread := Reader.value_chars v [] h (Nat.le_add_right (2 * (chars v).length) 2) nofun
  rw [List.append_nil] at hread
  rw [Document.ofText, hread]
  rfl

end Disclosure.Json
