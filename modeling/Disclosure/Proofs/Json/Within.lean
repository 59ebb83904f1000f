import Disclosure.Json.Reader
import Disclosure.Proofs.Json.Leaf

/-! How deep a document nests and which numbers it holds.

The reader takes whole numbers of 64 bits and allows so many containers within each other;
what it gives keeps to both (`Reader.value_within`), and so does the value that a node holds
(`Node.within_of_value`). -/
namespace Disclosure

/-- The negative numbers that are read. -/
def Number.InRange : Number → Prop
  | .negative n => n < Nat.pow 2 63
  | _ => True

/-- The numbers that are read and are no doubles. -/
def Number.Whole : Number → Prop
  | .double _ => False
  | n => n.InRange

namespace Json

namespace Node

mutual

/-- At most `depth` containers stand within each other, and every number is as asked. -/
def Within (P : Number → Prop) (depth : Nat) : Node → Prop
  | .number n => P n
  | .array items _ => 0 < depth ∧ ItemsWithin P (depth - 1) items
  | .object members _ => 0 < depth ∧ MembersWithin P (depth - 1) members
  | _ => True

def ItemsWithin (P : Number → Prop) (depth : Nat) : List Node → Prop
  | [] => True
  | node :: rest => Within P depth node ∧ ItemsWithin P depth rest

def MembersWithin (P : Number → Prop) (depth : Nat) : List (Key × Node) → Prop
  | [] => True
  | (_, node) :: rest => Within P depth node ∧ MembersWithin P depth rest

end

variable {P : Number → Prop} {depth : Nat}

theorem itemsWithin_iff {items : List Node} :
    ItemsWithin P depth items ↔ ∀ node ∈ items, node.Within P depth := by
  induction items with
  | nil => simp [ItemsWithin]
  | cons node rest ih => simp [ItemsWithin, ih]

theorem membersWithin_iff {members : List (Key × Node)} :
    MembersWithin P depth members ↔ ∀ m ∈ members, m.2.Within P depth := by
  induction members with
  | nil => simp [MembersWithin]
  | cons m rest ih => simp [MembersWithin, ih]

/-- The nodes of a container's members or items. -/
def parts : Node → List Node
  | .object members _ => members.map (·.2)
  | .array items _ => items
  | _ => []

theorem Within.part {node part : Node} (h : node.Within P depth) (hpart : part ∈ node.parts) :
    part.Within P (depth - 1) := by
  cases node with
  | array items ending => exact itemsWithin_iff.mp h.2 part hpart
  | object members ending =>
    obtain ⟨m, hm, rfl⟩ := List.mem_map.mp hpart
    exact membersWithin_iff.mp h.2 m hm
  | _ => cases hpart

/-! ### The value of a node -/

theorem membersWithin_ofMembers_iff {members : List (String × Json)} :
    MembersWithin P depth (ofMembers members) ↔ ∀ m ∈ members, (ofJson m.2).Within P depth := by
  induction members with
  | nil => simp [MembersWithin, ofMembers]
  | cons m rest ih => simp [MembersWithin, ofMembers, ih]

mutual

theorem within_of_value : (node : Node) → {depth : Nat} → {v : Json} → node.value = .ok v →
    node.Within P depth → (ofJson v).Within P depth
  | .null, _, _, hv, h => by cases hv; exact h
  | .bool _, _, _, hv, h => by cases hv; exact h
  | .number _, _, _, hv, h => by cases hv; exact h
  | .string _, _, _, hv, h => by cases hv; exact h
  | .flawed _, _, _, hv, _ => by cases hv
  | .array items ending, depth, v, hv, h => by
    rw [value] at hv
    cases hitems : itemValues items with
    | error fault => rw [hitems] at hv; cases hv
    | ok values =>
      rw [hitems] at hv
      cases ending with
      | some fault => cases hv
      | none =>
        cases hv
        exact ⟨h.1, itemsWithin_of_values items hitems h.2⟩
  | .object members ending, depth, v, hv, h => by
    rw [value] at hv
    cases hmembers : memberValues members with
    | error fault => rw [hmembers] at hv; cases hv
    | ok values =>
      rw [hmembers] at hv
      cases ending with
      | some fault => cases hv
      | none =>
        cases hv
        -- Putting members in key order keeps or drops each of them.
        refine ⟨h.1, membersWithin_ofMembers_iff.mpr fun m hm => ?_⟩
        exact memberWithin_of_values members hmembers h.2 m (Keyed.mem_of_mem_ofList hm)

theorem itemsWithin_of_values : (items : List Node) →
    {depth : Nat} → {vs : List Json} → itemValues items = .ok vs →
    ItemsWithin P depth items → ItemsWithin P depth (ofItems vs)
  | [], _, _, hvs, _ => by cases hvs; trivial
  | node :: rest, depth, vs, hvs, h => by
    rw [itemValues] at hvs
    cases hnode : node.value with
    | error fault => rw [hnode] at hvs; cases hvs
    | ok v =>
      rw [hnode] at hvs
      cases hrest : itemValues rest with
      | error fault => rw [hrest] at hvs; cases hvs
      | ok others =>
        rw [hrest] at hvs
        cases hvs
        exact ⟨within_of_value node hnode h.1, itemsWithin_of_values rest hrest h.2⟩

theorem memberWithin_of_values : (members : List (Key × Node)) →
    {depth : Nat} → {vs : List (String × Json)} →
    memberValues members = .ok vs → MembersWithin P depth members →
    ∀ m ∈ vs, (ofJson m.2).Within P depth
  | [], _, _, hvs, _ => by cases hvs; nofun
  | (.error _, _) :: _, _, _, hvs, _ => by cases hvs
  | (.ok key, node) :: rest, depth, vs, hvs, h => by
    rw [memberValues] at hvs
    cases hnode : node.value with
    | error fault => rw [hnode] at hvs; cases hvs
    | ok v =>
      rw [hnode] at hvs
      cases hrest : memberValues rest with
      | error fault => rw [hrest] at hvs; cases hvs
      | ok others =>
        rw [hrest] at hvs
        cases hvs
        intro m hm
        rcases List.mem_cons.mp hm with rfl | hm
        · exact within_of_value node hnode h.1
        · exact memberWithin_of_values rest hrest h.2 m hm

end

end Node

/-! ### Values without doubles -/

/-- None of the leaves is a double. -/
def DoubleFree (leaves : List (Place × Json)) : Prop :=
  ∀ leaf ∈ leaves, ∀ x, leaf.2 ≠ .number (.double x)

theorem doubleFree_cons_iff {segment : Segment} {first rest : List (Place × Json)} :
    DoubleFree (first.map (under segment) ++ rest) ↔ DoubleFree first ∧ DoubleFree rest := by
  unfold DoubleFree
  rw [List.forall_mem_append, List.forall_mem_map]
  rfl

mutual

/-- Without doubles the numbers that are read are whole. -/
theorem whole_of_doubleFree : (v : Json) → {depth : Nat} → (Node.ofJson v).Within Number.InRange depth →
    DoubleFree v.leaves → (Node.ofJson v).Within Number.Whole depth
  | .null, _, _, _ => trivial
  | .bool _, _, _, _ => trivial
  | .number (.natural _), _, _, _ => trivial
  | .number (.negative _), _, h, _ => h
  | .number (.double x), _, _, hfree => hfree _ List.mem_cons_self x rfl
  | .string _, _, _, _ => trivial
  | .array items, _, h, hfree => ⟨h.1, itemsWhole_of_doubleFree 0 items h.2 hfree⟩
  | .object members, _, h, hfree => ⟨h.1, membersWhole_of_doubleFree members h.2 hfree⟩

theorem itemsWhole_of_doubleFree (index : Nat) : (items : List Json) → {depth : Nat} →
    Node.ItemsWithin Number.InRange depth (Node.ofItems items) → DoubleFree (itemLeaves index items) →
    Node.ItemsWithin Number.Whole depth (Node.ofItems items)
  | [], _, _, _ => trivial
  | item :: rest, _, h, hfree =>
    have ⟨hitem, hrest⟩ := doubleFree_cons_iff.mp hfree
    ⟨whole_of_doubleFree item h.1 hitem, itemsWhole_of_doubleFree (index + 1) rest h.2 hrest⟩

theorem membersWhole_of_doubleFree : (members : List (String × Json)) → {depth : Nat} →
    Node.MembersWithin Number.InRange depth (Node.ofMembers members) → DoubleFree (memberLeaves members) →
    Node.MembersWithin Number.Whole depth (Node.ofMembers members)
  | [], _, _, _ => trivial
  | (_, member) :: rest, _, h, hfree =>
    have ⟨hmember, hrest⟩ := doubleFree_cons_iff.mp hfree
    ⟨whole_of_doubleFree member h.1 hmember, membersWhole_of_doubleFree rest h.2 hrest⟩

end

/-! ### What the reader gives -/

namespace Reader
open Node (Within ItemsWithin MembersWithin)

theorem inRange_of_numberOf {negative : Bool} {whole : List Char} {fraction : Option (List Char)}
    {exponent : Option Int} {n : Number}
    (h : numberOf negative whole fraction exponent = some n) : n.InRange := by
  unfold numberOf at h
  dsimp only at h
  split at h
  · rename_i hwhole
    obtain ⟨_, _, _, hsign⟩ := hwhole
    cases negative with
    | false =>
      cases h
      trivial
    | true =>
      cases h
      obtain ⟨hpos, hle⟩ := hsign.resolve_left nofun
      have hpos63 : 0 < Nat.pow 2 63 := by decide
      show _ - 1 < Nat.pow 2 63
      omega
  · obtain ⟨x, _, rfl⟩ := Option.map_eq_some_iff.mp h
    trivial

variable {depth : Nat}

theorem numberNode_within {made : Option Number} (h : ∀ n, made = some n → n.InRange) (rest : List Char) :
    (numberNode made rest).1.Within Number.InRange depth := by
  cases made with
  | none => trivial
  | some n => exact h n rfl

theorem exponentPart_within {make : Option Int → Option Number} (h : ∀ e n, make e = some n → n.InRange)
    (rest : List Char) : (exponentPart make rest).1.Within Number.InRange depth := by
  unfold exponentPart
  dsimp only
  split
  · trivial
  · exact numberNode_within (h _) _

theorem afterWhole_within (negative : Bool) (whole rest : List Char) :
    (afterWhole negative whole rest).1.Within Number.InRange depth := by
  have hrange : ∀ fraction e n, numberOf negative whole fraction e = some n → n.InRange :=
    fun _ _ _ => inRange_of_numberOf
  unfold afterWhole
  split
  · split
    · trivial
    · split
      · split
        · exact exponentPart_within (hrange _) _
        · exact numberNode_within (hrange _ _) _
      · exact numberNode_within (hrange _ _) _
  · split
    · exact exponentPart_within (hrange _) _
    · exact numberNode_within (hrange _ _) _
  · exact numberNode_within (hrange _ _) _

theorem number_within (negative : Bool) (cs : List Char) :
    (number negative cs).1.Within Number.InRange depth := by
  unfold number
  split
  · trivial
  · trivial
  · exact afterWhole_within negative _ _

theorem literal_within {node : Node} (h : node.Within Number.InRange depth) (name cs : List Char) :
    (literal node name cs).1.Within Number.InRange depth := by
  induction name generalizing cs with
  | nil => exact h
  | cons c name ih =>
    cases cs with
    | nil => trivial
    | cons d rest =>
      rw [literal]
      split
      · exact ih rest
      · trivial

/-- A container beyond the limit is flawed, so only those within it count. -/
theorem limit_within {node : Node} (h : 0 < depth → node.Within Number.InRange depth) :
    (limit depth node).Within Number.InRange depth := by
  unfold limit
  split
  · trivial
  · exact h (by omega)

/-- What one unit more of fuel reads is within the limits if what is read with less is. -/
theorem value_within_succ {fuel : Nat}
    (hitems : ∀ depth cs, ItemsWithin Number.InRange depth (items fuel depth cs).1)
    (hmembers : ∀ depth cs, MembersWithin Number.InRange depth (members fuel depth cs).1) (cs : List Char) :
    (value (fuel + 1) depth cs).1.Within Number.InRange depth := by
  rw [value]
  split
  · trivial
  · exact literal_within (by trivial) _ _
  · exact literal_within (by trivial) _ _
  · exact literal_within (by trivial) _ _
  · exact number_within true _
  · split <;> trivial
  · split
    · exact limit_within fun h => ⟨h, trivial⟩
    · exact limit_within fun h => ⟨h, trivial⟩
    · exact limit_within fun h => ⟨h, hitems _ _⟩
  · split
    · exact limit_within fun h => ⟨h, trivial⟩
    · exact limit_within fun h => ⟨h, trivial⟩
    · exact limit_within fun h => ⟨h, hmembers _ _⟩
  · split
    · exact number_within false _
    · trivial

/-- **What is read keeps to the depth and to the numbers.** -/
theorem read_within (fuel : Nat) : ∀ depth cs,
    (value fuel depth cs).1.Within Number.InRange depth ∧
      ItemsWithin Number.InRange depth (items fuel depth cs).1 ∧
      MembersWithin Number.InRange depth (members fuel depth cs).1 := by
  induction fuel with
  | zero => exact fun _ _ => ⟨trivial, trivial, trivial⟩
  | succ fuel ih =>
    intro depth cs
    have hvalue : ∀ cs, (value fuel depth cs).1.Within Number.InRange depth := fun cs => (ih depth cs).1
    refine ⟨value_within_succ (fun _ _ => (ih _ _).2.1) (fun _ _ => (ih _ _).2.2) cs, ?_, ?_⟩
    · have hnode := hvalue cs
      rw [items]
      cases hread : value fuel depth cs with
      | mk node rest =>
        rw [hread] at hnode
        cases rest with
        | none => exact ⟨hnode, trivial⟩
        | some rest =>
          dsimp only
          split
          · exact ⟨hnode, trivial⟩
          · exact ⟨hnode, trivial⟩
          · exact ⟨hnode, (ih _ _).2.1⟩
          · exact ⟨hnode, trivial⟩
    · rw [members]
      split
      · trivial
      · split
        · exact ⟨trivial, trivial⟩
        · split
          · exact ⟨trivial, trivial⟩
          · rename_i rest _
            have hnode := hvalue rest
            cases hread : value fuel depth rest with
            | mk node rest =>
              rw [hread] at hnode
              cases rest with
              | none => exact ⟨hnode, trivial⟩
              | some rest =>
                dsimp only
                split
                · exact ⟨hnode, trivial⟩
                · exact ⟨hnode, trivial⟩
                · exact ⟨hnode, (ih _ _).2.2⟩
                · exact ⟨hnode, trivial⟩
          · exact ⟨trivial, trivial⟩
      · trivial

end Reader

theorem Document.within_ofText (text : List Char) :
    (Document.ofText text).root.Within Number.InRange Reader.maxDepth := by
  have h := (Reader.read_within (2 * text.length + 2) Reader.maxDepth text).1
  unfold Document.ofText
  split <;> rename_i hread <;> rwa [hread] at h

end Json
end Disclosure
