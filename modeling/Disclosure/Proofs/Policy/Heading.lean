import Disclosure.Proofs.Policy.Display

/-! Entries of one rule.

An entry stands under the heading of the first rule of its key in the table, and shows the leaf
of the first one by index. These need not be the parts of any one rule. They are when the rules
of the key agree on how it is cut, and only then (`ofRules_keepsPairs_iff`). -/
namespace Disclosure.Label
open Policy (Binds rulesFor)

/-- Some rule of the key has the heading, and has the leaf that the entry shows before the values. -/
def OfOneRule (rules : List Rule) (heading key entry : String) : Prop :=
  ∃ rule ∈ rules, rule.key = key ∧ ∃ leaf values, Pair rule heading leaf ∧
    List.Forall₂ (fun rule value => Rendered rule.value value)
      (rulesFor rules key) values ∧ Line leaf values entry

/-- A label shows each key of a section with a leaf that belongs to the heading. -/
structure KeepsPairs (rules : List Rule) (s : Section) (label : Label) : Prop where
  heading : label.heading = s.1
  entries : List.Forall₂ (OfOneRule rules s.1) s.2 label.entries

/-- The rules of a key agree on how it is cut. -/
inductive Agrees (rules : List Rule) (key : String) : Prop
  | whole (hkey : '.' ∉ key.toList)
  /-- The first rule in the table and the first by index both have groups, or neither has. -/
  | alike {first lead : Rule} (hfirst : rules.find? (·.key = key) = some first)
      (hlead : (rulesFor rules key).head? = some lead) (h : first.group = "" ↔ lead.group = "")
  /-- The key stands under its own first segment, and a rule has that segment for its group. -/
  | segment {first rule : Rule} {rest : String} (hfirst : rules.find? (·.key = key) = some first)
      (hrule : rule ∈ rules) (hsame : rule.key = key)
      (hgroup : rule.group ≠ "") (hdot : '.' ∉ rule.group.toList)
      (hkey : key = rule.group ++ "." ++ rest) (hheading : first.group = "" ∨ first.group = rule.group)

/-! ### The rules of a key -/

section Key
variable {rules : List Rule} {first lead : Rule}
  {key heading entry leaf leaf' : String} {values : List String}

theorem mem_of_find? (h : rules.find? (·.key = key) = some first) : first ∈ rules ∧ first.key = key :=
  ⟨List.mem_of_find?_eq_some h,
    of_decide_eq_true (List.find?_some (p := fun rule : Rule => decide (rule.key = key)) h)⟩

theorem exists_pair_of_agrees (hfirst : rules.find? (·.key = key) = some first)
    (hlead : (rulesFor rules key).head? = some lead) (h : Agrees rules key) :
    ∃ rule ∈ rules, rule.key = key ∧ Pair rule (parts first).1 (parts lead).2 := by
  obtain ⟨hfirstMem, hfirstKey⟩ := mem_of_find? hfirst
  obtain ⟨hleadMem, hleadKey⟩ := Policy.mem_rulesFor.mp (List.mem_of_head? hlead)
  cases h with
  | whole hkey =>
    have hleaf : (parts lead).2 = (parts first).2 := by
      rw [leaf_of_whole (hleadKey ▸ hkey), leaf_of_whole (hfirstKey ▸ hkey), hleadKey, hfirstKey]
    exact ⟨first, hfirstMem, hfirstKey, hleaf ▸ pair_parts first⟩
  | alike hfirst' hlead' h =>
    obtain rfl := Option.some.inj (hfirst.symm.trans hfirst')
    obtain rfl := Option.some.inj (hlead.symm.trans hlead')
    have hleaf := leaf_congr (hfirstKey.trans hleadKey.symm) h
    exact ⟨first, hfirstMem, hfirstKey, hleaf ▸ pair_parts first⟩
  | @segment _ rule rest hfirst' hrule hsame hgroup hdot hkey hheading =>
    obtain rfl := Option.some.inj (hfirst.symm.trans hfirst')
    have hunder : (parts first).1 = rule.group := by
      by_cases hfirstGroup : first.group = ""
      · rw [parts_of_dotted hfirstGroup (hfirstKey.trans hkey) hdot]
      · rw [parts_of_group hfirstGroup]
        exact hheading.resolve_left hfirstGroup
    rw [hunder]
    by_cases hleadGroup : lead.group = ""
    · refine ⟨lead, hleadMem, hleadKey, pair_iff.mpr ?_⟩
      rw [parts_of_dotted hleadGroup (hleadKey.trans hkey) hdot]
    · refine ⟨rule, hrule, hsame, pair_iff.mpr ?_⟩
      rw [parts_of_group hleadGroup, parts_of_group hgroup, hsame, hleadKey]

/-- Where only one of the two has a group, the rule with both parts names the first segment. -/
theorem agrees_of_pair (hfirst : rules.find? (·.key = key) = some first)
    (hlead : (rulesFor rules key).head? = some lead)
    {rule : Rule} (hrule : rule ∈ rules) (hkey : rule.key = key)
    (h : Pair rule (parts first).1 (parts lead).2) : Agrees rules key := by
  obtain ⟨hfirstMem, hfirstKey⟩ := mem_of_find? hfirst
  have hleadKey := (Policy.mem_rulesFor.mp (List.mem_of_head? hlead)).2
  by_cases hdot : '.' ∈ key.toList
  swap
  · exact .whole hdot
  by_cases hboth : first.group = "" ↔ lead.group = ""
  · exact .alike hfirst hlead hboth
  obtain ⟨head, rest, hhead, hcut⟩ := exists_dotted hdot
  have hpair := pair_iff.mp h
  by_cases hfirstGroup : first.group = ""
  · have hleadGroup : lead.group ≠ "" := fun hlead => hboth ⟨fun _ => hlead, fun _ => hfirstGroup⟩
    rw [parts_of_dotted hfirstGroup (hfirstKey.trans hcut) hhead,
      parts_of_group hleadGroup, hleadKey] at hpair
    by_cases hgroup : rule.group = ""
    · rw [parts_of_dotted hgroup (hkey.trans hcut) hhead] at hpair
      exact absurd (Prod.mk.inj hpair).2 (rest_ne_key hcut)
    · rw [parts_of_group hgroup] at hpair
      obtain rfl : rule.group = head := (Prod.mk.inj hpair).1
      exact .segment hfirst hrule hkey hgroup hhead hcut (.inl hfirstGroup)
  · have hleadGroup : lead.group = "" := by
      by_contra hlead
      exact hboth ⟨fun h => absurd h hfirstGroup, fun h => absurd h hlead⟩
    rw [parts_of_group hfirstGroup, parts_of_dotted hleadGroup (hleadKey.trans hcut) hhead] at hpair
    by_cases hgroup : rule.group = ""
    · rw [parts_of_dotted hgroup (hkey.trans hcut) hhead] at hpair
      obtain rfl : head = first.group := (Prod.mk.inj hpair).1
      exact .segment hfirst hfirstMem hfirstKey hfirstGroup hhead hcut (.inr rfl)
    · rw [parts_of_group hgroup, hkey] at hpair
      exact absurd (Prod.mk.inj hpair).2.symm (rest_ne_key hcut)

theorem ofOneRule_iff (hline : Line leaf ((rulesFor rules key).map fun rule => valueText rule.value) entry) :
    OfOneRule rules heading key entry ↔ ∃ rule ∈ rules, rule.key = key ∧ Pair rule heading leaf := by
  constructor
  · rintro ⟨rule, hrule, hkey, shown, values, hpair, hvalues, hshown⟩
    rw [eq_values hvalues] at hshown
    exact ⟨rule, hrule, hkey, hline.leaf_eq hshown ▸ hpair⟩
  · rintro ⟨rule, hrule, hkey, hpair⟩
    exact ⟨rule, hrule, hkey, leaf, _, hpair, rendered_values _, hline⟩

end Key

/-- A label keeps the pairs of a section when all its entries do. -/
theorem keepsPairs_iff {rules : List Rule} {g : Group} :
    KeepsPairs rules (g.heading, g.bundles.map Bundle.key) g.label ↔
    ∀ b ∈ g.bundles, OfOneRule rules g.heading b.key b.entry := by
  have hentries : List.Forall₂ (OfOneRule rules g.heading)
      (g.bundles.map Bundle.key) (g.bundles.map Bundle.entry) ↔
      ∀ b ∈ g.bundles, OfOneRule rules g.heading b.key b.entry := by
    rw [List.forall₂_map_left_iff, List.forall₂_map_right_iff, List.forall₂_same]
  exact ⟨fun h => hentries.mp h.entries, fun h => ⟨rfl, hentries.mpr h⟩⟩

/-- **An entry is of one rule when the rules of its key agree**, and only then. -/
theorem ofRules_keepsPairs_iff (rules : List Rule) : ∃ sections : List Section,
    Arranged rules sections ∧ (∀ key, key ∈ listed sections ↔ ∃ rule ∈ rules, rule.key = key) ∧
      (List.Forall₂ (KeepsPairs rules) sections (ofRules rules) ↔
        ∀ key, (∃ rule ∈ rules, rule.key = key) → Agrees rules key) := by
  have h := laid_ofRules rules
  refine ⟨_, h.arranged, h.all, ?_⟩
  have hentry : ∀ g ∈ rules.foldl add [], ∀ b ∈ g.bundles,
      (OfOneRule rules g.heading b.key b.entry ↔ Agrees rules b.key) := by
    intro g hg b hb
    obtain ⟨lead, hlead, _, leaf, hleadPair, hline⟩ := line_entry (h.contents g hg b hb)
    obtain ⟨first, hfirst, _, hfirstPair⟩ := h.arranged.headed (g.heading, g.bundles.map Bundle.key)
      (List.mem_map_of_mem hg) b.key (List.mem_map_of_mem hb)
    have hheading : (parts first).1 = g.heading := congrArg Prod.fst (pair_iff.mp hfirstPair)
    have hleaf : (parts lead).2 = leaf := congrArg Prod.snd (pair_iff.mp hleadPair)
    rw [ofOneRule_iff hline, ← hheading, ← hleaf]
    constructor
    · rintro ⟨rule, hrule, hkey, hpair⟩
      exact agrees_of_pair hfirst hlead hrule hkey hpair
    · exact exists_pair_of_agrees hfirst hlead
  rw [outline, ofRules, List.forall₂_map_left_iff, List.forall₂_map_right_iff, List.forall₂_same]
  constructor
  · intro hkeeps key hkey
    obtain ⟨s, hs, hmem⟩ := List.mem_flatMap.mp ((h.all key).mpr hkey)
    obtain ⟨g, hg, rfl⟩ := List.mem_map.mp hs
    obtain ⟨b, hb, rfl⟩ := List.mem_map.mp hmem
    exact (hentry g hg b hb).mp (keepsPairs_iff.mp (hkeeps g hg) b hb)
  · intro hagrees g hg
    refine keepsPairs_iff.mpr fun b hb => (hentry g hg b hb).mpr (hagrees b.key ?_)
    exact binds_key (h.contents g hg b hb)

/-- Two rules of one key. The one that comes later in the table but first by index names the
first segment of the key. -/
def namedRules : List Rule :=
  [⟨1, "", "max.age", [5]⟩, ⟨0, "max", "max.age", [7]⟩]

/-- The whole key under its own first segment is what the second rule asks for. -/
theorem namedRules_keepPairs : ofRules namedRules = [⟨"max", ["max.age = [7, 5]"]⟩] ∧
    ∃ sections, Arranged namedRules sections ∧
      List.Forall₂ (KeepsPairs namedRules) sections (ofRules namedRules) := by
  obtain ⟨sections, harranged, _, hiff⟩ := ofRules_keepsPairs_iff namedRules
  refine ⟨by cbv, sections, harranged, hiff.mpr fun key ⟨rule, hrule, hkey⟩ => ?_⟩
  have hsame : rule.key = "max.age" := by
    simp only [namedRules, List.mem_cons, List.not_mem_nil, or_false] at hrule
    rcases hrule with rfl | rfl <;> rfl
  obtain rfl : "max.age" = key := hsame.symm.trans hkey
  exact @Agrees.segment _ _ ⟨1, "", "max.age", [5]⟩
    ⟨0, "max", "max.age", [7]⟩ "age" rfl (by decide) rfl (by decide)
    (by decide) (by decide) (.inl rfl)

/-- Two rules of one key. Only the first in the table has a group. -/
def dividedRules : List Rule :=
  [⟨1, "limits", "max.age", [5]⟩, ⟨0, "", "max.age", [7]⟩]

/-- The entry stands under the group of one rule, with the leaf of the other. -/
theorem dividedRules_mixed : ofRules dividedRules = [⟨"limits", ["age = [7, 5]"]⟩] ∧
    ∀ key, ¬OfOneRule dividedRules "limits" key "age = [7, 5]" := by
  refine ⟨by cbv, ?_⟩
  rintro key ⟨rule, hrule, hkey, leaf, values, hpair, hvalues, hline⟩
  simp only [dividedRules, List.mem_cons, List.not_mem_nil, or_false] at hrule
  have hpair := pair_iff.mp hpair
  rcases hrule with rfl | rfl
  · obtain rfl : "max.age" = key := hkey
    have hshown : (rulesFor dividedRules "max.age").map
        (fun rule => valueText rule.value) = ["7", "5"] := by cbv
    rw [eq_values hvalues, hshown] at hline
    obtain rfl : "max.age" = leaf := (Prod.mk.inj hpair).2
    have hage : Line "age" ["7", "5"] "age = [7, 5]" := .several ["7", "5"] (by decide)
    exact absurd (hline.leaf_eq hage) (by decide)
  · exact absurd (Prod.mk.inj hpair).1 (by decide)

end Disclosure.Label
