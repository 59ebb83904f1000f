import Disclosure.Proofs.Policy.Binding
import Disclosure.Proofs.Policy.Pair
import Mathlib.Data.List.Nodup

/-! What labels show of a rule table.

Labels list each key of the table once, in the order of its appearance, and show for it the
rules that are bound to the signal of that name, in the same order (`ofRules_shows`). -/
namespace Disclosure.Label
open Policy (Binds rulesFor)

/-- A heading with the keys below it. -/
abbrev Section : Type := String × List String

/-- The keys of all sections. -/
def listed (sections : List Section) : List String :=
  sections.flatMap (·.2)

/-- Where a key first appears. -/
def position (rules : List Rule) (key : String) : Nat :=
  (rules.map (·.key)).idxOf key

/-- A key of one section appears before all keys of the other. -/
def Precedes (rules : List Rule) (s t : Section) : Prop :=
  ∃ key ∈ s.2, ∀ other ∈ t.2, position rules key < position rules other

/-- Headings and keys by first appearance in a table. A heading appears with the first key
that stands below it. -/
structure Arranged (rules : List Rule) (sections : List Section) : Prop where
  once : (listed sections).Nodup
  distinct : (sections.map (·.1)).Nodup
  inhabited : ∀ s ∈ sections, s.2 ≠ []
  headed : ∀ s ∈ sections, ∀ key ∈ s.2,
    ∃ rule, rules.find? (·.key = key) = some rule ∧ ∃ leaf, Pair rule s.1 leaf
  keys : ∀ s ∈ sections, s.2.Pairwise fun key other => position rules key < position rules other
  headings : sections.Pairwise (Precedes rules)

/-- An entry shows the rules of a key. -/
structure Shows (rules : List Rule) (key : String) (values : List String) (entry : String) : Prop where
  rendered : List.Forall₂ (fun rule value => Rendered rule.value value) (rulesFor rules key) values
  line : ∃ rule ∈ rulesFor rules key, ∃ heading leaf, Pair rule heading leaf ∧ Line leaf values entry
  /-- What is shown is what a signal of that name gets. -/
  injected : ∀ d v, d.name = key → Policy.inject rules d = .ok (some v) →
    values = v.elements.map Decimal.write

/-- A label shows a section. -/
structure Displays (rules : List Rule) (s : Section) (label : Label) : Prop where
  heading : label.heading = s.1
  entries : List.Forall₂ (fun key entry => ∃ values, Shows rules key values entry) s.2 label.entries

/-! ### Bundles -/

section Adding
variable {rule : Rule} {b : Bundle} {bundles : List Bundle} {groups : List Group}

/-- A bundle with the rule, if it has its key. -/
def extend (rule : Rule) (b : Bundle) : Bundle :=
  if b.key = rule.key then { b with others := b.others ++ [rule] } else b

@[simp] theorem key_extend (rule : Rule) (b : Bundle) : (extend rule b).key = b.key := by
  unfold extend
  split <;> rfl

theorem rules_extend {seen : List Rule} (h : b.rules = seen.filter (·.key = b.key)) :
    (extend rule b).rules = (seen ++ [rule]).filter (·.key = b.key) := by
  rw [List.filter_append, ← h]
  unfold extend
  by_cases hkey : b.key = rule.key
  · simp [hkey, Bundle.rules]
  · simp [hkey, Ne.symm hkey]

@[simp] theorem map_key_extend (rule : Rule) (bundles : List Bundle) :
    (bundles.map (extend rule)).map Bundle.key = bundles.map Bundle.key := by
  rw [List.map_map]
  exact List.map_congr_left fun b _ => key_extend rule b

theorem map_extend (h : rule.key ∉ bundles.map Bundle.key) : bundles.map (extend rule) = bundles := by
  have hsame : ∀ b ∈ bundles, extend rule b = b := by
    intro b hb
    have hother : b.key ≠ rule.key := fun hkey => h (hkey ▸ List.mem_map_of_mem hb)
    exact if_neg hother
  exact (List.map_congr_left hsame).trans (List.map_id bundles)

theorem addToBundle_of_not_mem (h : rule.key ∉ bundles.map Bundle.key) :
    addToBundle rule bundles = none := by
  induction bundles with
  | nil => rfl
  | cons b rest ih =>
    rw [List.map_cons, List.mem_cons, not_or] at h
    rw [addToBundle, if_neg (Ne.symm h.1), ih h.2]
    rfl

/-- The rule is added to one bundle only, since no other has its key. -/
theorem addToBundle_of_mem (hnodup : (bundles.map Bundle.key).Nodup)
    (h : rule.key ∈ bundles.map Bundle.key) :
    addToBundle rule bundles = some (bundles.map (extend rule)) := by
  induction bundles with
  | nil => cases h
  | cons b rest ih =>
    rw [List.map_cons, List.nodup_cons] at hnodup
    rw [addToBundle, List.map_cons, extend]
    by_cases hkey : b.key = rule.key
    · have hfresh := hnodup.1
      rw [hkey] at hfresh
      rw [if_pos hkey, if_pos hkey, map_extend hfresh]
    · have hrest : rule.key ∈ rest.map Bundle.key := List.mem_of_ne_of_mem (Ne.symm hkey) h
      rw [if_neg hkey, if_neg hkey, ih hnodup.2 hrest]
      rfl

/-! ### Groups -/

/-- What groups leave to see of themselves before the values. -/
def outline (groups : List Group) : List Section :=
  groups.map fun g => (g.heading, g.bundles.map Bundle.key)

theorem listed_cons (g : Group) (rest : List Group) :
    listed (outline (g :: rest)) = g.bundles.map Bundle.key ++ listed (outline rest) := rfl

def extendGroup (rule : Rule) (g : Group) : Group :=
  { g with bundles := g.bundles.map (extend rule) }

theorem outline_extendGroup (rule : Rule) (groups : List Group) :
    outline (groups.map (extendGroup rule)) = outline groups := by
  unfold outline
  rw [List.map_map]
  refine List.map_congr_left fun g _ => ?_
  exact Prod.ext rfl (map_key_extend rule g.bundles)

theorem map_extendGroup (h : rule.key ∉ listed (outline groups)) :
    groups.map (extendGroup rule) = groups := by
  induction groups with
  | nil => rfl
  | cons g rest ih =>
    rw [listed_cons, List.mem_append, not_or] at h
    rw [List.map_cons, ih h.2, extendGroup, map_extend h.1]

theorem addToGroups_of_not_mem (h : rule.key ∉ listed (outline groups)) :
    addToGroups rule groups = none := by
  induction groups with
  | nil => rfl
  | cons g rest ih =>
    rw [listed_cons, List.mem_append, not_or] at h
    rw [addToGroups, addToBundle_of_not_mem h.1, ih h.2]
    rfl

theorem addToGroups_of_mem (hnodup : (listed (outline groups)).Nodup)
    (h : rule.key ∈ listed (outline groups)) :
    addToGroups rule groups = some (groups.map (extendGroup rule)) := by
  induction groups with
  | nil => cases h
  | cons g rest ih =>
    rw [listed_cons, List.nodup_append] at hnodup
    obtain ⟨hbundles, hrest, hapart⟩ := hnodup
    rw [listed_cons, List.mem_append] at h
    rw [addToGroups, List.map_cons, extendGroup]
    by_cases hmem : rule.key ∈ g.bundles.map Bundle.key
    · have hfresh : rule.key ∉ listed (outline rest) := fun hlater => hapart _ hmem _ hlater rfl
      rw [addToBundle_of_mem hbundles hmem, map_extendGroup hfresh]
    · rw [addToBundle_of_not_mem hmem, ih hrest (h.resolve_left hmem), map_extend hmem]
      rfl

/-- A new key goes to the end of its section, or into a new section. -/
theorem openBundle_cases (heading : String) (rule : Rule) (groups : List Group) :
    (heading ∉ (outline groups).map (·.1) ∧
      openBundle heading rule groups = groups ++ [⟨heading, [⟨rule, []⟩]⟩]) ∨
      ∃ pre bundles post, groups = pre ++ ⟨heading, bundles⟩ :: post ∧
        openBundle heading rule groups = pre ++ ⟨heading, bundles ++ [⟨rule, []⟩]⟩ :: post := by
  induction groups with
  | nil => exact .inl ⟨nofun, rfl⟩
  | cons g rest ih =>
    rw [openBundle]
    by_cases hheading : g.heading = heading
    · subst hheading
      rw [if_pos rfl]
      exact .inr ⟨[], g.bundles, rest, rfl, rfl⟩
    · rw [if_neg hheading]
      obtain ⟨hfresh, hopen⟩ | ⟨pre, bundles, post, rfl, hopen⟩ := ih
      · refine .inl ⟨?_, by rw [hopen]; rfl⟩
        exact fun hmem => hfresh (List.mem_of_ne_of_mem (Ne.symm hheading) hmem)
      · exact .inr ⟨g :: pre, bundles, post, rfl, by rw [hopen]; rfl⟩

end Adding

/-! ### The arrangement -/

section Arrangement
variable {rules seen rest : List Rule} {rule : Rule} {sections pre post : List Section}
variable {heading key : String} {keys : List String}

/-- A key with its heading that comes after all that is listed. -/
structure Comes (rules : List Rule) (sections : List Section) (heading key : String) : Prop where
  headed : ∃ rule, rules.find? (·.key = key) = some rule ∧ ∃ leaf, Pair rule heading leaf
  later : ∀ other ∈ listed sections, position rules other < position rules key

theorem mem_listed {s : Section} (hs : s ∈ sections) (hkey : key ∈ s.2) : key ∈ listed sections :=
  List.mem_flatMap.mpr ⟨s, hs, hkey⟩

theorem Comes.not_mem (h : Comes rules sections heading key) : key ∉ listed sections :=
  fun hmem => Nat.lt_irrefl _ (h.later key hmem)

theorem Comes.precedes_concat (h : Comes rules sections heading key)
    {s : Section} (hs : s ∈ sections) (keys : List String)
    (hkeys : ∃ first ∈ s.2, ∀ other ∈ keys, position rules first < position rules other) :
    Precedes rules s (heading, keys ++ [key]) := by
  obtain ⟨first, hfirst, hlt⟩ := hkeys
  refine ⟨first, hfirst, fun other hother => ?_⟩
  obtain hother | hother := List.mem_append.mp hother
  · exact hlt other hother
  · obtain rfl := List.mem_singleton.mp hother
    exact h.later first (mem_listed hs hfirst)

theorem Arranged.openSection (h : Arranged rules sections) (hkey : Comes rules sections heading key)
    (hheading : heading ∉ sections.map (·.1)) : Arranged rules (sections ++ [(heading, [key])]) where
  once := by
    have hlisted : listed (sections ++ [(heading, [key])]) = listed sections ++ [key] := by simp [listed]
    rw [hlisted, ← List.concat_eq_append]
    exact List.Nodup.concat hkey.not_mem h.once
  distinct := by
    rw [List.map_append, List.map_singleton, ← List.concat_eq_append]
    exact List.Nodup.concat hheading h.distinct
  inhabited := by
    intro s hs
    obtain hs | hs := List.mem_append.mp hs
    · exact h.inhabited s hs
    · obtain rfl := List.mem_singleton.mp hs
      exact List.cons_ne_nil key []
  headed := by
    intro s hs other hother
    obtain hs | hs := List.mem_append.mp hs
    · exact h.headed s hs other hother
    · obtain rfl := List.mem_singleton.mp hs
      obtain rfl := List.mem_singleton.mp hother
      exact hkey.headed
  keys := by
    intro s hs
    obtain hs | hs := List.mem_append.mp hs
    · exact h.keys s hs
    · obtain rfl := List.mem_singleton.mp hs
      exact List.pairwise_singleton _ key
  headings := by
    refine List.pairwise_append.mpr ⟨h.headings, List.pairwise_singleton _ _, fun s hs t ht => ?_⟩
    obtain rfl := List.mem_singleton.mp ht
    obtain ⟨first, hfirst⟩ := List.exists_mem_of_ne_nil _ (h.inhabited s hs)
    exact hkey.precedes_concat hs [] ⟨first, hfirst, nofun⟩

theorem Arranged.extendSection (h : Arranged rules (pre ++ (heading, keys) :: post))
    (hkey : Comes rules (pre ++ (heading, keys) :: post) heading key) :
    Arranged rules (pre ++ (heading, keys ++ [key]) :: post) := by
  have hsection : (heading, keys) ∈ pre ++ (heading, keys) :: post := by simp
  -- Only the one section is another, and it only has one key more.
  have hold : ∀ s ∈ pre ++ (heading, keys ++ [key]) :: post,
      s ∈ pre ++ (heading, keys) :: post ∨ s = (heading, keys ++ [key]) := by
    intro s hs
    simp only [List.mem_append, List.mem_cons] at hs ⊢
    tauto
  constructor
  case once =>
    have hperm : (listed (pre ++ (heading, keys ++ [key]) :: post)).Perm
        (key :: listed (pre ++ (heading, keys) :: post)) := by
      simpa [listed] using @List.perm_middle _ key (listed pre ++ keys) (listed post)
    rw [hperm.nodup_iff, List.nodup_cons]
    exact ⟨hkey.not_mem, h.once⟩
  case distinct =>
    simpa using h.distinct
  case inhabited =>
    intro s hs
    obtain hs | rfl := hold s hs
    · exact h.inhabited s hs
    · simp
  case headed =>
    intro s hs other hother
    obtain hs | rfl := hold s hs
    · exact h.headed s hs other hother
    · obtain hother | hother := List.mem_append.mp hother
      · exact h.headed _ hsection other hother
      · obtain rfl := List.mem_singleton.mp hother
        exact hkey.headed
  case keys =>
    intro s hs
    obtain hs | rfl := hold s hs
    · exact h.keys s hs
    · refine List.pairwise_append.mpr
        ⟨h.keys _ hsection, List.pairwise_singleton _ key, fun first hfirst other hother => ?_⟩
      obtain rfl := List.mem_singleton.mp hother
      exact hkey.later first (mem_listed hsection hfirst)
  case headings =>
    obtain ⟨hpre, hpost, hacross⟩ := List.pairwise_append.mp h.headings
    obtain ⟨hafter, hpost⟩ := List.pairwise_cons.mp hpost
    refine List.pairwise_append.mpr
      ⟨hpre, List.pairwise_cons.mpr ⟨fun t ht => ?_, hpost⟩, fun s hs t ht => ?_⟩
    · obtain ⟨first, hfirst, hlt⟩ := hafter t ht
      exact ⟨first, List.mem_append_left _ hfirst, hlt⟩
    · obtain rfl | ht := List.mem_cons.mp ht
      · exact hkey.precedes_concat (List.mem_append_left _ hs) keys (hacross s hs _ List.mem_cons_self)
      · exact hacross s hs t (List.mem_cons_of_mem _ ht)

/-! ### The loop -/

theorem position_lt (h : Binds seen key) (rest : List Rule) : position (seen ++ rest) key < seen.length := by
  obtain ⟨rule, hrule, rfl⟩ := h
  have hmem : rule.key ∈ seen.map (·.key) := List.mem_map_of_mem hrule
  rw [position, List.map_append, List.idxOf_append_of_mem hmem, ← List.length_map (·.key)]
  exact List.idxOf_lt_length_of_mem hmem

theorem position_eq (h : ¬Binds seen rule.key) (rest : List Rule) :
    position (seen ++ rule :: rest) rule.key = seen.length := by
  have hfresh : rule.key ∉ seen.map (·.key) := fun hmem => h (List.mem_map.mp hmem)
  rw [position, List.map_append, List.idxOf_append_of_notMem hfresh,
    List.map_cons, List.idxOf_cons_self, List.length_map,
    Nat.add_zero]

/-- The groups for the rules of a table that have come. -/
structure Laid (rules seen : List Rule) (groups : List Group) : Prop where
  arranged : Arranged rules (outline groups)
  all : ∀ key, key ∈ listed (outline groups) ↔ Binds seen key
  contents : ∀ g ∈ groups, ∀ b ∈ g.bundles, b.rules = seen.filter (·.key = b.key)

variable {groups : List Group}

theorem binds_concat : Binds (seen ++ [rule]) key ↔ Binds seen key ∨ key = rule.key := by
  simp [Binds, or_and_right, exists_or, eq_comm]

theorem Laid.contents_extend (h : Laid rules seen groups) (rule : Rule) :
    ∀ g ∈ groups.map (extendGroup rule), ∀ b ∈ g.bundles,
    b.rules = (seen ++ [rule]).filter (·.key = b.key) := by
  intro g hg b hb
  obtain ⟨old, hold, rfl⟩ := List.mem_map.mp hg
  obtain ⟨kept, hkept, rfl⟩ := List.mem_map.mp hb
  rw [key_extend]
  exact rules_extend (h.contents old hold kept hkept)

theorem Laid.comes (h : Laid (seen ++ rule :: rest) seen groups) (hfresh : ¬Binds seen rule.key) :
    Comes (seen ++ rule :: rest) (outline groups) (parts rule).1 rule.key where
  headed := by
    have hnone : seen.find? (·.key = rule.key) = none := by
      rw [List.find?_eq_none]
      exact fun other hother hkey => hfresh ⟨other, hother, of_decide_eq_true hkey⟩
    exact ⟨rule, by simp [List.find?_append, hnone], _, pair_parts rule⟩
  later other hother := by
    rw [position_eq hfresh]
    exact position_lt ((h.all other).mp hother) _

theorem Laid.openBundle (h : Laid (seen ++ rule :: rest) seen groups) (hfresh : ¬Binds seen rule.key) :
    Laid (seen ++ rule :: rest) (seen ++ [rule]) (openBundle (parts rule).1 rule groups) := by
  have hkey := h.comes hfresh
  have hcontents := h.contents_extend rule
  rw [map_extendGroup hkey.not_mem] at hcontents
  have hbundle : (Bundle.mk rule []).rules = (seen ++ [rule]).filter (·.key = rule.key) := by
    have hnone : seen.filter (·.key = rule.key) = [] := by
      rw [List.filter_eq_nil_iff]
      exact fun other hother hkey => hfresh ⟨other, hother, of_decide_eq_true hkey⟩
    simp [Bundle.rules, hnone]
  obtain ⟨hheading, hopen⟩ | ⟨pre, bundles, post, rfl, hopen⟩ :=
    openBundle_cases (parts rule).1 rule groups
  · have houtline : outline (groups ++ [⟨(parts rule).1, [⟨rule, []⟩]⟩]) =
        outline groups ++ [((parts rule).1, [rule.key])] := by
      simp [outline, Bundle.key]
    rw [hopen]
    refine ⟨houtline ▸ h.arranged.openSection hkey hheading, fun key => ?_, fun g hg b hb => ?_⟩
    · rw [houtline, binds_concat, ← h.all]
      simp [listed]
    · obtain hg | hg := List.mem_append.mp hg
      · exact hcontents g hg b hb
      · obtain rfl := List.mem_singleton.mp hg
        obtain rfl := List.mem_singleton.mp hb
        exact hbundle
  · have hbefore : outline (pre ++ ⟨(parts rule).1, bundles⟩ :: post) =
        outline pre ++ ((parts rule).1, bundles.map Bundle.key) :: outline post := by simp [outline]
    have houtline : outline (pre ++ ⟨(parts rule).1, bundles ++ [⟨rule, []⟩]⟩ :: post) =
        outline pre ++ ((parts rule).1, bundles.map Bundle.key ++ [rule.key]) :: outline post := by
      simp [outline, Bundle.key]
    have harranged := h.arranged
    rw [hbefore] at harranged hkey
    rw [hopen]
    refine ⟨houtline ▸ harranged.extendSection hkey, fun key => ?_, fun g hg b hb => ?_⟩
    · rw [houtline, binds_concat, ← h.all, hbefore]
      simp only [listed, List.flatMap_append, List.flatMap_cons, List.mem_append, List.mem_singleton]
      tauto
    · obtain hg | hg := List.mem_append.mp hg
      · exact hcontents g (List.mem_append_left _ hg) b hb
      · obtain rfl | hg := List.mem_cons.mp hg
        · obtain hb | hb := List.mem_append.mp hb
          · exact hcontents ⟨_, bundles⟩ (List.mem_append_right _ List.mem_cons_self) b hb
          · obtain rfl := List.mem_singleton.mp hb
            exact hbundle
        · exact hcontents g (List.mem_append_right _ (List.mem_cons_of_mem _ hg)) b hb

theorem Laid.add (h : Laid (seen ++ rule :: rest) seen groups) :
    Laid (seen ++ rule :: rest) (seen ++ [rule]) (add groups rule) := by
  unfold Label.add
  by_cases hmem : rule.key ∈ listed (outline groups)
  · rw [addToGroups_of_mem h.arranged.once hmem, Option.getD_some]
    refine ⟨?_, fun key => ?_, h.contents_extend rule⟩
    · rw [outline_extendGroup]
      exact h.arranged
    · rw [outline_extendGroup, binds_concat, ← h.all]
      constructor
      · exact .inl
      · intro hkey
        obtain hkey | rfl := hkey
        · exact hkey
        · exact hmem
  · rw [addToGroups_of_not_mem hmem, Option.getD_none]
    exact h.openBundle fun hbinds => hmem ((h.all rule.key).mpr hbinds)

theorem Laid.foldl (h : Laid (seen ++ rest) seen groups) :
    Laid (seen ++ rest) (seen ++ rest) (rest.foldl Label.add groups) := by
  induction rest generalizing seen groups with
  | nil => simpa using h
  | cons rule rest ih =>
    have hnext := h.add
    rw [List.append_cons] at hnext ⊢
    exact ih hnext

theorem laid_nil (rules : List Rule) : Laid rules [] [] where
  arranged := ⟨List.nodup_nil, List.nodup_nil, nofun, nofun, nofun, List.Pairwise.nil⟩
  all _ := ⟨nofun, nofun⟩
  contents := nofun

theorem laid_ofRules (rules : List Rule) : Laid rules rules (rules.foldl Label.add []) := by
  have h : Laid ([] ++ rules) [] [] := laid_nil rules
  exact h.foldl

example :
    outline ([.ofNat 1 "limit.max" 250, .ofNat 0 "kind" 18, .ofNat 0 "limit.max" 276].foldl add []) =
      [("limit", ["limit.max"]), ("kind", ["kind"])] := by decide +kernel

end Arrangement

/-! ### Entries -/

section Entries
variable {rules : List Rule} {b : Bundle}

theorem binds_key (h : b.rules = rules.filter (·.key = b.key)) : Binds rules b.key := by
  have hfirst : b.first ∈ rules.filter (·.key = b.key) := h ▸ List.mem_cons_self
  exact ⟨b.first, List.mem_of_mem_filter hfirst, rfl⟩

/-- One value stands as it is, and more stand in brackets. The leaf is that of the first rule
by index. -/
theorem line_entry (h : b.rules = rules.filter (·.key = b.key)) :
    ∃ lead, (rulesFor rules b.key).head? = some lead ∧ ∃ heading leaf, Pair lead heading leaf ∧
      Line leaf ((rulesFor rules b.key).map fun rule => valueText rule.value) b.entry := by
  have hbound : Policy.byIndex b.rules = rulesFor rules b.key := by rw [h, rulesFor]
  unfold Bundle.entry
  rw [hbound]
  have hne := Policy.rulesFor_ne_nil_iff.mpr (binds_key h)
  cases hrules : rulesFor rules b.key with
  | nil => exact absurd hrules hne
  | cons rule rest =>
    refine ⟨rule, rfl, _, _, pair_parts rule, ?_⟩
    cases rest with
    | nil => exact .single _
    | cons next rest => exact .several _ (by simp)

theorem map_valueText {bound : List Rule} (h : ∀ rule ∈ bound, Policy.number rule < Field.order) :
    bound.map (fun rule => valueText rule.value) = (bound.map Policy.number).map Decimal.write := by
  rw [List.map_map]
  exact List.map_congr_left fun rule hrule => if_pos (h rule hrule)

theorem shows_entry (h : b.rules = rules.filter (·.key = b.key)) :
    Shows rules b.key ((rulesFor rules b.key).map fun rule => valueText rule.value) b.entry where
  rendered := rendered_values _
  line := by
    obtain ⟨lead, hlead, hline⟩ := line_entry h
    exact ⟨lead, List.mem_of_head? hlead, hline⟩
  injected d v hname hinject := by
    obtain ⟨_, _, hlt, helements, _⟩ := Policy.inject_eq_some_iff.mp hinject
    rw [hname] at hlt helements
    rw [helements, map_valueText hlt]

end Entries

/-- **Labels show what a table binds**: each key once, under the heading of its first rule,
with the values of its signal in their order. -/
theorem ofRules_shows (rules : List Rule) : ∃ sections : List Section,
    Arranged rules sections ∧ (∀ key, key ∈ listed sections ↔ ∃ rule ∈ rules, rule.key = key) ∧
      List.Forall₂ (Displays rules) sections (ofRules rules) := by
  have h := laid_ofRules rules
  refine ⟨_, h.arranged, h.all, ?_⟩
  rw [outline, ofRules, List.forall₂_map_left_iff, List.forall₂_map_right_iff, List.forall₂_same]
  intro g hg
  refine ⟨rfl, ?_⟩
  show List.Forall₂ _ (g.bundles.map Bundle.key) (g.bundles.map Bundle.entry)
  rw [List.forall₂_map_left_iff, List.forall₂_map_right_iff, List.forall₂_same]
  exact fun b hb => ⟨_, shows_entry (h.contents g hg b hb)⟩

end Disclosure.Label
