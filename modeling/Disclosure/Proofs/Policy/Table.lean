import Disclosure.Policy
import Disclosure.Proofs.Field
import Disclosure.Proofs.Signal.Shape

/-! What a rule table binds to a signal.

The rules of a signal are bound by index, and at equal index as they stand in the table
(`exists_placed`). A signal takes all of them, one for each slot, or is refused
(`firstOf_inject`); a signal without rules takes nothing. -/
namespace Disclosure.Policy

/-! ### Table order -/

section Stable
variable {le : α → α → Bool} {R : α → α → Prop}

/-- Sorting keeps equal members in the order they came in. -/
theorem pairwise_mergeSort_of_pairwise (htrans : ∀ a b c, le a b → le b c → le a c)
    (htotal : ∀ a b, le a b || le b a) {l : List α} (h : l.Pairwise R) :
    (l.mergeSort le).Pairwise fun a b => le a b = true ∧ (le b a = true → R a b) := by
  rw [← List.mergeSort_zipIdx, List.pairwise_map]
  have hperm := List.mergeSort_perm l.zipIdx (List.zipIdxLE le)
  have hsorted := List.pairwise_mergeSort (List.zipIdxLE_trans htrans) (List.zipIdxLE_total htotal) l.zipIdx
  have hdistinct : (l.zipIdx.mergeSort (List.zipIdxLE le)).Pairwise (·.2 ≠ ·.2) := by
    rw [← List.pairwise_map, ← List.nodup_iff_pairwise_ne,
      (hperm.map (·.2)).nodup_iff, List.zipIdx_map_snd]
    exact List.nodup_range'
  refine (hsorted.and hdistinct).imp_of_mem fun {a b} ha hb hab => ?_
  obtain ⟨hle, hne⟩ := hab
  unfold List.zipIdxLE at hle
  by_cases hab : le a.1 b.1 = true
  · refine ⟨hab, fun hba => ?_⟩
    rw [if_pos hab, if_pos hba, decide_eq_true_iff] at hle
    have ha' := List.mk_mem_zipIdx_iff_getElem?.mp (hperm.mem_iff.mp ha)
    have hb' := List.mk_mem_zipIdx_iff_getElem?.mp (hperm.mem_iff.mp hb)
    obtain ⟨hi, ha'⟩ := List.getElem?_eq_some_iff.mp ha'
    obtain ⟨hj, hb'⟩ := List.getElem?_eq_some_iff.mp hb'
    rw [← ha', ← hb']
    exact List.pairwise_iff_getElem.mp h a.2 b.2 hi hj (Nat.lt_of_le_of_ne hle hne)
  · rw [if_neg hab] at hle
    cases hle

end Stable

/-- The rules of a signal with their positions in the table, by index and then by
position. -/
structure Placed (rules : List Rule) (name : String) (placed : List (Rule × Nat)) : Prop where
  all : placed.Perm (rules.zipIdx.filter fun p => p.1.key = name)
  ordered : placed.Pairwise fun p q => p.1.index < q.1.index ∨ p.1.index = q.1.index ∧ p.2 < q.2

/-- The rules of a table in another order, with the positions that they had. Those of the
signal keep their order at equal index. -/
structure Reordered (rules : List Rule) (name : String) (moved : List (Rule × Nat)) : Prop where
  all : moved.Perm rules.zipIdx
  kept : moved.Pairwise fun p q => p.1.key = name → q.1.key = name → p.1.index = q.1.index → p.2 < q.2

/-- The order in which the rules stand matters at equal index only. -/
theorem exists_placed_of_reordered {rules : List Rule} {name : String} {moved : List (Rule × Nat)}
    (h : Reordered rules name moved) :
    ∃ placed, Placed rules name placed ∧ placed.map (·.1) = rulesFor (moved.map (·.1)) name := by
  let le : Rule × Nat → Rule × Nat → Bool := fun p q => p.1.index ≤ q.1.index
  have htrans : ∀ p q s, le p q → le q s → le p s := by
    intro p q s hpq hqs
    exact decide_eq_true (UInt32.le_trans (of_decide_eq_true hpq) (of_decide_eq_true hqs))
  have htotal : ∀ p q, le p q || le q p := by
    intro p q
    rw [Bool.or_eq_true, decide_eq_true_iff, decide_eq_true_iff]
    exact UInt32.le_total p.1.index q.1.index
  have hties : (moved.filter fun p => p.1.key = name).Pairwise fun p q =>
      p.1.index = q.1.index → p.2 < q.2 := by
    refine (h.kept.filter _).imp_of_mem fun hp hq hpq => ?_
    exact hpq (of_decide_eq_true (List.mem_filter.mp hp).2) (of_decide_eq_true (List.mem_filter.mp hq).2)
  refine ⟨(moved.filter fun p => p.1.key = name).mergeSort le, ⟨?_, ?_⟩, ?_⟩
  · exact (List.mergeSort_perm _ le).trans (h.all.filter _)
  · refine (pairwise_mergeSort_of_pairwise htrans htotal hties).imp fun {p q} hpq => ?_
    obtain ⟨hle, htie⟩ := hpq
    rw [decide_eq_true_iff] at hle htie
    by_cases hback : q.1.index ≤ p.1.index
    · have hequal := UInt32.le_antisymm hle hback
      exact .inr ⟨hequal, htie hback hequal⟩
    · exact .inl (UInt32.not_le.mp hback)
  · have hsort := List.map_mergeSort (f := Prod.fst) (r := le) (s := fun r s : Rule => r.index ≤ s.index)
      (l := moved.filter fun p => p.1.key = name) fun _ _ _ _ => rfl
    rw [hsort, rulesFor, List.filter_map]
    rfl

/-- **Rules are bound in table order.** -/
theorem exists_placed (rules : List Rule) (name : String) :
    ∃ placed, Placed rules name placed ∧ placed.map (·.1) = rulesFor rules name := by
  have hpositions : rules.zipIdx.Pairwise (·.2 < ·.2) := by
    rw [← List.pairwise_map, List.zipIdx_map_snd]
    exact List.pairwise_lt_range'
  have hsame : Reordered rules name rules.zipIdx := ⟨.refl _, hpositions.imp fun h _ _ _ => h⟩
  obtain ⟨placed, hplaced, hrules⟩ := exists_placed_of_reordered hsame
  rw [List.zipIdx_map_fst] at hrules
  exact ⟨placed, hplaced, hrules⟩

@[simp] theorem mem_rulesFor {rules : List Rule} {name : String} {rule : Rule} :
    rule ∈ rulesFor rules name ↔ rule ∈ rules ∧ rule.key = name := by
  rw [rulesFor, byIndex, List.mem_mergeSort, List.mem_filter, decide_eq_true_iff]

/-- Rules for other names do not matter to a signal. -/
theorem rulesFor_filter (rules : List Rule) {name : String}
    {keeps : String → Bool} (h : keeps name = true) :
    rulesFor (rules.filter fun rule => keeps rule.key) name = rulesFor rules name := by
  have hkept : ∀ rule : Rule, (decide (rule.key = name) && keeps rule.key) = decide (rule.key = name) := by
    intro rule
    by_cases hkey : rule.key = name
    · rw [hkey, h, Bool.and_true]
    · rw [decide_eq_false hkey, Bool.false_and]
  rw [rulesFor, rulesFor, List.filter_filter]
  simp only [hkept]

/-- A signal is bound when some rule is for it. -/
def Binds (rules : List Rule) (name : String) : Prop :=
  ∃ rule ∈ rules, rule.key = name

theorem rulesFor_ne_nil_iff {rules : List Rule} {name : String} :
    rulesFor rules name ≠ [] ↔ Binds rules name := by
  constructor
  · intro h
    obtain ⟨rule, hrule⟩ := List.exists_mem_of_ne_nil _ h
    exact ⟨rule, mem_rulesFor.mp hrule⟩
  · rintro ⟨rule, hrule⟩
    exact List.ne_nil_of_mem (mem_rulesFor.mpr hrule)

/-! ### Binding a signal -/

/-- The number that a rule binds. -/
def number (rule : Rule) : Nat :=
  Bytes.ofBigEndian rule.value

/-- What is wrong with the rules of a signal: their count, else the numbers that are not
in the field. A signal without rules is left alone. -/
def faults (rules : List Rule) (d : Declaration) : List Error :=
  let bound := rulesFor rules d.name
  if bound = [] then []
  else if bound.length ≠ d.arity then [.ruleArity d.name d.arity bound.length]
  else bound.flatMap fun rule => Field.faults (number rule)

/-- Binding, once it is known that the signal has rules. -/
theorem inject_of_ne_nil {rules : List Rule} {d : Declaration} (h : rulesFor rules d.name ≠ []) :
    inject rules d =
      if (rulesFor rules d.name).length ≠ d.arity then
        .error (.ruleArity d.name d.arity (rulesFor rules d.name).length)
      else (rulesFor rules d.name).mapM (fun rule => Field.ofBytes rule.value) >>= fun values =>
        SignalValue.shaped d values >>= fun value => .ok (some value) := by
  unfold inject
  cases hbound : rulesFor rules d.name with
  | nil => exact absurd hbound h
  | cons rule rest => rfl

/-- Only the rules of the signal matter to it. -/
theorem inject_congr {rules rules' : List Rule} {d : Declaration}
    (h : rulesFor rules d.name = rulesFor rules' d.name) :
    inject rules d = inject rules' d := by
  rw [inject, inject, h]

theorem inject_of_nil {rules : List Rule} {d : Declaration} (h : rulesFor rules d.name = []) :
    inject rules d = .ok none := by
  unfold inject
  rw [h]

theorem numbers_eq {bound : List Rule} {ns : List Nat}
    (h : (bound.mapM fun rule => Field.ofBytes rule.value) = .ok ns) : ns = bound.map number := by
  induction bound generalizing ns with
  | nil => cases h; rfl
  | cons rule rest ih =>
    rw [List.mapM_cons] at h
    obtain ⟨n, hn, h⟩ := Outcome.bind_eq_ok_iff.mp h
    obtain ⟨rest', hrest, h⟩ := Outcome.bind_eq_ok_iff.mp h
    cases h
    rw [Field.ofBytes_eq hn, ih hrest]
    rfl

theorem firstOf_inject (rules : List Rule) (d : Declaration) :
    Outcome.FirstOf (faults rules d) (inject rules d) := by
  unfold faults
  by_cases hnone : rulesFor rules d.name = []
  · rw [if_pos hnone, inject_of_nil hnone]
    exact .ok none
  · rw [if_neg hnone, inject_of_ne_nil hnone]
    by_cases hcount : (rulesFor rules d.name).length = d.arity
    · rw [if_neg (not_not_intro hcount), if_neg (not_not_intro hcount)]
      have hnumbers : Outcome.FirstOf ((rulesFor rules d.name).flatMap fun rule => Field.faults (number rule))
          ((rulesFor rules d.name).mapM fun rule => Field.ofBytes rule.value) :=
        .mapM fun rule _ => Field.firstOf_ofBytes rule.value
      rw [← List.append_nil ((rulesFor rules d.name).flatMap _)]
      refine hnumbers.bind fun ns hns => ?_
      -- As many numbers as rules: the shape cannot be wrong any more.
      have hlength : ns.length = d.arity := by
        rw [numbers_eq hns, List.length_map, hcount]
      have hshape := SignalValue.firstOf_shaped d ns
      rw [SignalValue.shapeFaults, if_pos hlength] at hshape
      exact hshape.map some
    · rw [if_pos hcount, if_pos hcount]
      exact .error _ []

/-- A table fits a signal when it has no rules for it, or one for each slot and all of them
in the field. -/
def Fits (rules : List Rule) (d : Declaration) : Prop :=
  Binds rules d.name → rules.countP (·.key = d.name) = d.arity ∧
    ∀ rule ∈ rules, rule.key = d.name → number rule < Field.order

@[simp] theorem length_rulesFor (rules : List Rule) (name : String) :
    (rulesFor rules name).length = rules.countP (·.key = name) := by
  rw [rulesFor, byIndex, List.length_mergeSort, List.countP_eq_length_filter]

@[simp] theorem faults_eq_nil_iff {rules : List Rule} {d : Declaration} :
    faults rules d = [] ↔ Fits rules d := by
  unfold faults Fits
  dsimp only
  rw [← rulesFor_ne_nil_iff, ← length_rulesFor]
  by_cases hnone : rulesFor rules d.name = []
  · rw [if_pos hnone]
    exact ⟨fun _ h => absurd hnone h, fun _ => rfl⟩
  · rw [if_neg hnone]
    by_cases hcount : (rulesFor rules d.name).length = d.arity
    · rw [if_neg (not_not_intro hcount), List.flatMap_eq_nil_iff]
      constructor
      · intro h _
        exact ⟨hcount, fun rule hrule hkey =>
          Field.faults_eq_nil_iff.mp (h rule (mem_rulesFor.mpr ⟨hrule, hkey⟩))⟩
      · intro h rule hrule
        obtain ⟨hmem, hkey⟩ := mem_rulesFor.mp hrule
        exact Field.faults_eq_nil_iff.mpr ((h hnone).2 rule hmem hkey)
    · rw [if_pos hcount]
      exact ⟨nofun, fun h => absurd (h hnone).1 hcount⟩

/-- **What a table gives a signal**: nothing without rules, and else the numbers of all
its rules, in table order. -/
theorem inject_cases {rules : List Rule} {d : Declaration} {value : Option SignalValue}
    (h : inject rules d = .ok value) :
    (value = none ∧ ¬Binds rules d.name) ∨
      ∃ v, value = some v ∧ v.Shaped d ∧ Binds rules d.name ∧
        v.elements = (rulesFor rules d.name).map number := by
  by_cases hnone : rulesFor rules d.name = []
  · rw [inject_of_nil hnone] at h
    cases h
    exact .inl ⟨rfl, fun hbinds => rulesFor_ne_nil_iff.mpr hbinds hnone⟩
  · rw [inject_of_ne_nil hnone] at h
    by_cases hcount : (rulesFor rules d.name).length = d.arity
    · rw [if_neg (not_not_intro hcount)] at h
      obtain ⟨ns, hns, h⟩ := Outcome.bind_eq_ok_iff.mp h
      obtain ⟨v, hv, h⟩ := Outcome.bind_eq_ok_iff.mp h
      cases h
      obtain ⟨hshape, helements⟩ := SignalValue.shaped_eq_ok_iff.mp hv
      exact .inr ⟨v, rfl, hshape, rulesFor_ne_nil_iff.mp hnone, helements.trans (numbers_eq hns)⟩
    · rw [if_pos hcount] at h
      cases h

/-- A table gives a signal no number that is out of the field. -/
theorem lt_of_inject {rules : List Rule} {d : Declaration}
    {v : SignalValue} (h : inject rules d = .ok (some v)) :
    ∀ n ∈ v.elements, n < Field.order := by
  have hfits : Fits rules d := faults_eq_nil_iff.mp ((firstOf_inject rules d).ok_iff.mp ⟨_, h⟩)
  obtain ⟨hnone, _⟩ | ⟨_, hsome, _, hbinds, helements⟩ := inject_cases h
  · cases hnone
  · cases hsome
    intro n hn
    rw [helements] at hn
    obtain ⟨rule, hrule, rfl⟩ := List.mem_map.mp hn
    obtain ⟨hmem, hkey⟩ := mem_rulesFor.mp hrule
    exact (hfits hbinds).2 rule hmem hkey

end Disclosure.Policy
