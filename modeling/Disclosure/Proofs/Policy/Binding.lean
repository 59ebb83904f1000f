import Disclosure.Proofs.Policy.Table
import Mathlib.Data.List.Permutation
import Mathlib.Logic.Relation

/-! What injection gives, in full.

The rules of a signal by index and position decide the outcome of an injection
(`inject_specified`). Rules for other signals do not, and neither does the order of the
table at different indices. -/
namespace Disclosure.Policy

variable {rules rules' : List Rule} {name : String} {d : Declaration}

/-- The outcome of injection for a declaration with the rules `bound`. -/
structure Binding (d : Declaration) (bound : List Rule)
    (result : Except Error (Option SignalValue)) : Prop where
  unbound : result = .ok none ↔ bound = []
  miscounted : result = .error (.ruleArity d.name d.arity bound.length) ↔
    bound ≠ [] ∧ bound.length ≠ d.arity
  /-- The first number that is out of the field is named. -/
  outOfField : ∀ n, result = .error (.invalidElement (.outOfField n)) ↔
    bound ≠ [] ∧ bound.length = d.arity ∧ (bound.map number).find? (Field.order ≤ ·) = some n
  bound : ∀ v, result = .ok (some v) ↔
    bound ≠ [] ∧ bound.length = d.arity ∧ (∀ rule ∈ bound, number rule < Field.order) ∧
      v.elements = bound.map number ∧ (v.scalar?.isSome ↔ d.arity = 1)

/-- One change to a table that is of no concern to a signal. -/
inductive Edit (name : String) : List Rule → List Rule → Prop
  | insert (pre : List Rule) (rule : Rule) (post : List Rule) (h : rule.key ≠ name) :
    Edit name (pre ++ post) (pre ++ rule :: post)
  | delete (pre : List Rule) (rule : Rule) (post : List Rule) (h : rule.key ≠ name) :
    Edit name (pre ++ rule :: post) (pre ++ post)
  | reorder {rules : List Rule} {moved : List (Rule × Nat)} (h : Reordered rules name moved) :
    Edit name rules (moved.map (·.1))

abbrev Edits (name : String) : List Rule → List Rule → Prop :=
  Relation.ReflTransGen (Edit name)

/-! ### Tables -/

/-- Index and position leave no choice. -/
theorem Placed.unique {placed others : List (Rule × Nat)}
    (h : Placed rules name placed) (h' : Placed rules name others) :
    others = placed := by
  refine List.Perm.eq_of_pairwise (fun p q _ _ hpq hqp => ?_) h'.ordered h.ordered (h'.all.trans h.all.symm)
  obtain hlt | ⟨heq, hpos⟩ := hpq
  · obtain hlt' | ⟨heq', _⟩ := hqp
    · exact absurd hlt' (UInt32.lt_asymm hlt)
    · exact absurd (heq' ▸ hlt) (UInt32.lt_irrefl _)
  · obtain hlt' | ⟨_, hpos'⟩ := hqp
    · exact absurd (heq ▸ hlt') (UInt32.lt_irrefl _)
    · omega

theorem rulesFor_append_cons {rule : Rule} (h : rule.key ≠ name) (pre post : List Rule) :
    rulesFor (pre ++ rule :: post) name = rulesFor (pre ++ post) name := by
  simp [rulesFor, h]

theorem rulesFor_of_edit (h : Edit name rules rules') : rulesFor rules' name = rulesFor rules name := by
  cases h with
  | insert pre rule post h => exact rulesFor_append_cons h pre post
  | delete pre rule post h => exact (rulesFor_append_cons h pre post).symm
  | reorder h =>
    obtain ⟨placed, hplaced, hmoved⟩ := exists_placed_of_reordered h
    obtain ⟨others, hothers, hrules⟩ := exists_placed rules name
    rw [← hmoved, ← hrules, hplaced.unique hothers]

theorem rulesFor_of_edits (h : Edits name rules rules') : rulesFor rules' name = rulesFor rules name := by
  induction h with
  | refl => rfl
  | tail _ hedit ih => exact (rulesFor_of_edit hedit).trans ih

/-- A rule for another signal may stand anywhere. -/
theorem edits_of_move {rule : Rule} (h : rule.key ≠ name) {pre post pre' post' : List Rule}
    (hsame : pre ++ post = pre' ++ post') : Edits name (pre ++ rule :: post) (pre' ++ rule :: post') := by
  have hdelete := Relation.ReflTransGen.single (Edit.delete pre rule post h)
  rw [hsame] at hdelete
  exact hdelete.tail (.insert pre' rule post' h)

/-! ### Outcomes -/

theorem inject_eq_error_iff {e : Error} : inject rules d = .error e ↔ rulesFor rules d.name ≠ [] ∧
    ((rulesFor rules d.name).length ≠ d.arity ∧
      e = .ruleArity d.name d.arity (rulesFor rules d.name).length ∨
      (rulesFor rules d.name).length = d.arity ∧
        ∃ n, ((rulesFor rules d.name).map number).find? (Field.order ≤ ·) = some n ∧
          e = .invalidElement (.outOfField n)) := by
  rw [(firstOf_inject rules d).error_iff]
  unfold faults
  dsimp only
  by_cases hnone : rulesFor rules d.name = []
  · rw [if_pos hnone]
    exact ⟨nofun, fun h => absurd hnone h.1⟩
  · rw [if_neg hnone]
    by_cases hcount : (rulesFor rules d.name).length = d.arity
    · rw [if_neg (not_not_intro hcount), ← List.flatMap_map, Field.head?_flatMap_faults]
      simp only [ne_eq, hnone, hcount, not_true_eq_false, not_false_eq_true, true_and, false_and, false_or]
    · rw [if_pos hcount]
      simp only [ne_eq, hnone, hcount, not_false_eq_true,
        true_and, false_and, or_false, List.head?_cons, Option.some.injEq]
      exact eq_comm

theorem inject_eq_some_iff {v : SignalValue} :
    inject rules d = .ok (some v) ↔ rulesFor rules d.name ≠ [] ∧
    (rulesFor rules d.name).length = d.arity ∧
    (∀ rule ∈ rulesFor rules d.name, number rule < Field.order) ∧
      v.elements = (rulesFor rules d.name).map number ∧ (v.scalar?.isSome ↔ d.arity = 1) := by
  constructor
  · intro h
    obtain ⟨hnone, _⟩ | ⟨v, hsome, hshape, hbinds, helements⟩ := inject_cases h
    · cases hnone
    · cases hsome
      have hcount := hshape.count
      rw [helements, List.length_map] at hcount
      refine ⟨rulesFor_ne_nil_iff.mpr hbinds, hcount, fun rule hrule => ?_, helements, hshape.scalar⟩
      exact lt_of_inject h _ (helements ▸ List.mem_map_of_mem hrule)
  · intro h
    obtain ⟨hbound, hcount, hlt, helements, hscalar⟩ := h
    have hnofault : ∀ e, inject rules d ≠ .error e := by
      intro e he
      obtain ⟨_, ⟨hcount', _⟩ | ⟨_, n, hfind, _⟩⟩ := inject_eq_error_iff.mp he
      · exact hcount' hcount
      · obtain ⟨rule, hrule, rfl⟩ := List.mem_map.mp (List.mem_of_find?_eq_some hfind)
        have hge := List.find?_some hfind
        exact absurd (hlt rule hrule) (Nat.not_lt.mpr (of_decide_eq_true hge))
    cases hresult : inject rules d with
    | error e => exact absurd hresult (hnofault e)
    | ok value =>
      obtain ⟨_, hunbound⟩ | ⟨w, rfl, hshape, _, hw⟩ := inject_cases hresult
      · exact absurd (rulesFor_ne_nil_iff.mp hbound) hunbound
      · have hv : v.Shaped d := ⟨by rw [helements, List.length_map, hcount], hscalar⟩
        have hsame := (SignalValue.shaped_eq_ok_iff.mpr ⟨hshape, hw⟩).symm.trans
          (SignalValue.shaped_eq_ok_iff.mpr ⟨hv, helements⟩)
        rw [Except.ok.inj hsame]

theorem inject_eq_none_iff : inject rules d = .ok none ↔ rulesFor rules d.name = [] := by
  constructor
  · intro h
    obtain ⟨_, hunbound⟩ | ⟨_, hsome, _⟩ := inject_cases h
    · by_contra hbound
      exact hunbound (rulesFor_ne_nil_iff.mp hbound)
    · cases hsome
  · exact inject_of_nil

theorem inject_binding (rules : List Rule) (d : Declaration) :
    Binding d (rulesFor rules d.name) (inject rules d) where
  unbound := inject_eq_none_iff
  miscounted := by
    rw [inject_eq_error_iff]
    simp
  outOfField n := by
    rw [inject_eq_error_iff]
    simp
  bound _ := inject_eq_some_iff

/-- **Injection is decided by the rules of the signal**, by index and position. -/
theorem inject_specified (rules : List Rule) (d : Declaration) :
    ∃ placed, Placed rules d.name placed ∧
      (∀ others, Placed rules d.name others → others = placed) ∧
      Binding d (placed.map (·.1)) (inject rules d) ∧
      ∀ rules', Edits d.name rules rules' → inject rules' d = inject rules d := by
  obtain ⟨placed, hplaced, hrules⟩ := exists_placed rules d.name
  refine ⟨placed, hplaced, fun _ hothers => hplaced.unique hothers, ?_,
    fun _ h => inject_congr (rulesFor_of_edits h)⟩
  rw [hrules]
  exact inject_binding rules d

/-- Two rules for a signal, the first slot last, with another between them. -/
def interleavedTable : List Rule :=
  [.ofNat 1 "limit" 18, .ofNat 0 "kind" 5, .ofNat 0 "limit" 21]

/-- The other rule moves to the front. -/
theorem interleavedTable_specified :
    inject interleavedTable ⟨"limit", 2⟩ = .ok (some (.array [21, 18])) ∧
      inject [.ofNat 0 "kind" 5, .ofNat 1 "limit" 18, .ofNat 0 "limit" 21] ⟨"limit", 2⟩ =
        .ok (some (.array [21, 18])) := by
  obtain ⟨_, _, _, _, hedits⟩ := inject_specified interleavedTable ⟨"limit", 2⟩
  have hinject : inject interleavedTable ⟨"limit", 2⟩ = .ok (some (.array [21, 18])) := by cbv
  have hmove : Edits "limit" interleavedTable
      [.ofNat 0 "kind" 5, .ofNat 1 "limit" 18, .ofNat 0 "limit" 21] := by
    have hsame : [Rule.ofNat 1 "limit" 18] ++ [.ofNat 0 "limit" 21] =
        [] ++ [.ofNat 1 "limit" 18, .ofNat 0 "limit" 21] := rfl
    exact @edits_of_move "limit" (.ofNat 0 "kind" 5) (by decide) _ _ _ _ hsame
  exact ⟨hinject, (hedits _ hmove).trans hinject⟩

end Disclosure.Policy
