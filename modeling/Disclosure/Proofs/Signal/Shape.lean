import Disclosure.Circuit
import Disclosure.Proofs.Outcome
import Disclosure.Signal

/-! Names and shapes of signals.

A name is reserved when it is one of the six, and then for one kind of material only. A
value has the shape that its declaration asks for: as many numbers as the arity says,
and a single number exactly where that is one. -/
namespace Disclosure

/-! ### Reserved names -/

@[simp] theorem Reserved.ofName?_eq_some_iff {name : String} {kind : Reserved} :
    ofName? name = some kind ↔ name = kind.name := by
  constructor
  · intro h
    have hfound := List.find?_some (p := fun kind : Reserved => kind.name = name) h
    exact (of_decide_eq_true hfound).symm
  · rintro rfl
    cases kind <;> decide

@[simp] theorem Reserved.ofName?_eq_none_iff {name : String} :
    ofName? name = none ↔ ∀ kind : Reserved, name ≠ kind.name := by
  constructor
  · intro h kind heq
    rw [ofName?_eq_some_iff.mpr heq] at h
    cases h
  · intro h
    cases hname : ofName? name with
    | none => rfl
    | some kind => exact absurd (ofName?_eq_some_iff.mp hname) (h kind)

theorem Reserved.name_inj {kind kind' : Reserved} (h : kind.name = kind'.name) : kind = kind' :=
  Option.some.inj ((ofName?_eq_some_iff.mpr rfl).symm.trans (ofName?_eq_some_iff.mpr h))

namespace Declaration
variable {d : Declaration} {kind : Reserved}

theorem isReserved_eq_false_iff : d.isReserved = false ↔ ∀ kind : Reserved, d.name ≠ kind.name := by
  rw [← Reserved.ofName?_eq_none_iff, isReserved, Option.isSome_eq_false_iff, Option.isNone_iff_eq_none]

theorem ofName?_of_name (h : d.name = kind.name) : Reserved.ofName? d.name = some kind :=
  Reserved.ofName?_eq_some_iff.mpr h

theorem ofName?_of_open (h : d.isReserved = false) : Reserved.ofName? d.name = none :=
  Reserved.ofName?_eq_none_iff.mpr (isReserved_eq_false_iff.mp h)

theorem isReserved_of_name (h : d.name = kind.name) : d.isReserved = true := by
  rw [isReserved, ofName?_of_name h]
  rfl

/-- A declaration is of a reserved name, or it is open to claims and rules. -/
theorem reserved_or_open (d : Declaration) :
    (∃ kind : Reserved, d.name = kind.name) ∨ d.isReserved = false := by
  cases h : Reserved.ofName? d.name with
  | some kind => exact .inl ⟨kind, Reserved.ofName?_eq_some_iff.mp h⟩
  | none => exact .inr (isReserved_eq_false_iff.mpr (Reserved.ofName?_eq_none_iff.mp h))

end Declaration

/-- A reserved signal of the kind is declared, private or public. -/
def Circuit.Declares (c : Circuit) (kind : Reserved) : Prop :=
  ∃ d ∈ c.privateSignals ++ c.publicSignals, d.name = kind.name

instance (c : Circuit) (kind : Reserved) : Decidable (c.Declares kind) :=
  inferInstanceAs (Decidable (∃ d ∈ c.privateSignals ++ c.publicSignals, d.name = kind.name))

/-! ### Shapes -/

namespace SignalValue
variable {d : Declaration} {ns : List Nat} {v : SignalValue}

/-- A value as its declaration asks for it. -/
structure Shaped (d : Declaration) (v : SignalValue) : Prop where
  count : v.elements.length = d.arity
  scalar : v.scalar?.isSome ↔ d.arity = 1

theorem shaped_scalar {n : Nat} (h : d.arity = 1) : shaped d [n] = .ok (.scalar n) := by
  have hcount : [n].length = d.arity := h.symm
  unfold shaped
  rw [if_neg (not_not_intro hcount)]

theorem shaped_array (hcount : ns.length = d.arity) (h : d.arity ≠ 1) : shaped d ns = .ok (.array ns) := by
  unfold shaped
  rw [if_neg (not_not_intro hcount)]
  match ns with
  | [] => rfl
  | [n] => exact absurd hcount.symm h
  | m :: n :: rest => rfl

theorem shaped_eq_ok_iff : shaped d ns = .ok v ↔ v.Shaped d ∧ v.elements = ns := by
  by_cases hcount : ns.length = d.arity
  · by_cases harity : d.arity = 1
    · obtain ⟨n, rfl⟩ := List.length_eq_one_iff.mp (hcount.trans harity)
      rw [shaped_scalar harity]
      constructor
      · intro h
        cases h
        exact ⟨⟨hcount, fun _ => harity, fun _ => rfl⟩, rfl⟩
      · rintro ⟨hshape, helements⟩
        cases v with
        | scalar m => cases helements; rfl
        | array ms => exact absurd (hshape.scalar.mpr harity) nofun
    · rw [shaped_array hcount harity]
      constructor
      · intro h
        cases h
        exact ⟨⟨hcount, nofun, fun h => absurd h harity⟩, rfl⟩
      · rintro ⟨hshape, helements⟩
        cases v with
        | scalar m => exact absurd (hshape.scalar.mp rfl) harity
        | array ms => cases helements; rfl
  · unfold shaped
    rw [if_pos hcount]
    refine ⟨nofun, ?_⟩
    rintro ⟨hshape, rfl⟩
    exact absurd hshape.count hcount

theorem eq_scalar_of_shaped {n : Nat} (h : v.Shaped d) (helements : v.elements = [n]) : v = .scalar n := by
  have harity : d.arity = 1 := by rw [← h.count, helements, List.length_singleton]
  have hvalue := (shaped_eq_ok_iff.mpr ⟨h, helements⟩).symm.trans (shaped_scalar harity)
  exact Except.ok.inj hvalue

/-- A count other than the declared one is the only fault of a shape. -/
def shapeFaults (d : Declaration) (count : Nat) : List Error :=
  if count = d.arity then [] else [.arityMismatch d.name d.arity count]

@[simp] theorem shapeFaults_eq_nil_iff {d : Declaration} {count : Nat} :
    shapeFaults d count = [] ↔ d.arity = count := by
  unfold shapeFaults
  by_cases h : count = d.arity
  · rw [if_pos h]
    exact ⟨fun _ => h.symm, fun _ => rfl⟩
  · rw [if_neg h]
    exact ⟨nofun, fun heq => absurd heq.symm h⟩

theorem firstOf_shaped (d : Declaration) (ns : List Nat) :
    Outcome.FirstOf (shapeFaults d ns.length) (shaped d ns) := by
  unfold shapeFaults shaped
  by_cases hcount : ns.length = d.arity
  · rw [if_pos hcount, if_neg (not_not_intro hcount)]
    split <;> exact .ok _
  · rw [if_neg hcount, if_pos hcount]
    exact .error _ []

end SignalValue
end Disclosure
