import Disclosure.Field
import Disclosure.Proofs.Outcome

/-! Numbers in the field.

A number is taken as it is when it is below the order, and refused as out of the field
otherwise; nothing else can go wrong. -/
namespace Disclosure.Field

theorem reduce_eq {n : Nat} (h : n < order) : Element.reduce n = ⟨n, h⟩ :=
  Fin.ext (Nat.mod_eq_of_lt h)

/-- Every number of the field fits 32 bytes. -/
theorem lt_pow_of_lt_order {n : Nat} (h : n < order) : n < Nat.pow 256 32 :=
  Nat.lt_trans h (by decide)

theorem toElement_eq_ok_iff {n : Nat} {e : Element} :
    toElement n = .ok e ↔ n < order ∧ e = .reduce n := by
  unfold toElement
  by_cases h : n < order
  · rw [dif_pos h, reduce_eq h]
    exact ⟨fun he => ⟨h, by cases he; rfl⟩, fun ⟨_, he⟩ => by rw [he]⟩
  · rw [dif_neg h]
    exact ⟨nofun, fun ⟨hlt, _⟩ => absurd hlt h⟩

theorem toElements_eq_ok_iff {ns : List Nat} {es : List Element} :
    ns.mapM toElement = .ok es ↔ ns = es.map (·.val) := by
  rw [Outcome.mapM_eq_ok_iff]
  induction ns generalizing es with
  | nil =>
    rw [List.forall₂_nil_left_iff]
    constructor
    · rintro rfl
      rfl
    · intro h
      exact List.map_eq_nil_iff.mp h.symm
  | cons n rest ih =>
    rw [List.forall₂_cons_left_iff]
    constructor
    · rintro ⟨e, es, he, hes, rfl⟩
      obtain ⟨hlt, rfl⟩ := toElement_eq_ok_iff.mp he
      rw [ih.mp hes, reduce_eq hlt]
      rfl
    · intro h
      match es, h with
      | e :: es, h =>
        obtain ⟨rfl, hrest⟩ := List.cons.inj h
        have he := toElement_eq_ok_iff.mpr ⟨e.isLt, (reduce_eq e.isLt).symm⟩
        exact ⟨e, es, he, ih.mpr hrest, rfl⟩

theorem exists_elements {ns : List Nat} (h : ∀ n ∈ ns, n < order) :
    ∃ es : List Element, ns = es.map (·.val) := by
  have hval : ∀ n ∈ ns, (Element.reduce n).val = n := fun n hn => Nat.mod_eq_of_lt (h n hn)
  refine ⟨ns.map Element.reduce, ?_⟩
  rw [List.map_map]
  exact ((List.map_congr_left hval).trans (List.map_id ns)).symm

/-- What is wrong with a number that should be in the field. -/
def faults (n : Nat) : List Error :=
  if n < order then [] else [.invalidElement (.outOfField n)]

@[simp] theorem faults_eq_nil_iff {n : Nat} : faults n = [] ↔ n < order := by
  unfold faults
  by_cases h : n < order
  · rw [if_pos h]
    exact ⟨fun _ => h, fun _ => rfl⟩
  · rw [if_neg h]
    exact ⟨nofun, fun hlt => absurd hlt h⟩

theorem mem_faults {n : Nat} {e : Error} : e ∈ faults n ↔
    order ≤ n ∧ e = .invalidElement (.outOfField n) := by
  unfold faults
  by_cases h : n < order
  · rw [if_pos h]
    exact ⟨nofun, fun ⟨hle, _⟩ => absurd h (Nat.not_lt.mpr hle)⟩
  · rw [if_neg h, List.mem_singleton]
    exact ⟨fun he => ⟨Nat.not_lt.mp h, he⟩, fun he => he.2⟩

/-- Of several numbers the first that is out of the field is at fault. -/
theorem head?_flatMap_faults {ns : List Nat} {e : Error} : (ns.flatMap faults).head? = some e ↔
    ∃ n, ns.find? (order ≤ ·) = some n ∧ e = .invalidElement (.outOfField n) := by
  induction ns with
  | nil => simp
  | cons n rest ih =>
    by_cases h : n < order
    · have hnone : faults n = [] := faults_eq_nil_iff.mpr h
      have hskip : ¬order ≤ n := Nat.not_le.mpr h
      rw [List.flatMap_cons, hnone, List.nil_append, ih, List.find?_cons_of_neg (by simpa using hskip)]
    · have hfault : faults n = [.invalidElement (.outOfField n)] := if_neg h
      have hfound : order ≤ n := Nat.not_lt.mp h
      rw [List.flatMap_cons, hfault, List.find?_cons_of_pos (by simpa using hfound)]
      simp [eq_comm]

theorem firstOf_toElement (n : Nat) : Outcome.FirstOf (faults n) (toElement n) := by
  unfold faults toElement
  by_cases h : n < order
  · rw [if_pos h, dif_pos h]
    exact .ok _
  · rw [if_neg h, dif_neg h]
    exact .error _ []

theorem firstOf_check (n : Nat) : Outcome.FirstOf (faults n) (check n) :=
  .ite (fun _ => .ok ()) fun _ => .error _ []

theorem check_eq_ok_iff {n : Nat} {u : Unit} : check n = .ok u ↔ n < order := by
  rw [← faults_eq_nil_iff, ← (firstOf_check n).ok_iff]
  exact ⟨fun h => ⟨u, h⟩, fun ⟨_, h⟩ => h⟩

theorem firstOf_ofBytes (bytes : Bytes) :
    Outcome.FirstOf (faults (Bytes.ofBigEndian bytes)) (ofBytes bytes) :=
  (firstOf_check (Bytes.ofBigEndian bytes)).map fun _ => Bytes.ofBigEndian bytes

theorem ofBytes_eq {bytes : Bytes} {n : Nat} (h : ofBytes bytes = .ok n) : n = Bytes.ofBigEndian bytes := by
  obtain ⟨_, _, hn⟩ := Outcome.bind_eq_ok_iff.mp h
  cases hn
  rfl

theorem lt_of_ofBytes {bytes : Bytes} {n : Nat} (h : ofBytes bytes = .ok n) : n < order := by
  obtain ⟨_, hcheck, hn⟩ := Outcome.bind_eq_ok_iff.mp h
  cases hn
  exact check_eq_ok_iff.mp hcheck

end Disclosure.Field
