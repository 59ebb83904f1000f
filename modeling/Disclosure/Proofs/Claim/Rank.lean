import Disclosure.Claim.Sparse
import Disclosure.Proofs.Keyed
import Disclosure.Proofs.Text.Characters

/-! Claims in path order.

The rank of a path is the number of claims before it, paths being compared byte for
byte. In a list sorted by path, where none repeats, a claim stands at its path's rank
(`rank_getElem`). -/
namespace Disclosure.Claim

/-- The number of claims whose path comes before `path`, byte for byte. -/
def rank (claims : Claims) (path : String) : Nat :=
  claims.countP fun c => decide (Text.bytes c.1 < Text.bytes path)

theorem rank_eq_countP (claims : Claims) (path : String) :
    rank claims path = claims.countP fun c => decide (c.1 < path) :=
  List.countP_congr fun c _ => by rw [decide_eq_true_iff, decide_eq_true_iff, Text.lt_iff_bytes_lt]

theorem rank_perm {a b : Claims} (h : a.Perm b) (path : String) : rank a path = rank b path :=
  h.countP_eq _

theorem rank_lt {claims : Claims} {c : String × Nat} (h : c ∈ claims) :
    rank claims c.1 < claims.length := by
  rw [rank_eq_countP, List.countP_eq_length_filter]
  apply List.length_filter_lt_length_iff_exists.mpr
  refine ⟨c, h, ?_⟩
  rw [decide_eq_true_iff]
  exact String.lt_irrefl c.1

theorem rank_getElem {claims : Claims} (h : Keyed.Ordered claims) {i : Nat} (hi : i < claims.length) :
    rank claims claims[i].1 = i := by
  have hlt : (claims.take i).countP (fun c => decide (c.1 < claims[i].1)) = i := by
    have hall : ∀ c ∈ claims.take i, decide (c.1 < claims[i].1) = true := by
      intro c hc
      obtain ⟨j, hj, rfl⟩ := List.mem_take_iff_getElem.mp hc
      rw [decide_eq_true_iff]
      exact List.pairwise_iff_getElem.mp h j i (by omega) hi (by omega)
    rw [List.countP_eq_length.mpr hall, List.length_take]
    omega
  have hge : (claims.drop i).countP (fun c => decide (c.1 < claims[i].1)) = 0 := by
    apply List.countP_eq_zero.mpr
    intro c hc
    obtain ⟨j, hj, rfl⟩ := List.mem_drop_iff_getElem.mp hc
    rw [decide_eq_true_iff]
    by_cases h0 : j = 0
    · subst h0
      exact String.lt_irrefl _
    · exact String.lt_asymm (List.pairwise_iff_getElem.mp h i (i + j) hi (by omega) (by omega))
  calc rank claims claims[i].1
    _ = claims.countP (fun c => decide (c.1 < claims[i].1)) := rank_eq_countP claims _
    _ = (claims.take i ++ claims.drop i).countP (fun c => decide (c.1 < claims[i].1)) := by
      rw [List.take_append_drop]
    _ = i := by rw [List.countP_append, hlt, hge, Nat.add_zero]

/-! ### Sorting by path -/

theorem sorted_perm (claims : Claims) : (sorted claims).Perm claims :=
  List.mergeSort_perm claims _

@[simp] theorem mem_sorted {claims : Claims} {c : String × Nat} : c ∈ sorted claims ↔ c ∈ claims :=
  (sorted_perm claims).mem_iff

@[simp] theorem length_sorted (claims : Claims) : (sorted claims).length = claims.length :=
  (sorted_perm claims).length_eq

@[simp] theorem rank_sorted (claims : Claims) (path : String) :
    rank (sorted claims) path = rank claims path :=
  rank_perm (sorted_perm claims) path

theorem pairwise_sorted (claims : Claims) : (sorted claims).Pairwise (·.1 ≤ ·.1) := by
  have htrans : ∀ a b c : String × Nat, decide (a.1 ≤ b.1) = true → decide (b.1 ≤ c.1) = true →
      decide (a.1 ≤ c.1) = true := by
    intro a b c hab hbc
    rw [decide_eq_true_iff] at *
    exact String.le_trans hab hbc
  have htotal : ∀ a b : String × Nat, (decide (a.1 ≤ b.1) || decide (b.1 ≤ a.1)) = true := by
    intro a b
    rw [Bool.or_eq_true, decide_eq_true_iff, decide_eq_true_iff]
    exact String.le_total a.1 b.1
  exact (List.pairwise_mergeSort htrans htotal claims).imp fun hab => of_decide_eq_true hab

/-- Among sorted claims a path repeats exactly when one is followed by itself. -/
theorem repeated?_eq_none_iff {claims : Claims} (h : claims.Pairwise (·.1 ≤ ·.1)) :
    repeated? claims = none ↔ Keyed.Ordered claims := by
  induction claims using repeated?.induct with
  | case1 a b rest heq =>
    rw [repeated?, if_pos heq]
    refine ⟨nofun, fun hord => ?_⟩
    have hab : a.1 < b.1 := (List.pairwise_cons.mp hord).1 b List.mem_cons_self
    exact absurd (heq ▸ hab) (String.lt_irrefl b.1)
  | case2 a b rest hne ih =>
    obtain ⟨ha, htail⟩ := List.pairwise_cons.mp h
    rw [repeated?, if_neg hne, ih htail]
    refine ⟨fun hord => ?_, fun hord => (List.pairwise_cons.mp hord).2⟩
    have hab : a.1 < b.1 :=
      String.not_le.mp fun hba => hne (String.le_antisymm (ha b List.mem_cons_self) hba)
    refine List.pairwise_cons.mpr ⟨fun c hc => ?_, hord⟩
    rcases List.mem_cons.mp hc with rfl | hc
    · exact hab
    · exact String.lt_trans hab ((List.pairwise_cons.mp hord).1 c hc)
  | case3 claims hshort =>
    match claims, hshort with
    | [], _ => exact ⟨fun _ => List.Pairwise.nil, fun _ => rfl⟩
    | [a], _ => exact ⟨fun _ => List.pairwise_singleton _ a, fun _ => rfl⟩
    | a :: b :: rest, hshort => exact absurd rfl (hshort a b rest)

/-- Sorted claims ascend strictly exactly when no path repeats. -/
theorem ordered_sorted_iff {claims : Claims} :
    Keyed.Ordered (sorted claims) ↔ (claims.map (·.1)).Nodup := by
  have hperm := ((sorted_perm claims).map (·.1)).nodup_iff
  constructor
  · intro h
    exact hperm.mp (Keyed.nodup_of_ordered h)
  · intro h
    have hne : (sorted claims).Pairwise (·.1 ≠ ·.1) :=
      List.pairwise_map.mp (List.nodup_iff_pairwise_ne.mp (hperm.mpr h))
    exact (pairwise_sorted claims).imp₂ (fun _ _ hle hne =>
      String.not_le.mp fun hba => hne (String.le_antisymm hle hba)) hne

end Disclosure.Claim
