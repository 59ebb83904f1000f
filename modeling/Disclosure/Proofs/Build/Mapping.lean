import Disclosure.Proofs.Assignment
import Disclosure.Proofs.Build.Resolution

/-! When an assignment is one mapping.

An assignment lists the private signals, the public ones that resolve, and where claims are
disclosed their key and their siblings under two names of their own. Nothing compares these
names with each other. So an assignment is a mapping exactly when its request uses each name
for one of them only (`build_isMapping_iff`). -/
namespace Disclosure

/-- Each name is used for one output. -/
structure Request.NamesOnce (r : Request) : Prop where
  distinct : ((r.circuit.privateSignals ++ r.circuit.publicSignals.filter r.resolves).map (·.name)).Nodup
  apart : ∀ d ∈ r.circuit.privateSignals, d.name ≠ claimsKeyName ∧ d.name ≠ claimsProofName

section Names
variable {r : Request}

theorem map_fst_of_given {Numbers : Declaration → List Nat → Prop} {ds : List Declaration}
    {pairs : List (String × SignalValue)} (h : List.Forall₂ (Given Numbers) ds pairs) :
    pairs.map (·.1) = ds.map (·.name) := by
  induction h with
  | nil => rfl
  | cons hgiven _ ih => rw [List.map_cons, List.map_cons, hgiven.name, ih]

/-- The names of the signals, in the order of their declarations. -/
theorem map_fst_signals {a : Assignment} (parts : Plan.Parts r a) :
    a.signals.map (·.1) =
      (r.circuit.privateSignals ++ r.circuit.publicSignals.filter r.resolves).map (·.name) := by
  obtain ⟨privates, publics, hsignals, hprivates, hpublics⟩ := given_of_parts parts
  rw [hsignals, List.map_append, List.map_append, map_fst_of_given hprivates,
    map_fst_of_given hpublics]

theorem packKeys_eq_none_iff {keys : List Bytes} {key : Option Nat} (h : Request.packKeys keys = .ok key) :
    key = none ↔ keys = [] := by
  unfold Request.packKeys at h
  by_cases hnil : keys = []
  · rw [if_pos hnil] at h
    cases h
    exact ⟨fun _ => hnil, fun _ => rfl⟩
  · rw [if_neg hnil] at h
    obtain ⟨_, _, h⟩ := Outcome.bind_eq_ok_iff.mp h
    cases h
    exact ⟨nofun, fun heq => absurd heq hnil⟩

/-- There is a key exactly where claims are disclosed. -/
theorem claimsKey_eq_none_iff {a : Assignment} (parts : Plan.Parts r a) :
    a.claimsKey = none ↔ r.claimSignals = [] := by
  rw [packKeys_eq_none_iff parts.claimsKey, List.map_eq_nil_iff]
  have hdiscloses := parts.discloses
  obtain ⟨hnil, htree⟩ | ⟨hne, _, t, _, _, htree⟩ := Plan.claimsTree_cases parts.claimsTree_eq
  · rw [htree] at hdiscloses
    rw [Plan.inclusions_of_none hdiscloses]
    exact ⟨fun _ => hnil, fun _ => rfl⟩
  · rw [htree] at hdiscloses
    rw [Plan.inclusions_eq hdiscloses, List.map_eq_nil_iff]
    rfl

/-- Every name that is listed. -/
theorem map_fst_circuitInput {a : Assignment} (parts : Plan.Parts r a) :
    a.circuitInput.map (·.1) =
      (r.circuit.privateSignals ++ r.circuit.publicSignals.filter r.resolves).map (·.name) ++
        if r.claimSignals = [] then [] else [claimsKeyName, claimsProofName] := by
  have hkey := claimsKey_eq_none_iff parts
  rw [← map_fst_signals parts]
  unfold Assignment.circuitInput
  cases h : a.claimsKey with
  | none =>
    rw [if_pos (hkey.mp h), List.map_append, List.map_map]
    rfl
  | some key =>
    have hne : r.claimSignals ≠ [] := fun hnil => by
      rw [hkey.mpr hnil] at h
      cases h
    rw [if_neg hne, List.map_append, List.map_map]
    rfl

/-- A public signal that resolves has neither of the two names. -/
theorem not_positional_of_resolves {d : Declaration} (h : r.resolves d = true) :
    d.name ≠ claimsKeyName ∧ d.name ≠ claimsProofName := by
  unfold Request.resolves at h
  by_cases hpositional : d.name = claimsKeyName ∨ d.name = claimsProofName
  · rw [if_pos hpositional] at h
    cases h
  · exact not_or.mp hpositional

/-- Without claim signals no private signal has one of the two names. -/
theorem apart_of_nil (h : r.claimSignals = []) {d : Declaration} (hd : d ∈ r.circuit.privateSignals) :
    d.name ≠ claimsKeyName ∧ d.name ≠ claimsProofName := by
  rcases d.reserved_or_open with ⟨kind, hname⟩ | hopen
  · exact not_or.mp (not_positional_iff.mp (Request.not_isPositional_of_name hname))
  · have hmem := Request.mem_claimSignals.mpr ⟨hd, hopen⟩
    rw [h] at hmem
    cases hmem

theorem nodup_circuitInput_iff {a : Assignment} (parts : Plan.Parts r a) :
    (a.circuitInput.map (·.1)).Nodup ↔ r.NamesOnce := by
  rw [map_fst_circuitInput parts]
  by_cases hnil : r.claimSignals = []
  · rw [if_pos hnil, List.append_nil]
    exact ⟨fun h => ⟨h, fun _ => apart_of_nil hnil⟩, fun h => h.distinct⟩
  · rw [if_neg hnil, List.nodup_append]
    constructor
    · intro ⟨hdistinct, _, hdisjoint⟩
      refine ⟨hdistinct, fun d hd => ?_⟩
      have hname := List.mem_map_of_mem (f := Declaration.name)
        (List.mem_append_left (r.circuit.publicSignals.filter r.resolves) hd)
      exact ⟨hdisjoint _ hname _ (by simp), hdisjoint _ hname _ (by simp)⟩
    · intro h
      refine ⟨h.distinct, by decide, fun name hname other hother => ?_⟩
      obtain ⟨d, hd, rfl⟩ := List.mem_map.mp hname
      have hapart : d.name ≠ claimsKeyName ∧ d.name ≠ claimsProofName := by
        rcases List.mem_append.mp hd with hd | hd
        · exact h.apart d hd
        · exact not_positional_of_resolves (List.mem_filter.mp hd).2
      simp only [List.mem_cons, List.not_mem_nil, or_false] at hother
      rcases hother with rfl | rfl
      · exact hapart.1
      · exact hapart.2

/-- **An assignment is one mapping when each name is used once**, and only then. -/
theorem build_isMapping_iff {a : Assignment} (h : r.build.outcome = .ok a) : a.IsMapping ↔ r.NamesOnce := by
  rw [build_outcome] at h
  obtain ⟨parts⟩ := Plan.exists_parts h
  rw [Assignment.isMapping_iff, nodup_circuitInput_iff parts]

end Names

/-- The request uses each name once. -/
theorem ageRequest_isMapping : ∃ a, ageRequest.build.outcome = .ok a ∧ a.IsMapping := by
  obtain ⟨a, ha⟩ := ageRequest_builds
  exact ⟨a, ha, (build_isMapping_iff ha).mpr ⟨by decide, by decide⟩⟩

/-- One public signal, declared twice. -/
def twiceDatedRequest : Request where
  credential := { subject := ageSubject, proof := ⟨"", ""⟩ }
  circuit := { name := "dated", publicSignals := [⟨"currentDate", 1⟩, ⟨"currentDate", 1⟩] }
  materials := { timestamp := some 20240101 }

/-- The date is listed twice. -/
theorem twiceDatedRequest_repeats :
    ∃ a, twiceDatedRequest.build.outcome = .ok a ∧
      a.circuitInput = [("currentDate", [20240101]), ("currentDate", [20240101])] ∧ ¬a.IsMapping := by
  refine ⟨⟨[("currentDate", .scalar 20240101), ("currentDate", .scalar 20240101)], none, []⟩,
    by decide +kernel, rfl, fun h => ?_⟩
  exact absurd h.distinct (by decide)

end Disclosure
