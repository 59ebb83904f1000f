import Disclosure.Proofs.Assignment
import Disclosure.Proofs.Build.Resolution
import Disclosure.Proofs.Issuer.Wire

/-! When an assignment is made of field elements.

What enters an assignment is reduced into the field, is small, or is checked against the
order, with one exception: the coordinates of trustee keys are taken as they are given. So
every number of an assignment is below the order exactly when those of the keys that it
lists are (`build_canonical_iff`). -/
namespace Disclosure

/-- Every number is a field element, so that no two are the same element and every text of
the JSON is read back as one of them. -/
structure Assignment.Canonical (a : Assignment) : Prop where
  inField : ∀ n ∈ a.numbers, n < Field.order
  apart : ∀ m ∈ a.numbers, ∀ n ∈ a.numbers, Field.Element.reduce m = .reduce n → m = n
  readable : ∀ text ∈ a.toJson.texts, ∃ n ∈ a.numbers, Field.ofDecimal text = .ok n

theorem Assignment.canonical_iff {a : Assignment} : a.Canonical ↔ ∀ n ∈ a.numbers, n < Field.order := by
  refine ⟨fun h => h.inField, fun h => ⟨h, fun m hm n hn heq => ?_, fun text htext => ?_⟩⟩
  · rw [Field.reduce_eq (h m hm), Field.reduce_eq (h n hn)] at heq
    exact Fin.val_eq_of_eq heq
  · obtain ⟨n, hn, rfl⟩ := exists_number_of_mem_texts htext
    exact ⟨n, hn, Field.ofDecimal_write_eq_ok_iff.mpr ⟨h n hn, rfl⟩⟩

/-- The keys that a trustee signal lists have their coordinates in the field. -/
def Request.ListsInField (r : Request) (d : Declaration) : Prop :=
  d.name = Reserved.trusteePublicKeys.name → ∀ keys, r.materials.settledTrusteeKeys = .ok (some keys) →
    ∀ key ∈ keys.take (d.arity / 2), key.x < Field.order ∧ key.y < Field.order

/-- All trustee keys that a request lists have their coordinates in the field. -/
def Request.TrusteesInField (r : Request) : Prop :=
  ∀ d ∈ r.circuit.privateSignals ++ r.circuit.publicSignals, r.ListsInField d

section Build
variable {r : Request}

theorem lt_of_payload (hr : r.Standard) {p : Payload} (h : r.payload = .ok p) :
    ∀ n ∈ p.elements, n < Field.order := by
  unfold Request.payload SignatureScheme.payload at h
  rw [hr.scheme] at h
  split at h
  · exact BabyJubJub.lt_of_parse h
  · cases h

/-! ### Signals -/

/-- Of the materials only trustee keys can be out of the field. -/
theorem lt_iff_of_fromMaterial (hr : r.Standard)
    {d : Declaration} {kind : Reserved} (hname : d.name = kind.name)
    {ns : List Nat} (h : Plan.FromMaterial r d kind ns) :
    (∀ n ∈ ns, n < Field.order) ↔ r.ListsInField d := by
  have hother : kind ≠ .trusteePublicKeys → r.ListsInField d := by
    intro hne hlists
    have hkinds := (Declaration.ofName?_of_name hname).symm.trans (Declaration.ofName?_of_name hlists)
    exact absurd (Option.some.inj hkinds) hne
  cases h with
  | holderKey _ _ hreduced =>
    refine ⟨fun _ => hother nofun, fun _ n hn => ?_⟩
    rw [List.mem_singleton.mp hn, hreduced hr.scheme]
    exact Nat.mod_lt _ Field.order_pos
  | trusteeKeys hkeys _ _ =>
    simp only [List.mem_flatMap, List.mem_cons, List.not_mem_nil, or_false]
    constructor
    · intro h _ keys' hkeys' key hkey
      rw [hkeys] at hkeys'
      cases hkeys'
      exact ⟨h key.x ⟨key, hkey, .inl rfl⟩, h key.y ⟨key, hkey, .inr rfl⟩⟩
    · rintro h n ⟨key, hkey, rfl | rfl⟩
      · exact (h hname _ hkeys key hkey).1
      · exact (h hname _ hkeys key hkey).2
  | timestamp =>
    refine ⟨fun _ => hother nofun, fun _ n hn => ?_⟩
    rw [List.mem_singleton.mp hn]
    exact Nat.lt_trans (UInt64.toNat_lt _) (by decide)
  | root hp =>
    refine ⟨fun _ => hother nofun, fun _ n hn => lt_of_payload hr hp n ?_⟩
    rw [List.mem_singleton.mp hn]
    exact List.mem_cons_self
  | issuerKey hp =>
    refine ⟨fun _ => hother nofun, fun _ n hn => lt_of_payload hr hp n ?_⟩
    exact List.mem_cons_of_mem _ (List.mem_append_left _ hn)
  | signature hp =>
    refine ⟨fun _ => hother nofun, fun _ n hn => lt_of_payload hr hp n ?_⟩
    exact List.mem_cons_of_mem _ (List.mem_append_right _ hn)

theorem listsInField_of_open {d : Declaration} (hopen : d.isReserved = false) :
    r.ListsInField d := fun hlists =>
  absurd hlists (Declaration.isReserved_eq_false_iff.mp hopen .trusteePublicKeys)

theorem lt_iff_of_discloses (hr : r.Standard) {tree : Option Claim.Lookup}
    (htree : Plan.claimsTree r = .ok tree) {d : Declaration} {x : Disclosed} (h : Plan.Discloses r tree d x) :
    (∀ n ∈ x.value.elements, n < Field.order) ↔ r.ListsInField d := by
  cases h with
  | material hname hv => exact lt_iff_of_fromMaterial hr hname (Plan.fromMaterial_of_reservedOf hv).1
  | claim hopen _ hsome hfound =>
    refine ⟨fun _ => listsInField_of_open hopen, fun _ n hn => ?_⟩
    have hclaim := (commits_of_found htree hsome hfound).claimed hr.accumulator
    rw [List.mem_singleton.mp hn]
    exact Claim.flatten_lt _ _ hclaim

theorem lt_iff_of_publishes (hr : r.Standard) {d : Declaration} {x : Option (String × SignalValue)}
    (h : Plan.Publishes r d x) :
    (∀ pair ∈ x, ∀ n ∈ pair.2.elements, n < Field.order) ↔ r.ListsInField d := by
  cases h with
  | positional h =>
    refine ⟨fun _ hlists => ?_, fun _ => nofun⟩
    rw [Request.not_isPositional_of_name hlists] at h
    cases h
  | undated _ hname _ =>
    exact ⟨fun _ hlists => absurd (hname.symm.trans hlists) (by decide), fun _ => nofun⟩
  | material _ hname hv =>
    rw [← lt_iff_of_fromMaterial hr hname (Plan.fromMaterial_of_reservedOf hv).1]
    simp
  | bound _ hopen hvalue =>
    refine ⟨fun _ => listsInField_of_open hopen, fun _ pair hpair => ?_⟩
    obtain ⟨v, rfl, rfl⟩ := Option.map_eq_some_iff.mp hpair
    cases hpolicy : r.policy with
    | none =>
      rw [hpolicy] at hvalue
      cases hvalue
    | some p =>
      rw [hpolicy] at hvalue
      exact Policy.lt_of_inject hvalue

/-- What holds of each result for its own reason holds of all for all reasons. -/
theorem forall_mem_iff_of_forall₂ {R : α → β → Prop}
    {P : β → Prop} {Q : α → Prop} {as : List α}
    {bs : List β} (h : List.Forall₂ R as bs) (hR : ∀ a b, R a b → (P b ↔ Q a)) :
    (∀ b ∈ bs, P b) ↔ ∀ a ∈ as, Q a := by
  induction h with
  | nil => exact ⟨fun _ => nofun, fun _ => nofun⟩
  | cons hab _ ih => rw [List.forall_mem_cons, List.forall_mem_cons, hR _ _ hab, ih]

theorem signals_lt_iff (hr : r.Standard) {a : Assignment} (parts : Plan.Parts r a) :
    (∀ n ∈ a.signals.flatMap (·.2.elements), n < Field.order) ↔ r.TrusteesInField := by
  have hprivates := forall_mem_iff_of_forall₂ parts.discloses fun d x =>
    lt_iff_of_discloses hr parts.claimsTree_eq (d := d) (x := x)
  have hpublics := forall_mem_iff_of_forall₂ parts.publishes fun d x =>
    lt_iff_of_publishes hr (d := d) (x := x)
  rw [Request.TrusteesInField, List.forall_mem_append, ← hprivates, ← hpublics, parts.signals,
    List.flatMap_append, List.forall_mem_append, List.forall_mem_flatMap, List.forall_mem_flatMap,
    List.forall_mem_map, List.forall_mem_filterMap]
  rfl

/-! ### The key and the siblings -/

theorem key_lt {keys : List Bytes} {key : Nat}
    (h : Request.packKeys keys = .ok (some key)) : key < Field.order := by
  unfold Request.packKeys at h
  split at h
  · cases h
  · obtain ⟨_, hcheck, h⟩ := Outcome.bind_eq_ok_iff.mp h
    cases h
    exact Field.check_eq_ok_iff.mp hcheck

/-- Siblings are nodes. -/
theorem Claim.SparseTree.siblings_lt (t : SparseTree) (path : String) :
    ∀ n ∈ (t.entry path).siblings, n < Field.order := by
  unfold entry
  split
  · exact nofun
  · intro n hn
    obtain ⟨e, _, rfl⟩ := List.mem_map.mp hn
    exact e.isLt

theorem claimsProof_lt (hr : r.Standard) {a : Assignment} (parts : Plan.Parts r a) :
    ∀ n ∈ a.claimsProof.flatten, n < Field.order := by
  have hdiscloses := parts.discloses
  rw [parts.claimsProof]
  obtain ⟨_, htree⟩ | ⟨_, _, t, _, _, htree⟩ :=
    Plan.claimsTree_cases_of_standard hr parts.claimsTree_eq
  · rw [htree] at hdiscloses
    rw [Plan.inclusions_of_none hdiscloses]
    exact nofun
  · rw [htree] at hdiscloses
    rw [Plan.inclusions_eq hdiscloses, List.map_map]
    intro n hn
    obtain ⟨row, hrow, hn⟩ := List.mem_flatten.mp hn
    obtain ⟨d, _, rfl⟩ := List.mem_map.mp hrow
    exact t.siblings_lt _ n hn

/-- **An assignment is canonical when the trustee keys it lists are in the field**, and only
then. -/
theorem build_canonical_iff (hr : r.Standard) {a : Assignment} (h : r.build.outcome = .ok a) :
    a.Canonical ↔ r.TrusteesInField := by
  rw [build_outcome] at h
  obtain ⟨parts⟩ := Plan.exists_parts h
  have hkey : ∀ n ∈ a.claimsKey.toList, n < Field.order := by
    intro n hn
    have hpacked := parts.claimsKey
    rw [Option.mem_toList.mp hn] at hpacked
    exact key_lt hpacked
  rw [Assignment.canonical_iff, Assignment.numbers, List.forall_mem_append, List.forall_mem_append,
    signals_lt_iff hr parts]
  exact ⟨fun h => h.1, fun h => ⟨h, hkey, claimsProof_lt hr parts⟩⟩

end Build

/-- Its trustee keys are small. -/
theorem ageRequest_canonical : ∃ a, ageRequest.build.outcome = .ok a ∧ a.Canonical := by
  obtain ⟨a, ha⟩ := ageRequest_builds
  refine ⟨a, ha, (build_canonical_iff ageRequest_standard ha).mpr fun d _ _ keys hkeys key hkey => ?_⟩
  cases hkeys
  have hkey := List.mem_of_mem_take hkey
  simp only [List.mem_cons, List.not_mem_nil, or_false] at hkey
  rcases hkey with rfl | rfl <;> decide

/-- One trustee key, with the order of the field for a coordinate. -/
def strayKeyRequest : Request where
  credential := { subject := ageSubject, proof := ⟨"", ""⟩ }
  circuit := { name := "trusted", publicSignals := [⟨"trusteePublicKeys", 2⟩] }
  materials := { trusteeKeys := some [⟨Field.order, 5⟩] }

/-- The order is emitted, which is zero in the field and which no reader of numerals takes. -/
theorem strayKeyRequest_emits :
    ∃ a, strayKeyRequest.build.outcome = .ok a ∧ Field.order ∈ a.numbers ∧
      (∀ n, Field.ofDecimal (Decimal.write Field.order) ≠ .ok n) ∧ ¬a.Canonical := by
  refine ⟨⟨[("trusteePublicKeys", .array [Field.order, 5])], none, []⟩, by decide +kernel,
    List.mem_cons_self, fun n h => ?_, fun h => ?_⟩
  · exact absurd (Field.ofDecimal_write_eq_ok_iff.mp h).1 (Nat.lt_irrefl _)
  · exact absurd (h.inField Field.order List.mem_cons_self) (Nat.lt_irrefl _)

end Disclosure
