import Disclosure.Proofs.Build.Buildable

/-! What an assignment lists.

Each private signal has one pair, and then each public signal that resolves has one, in the
order of the declarations; there are no others. The numbers of a pair are looked up in the
request: a reserved signal's in its own material, another private signal's in the claims and
another public signal's in the rules of the policy. A public signal without material or
rules is left out and not filled. -/
namespace Disclosure

/-- The claims are committed, and the commitment has a value for a path. With the default
accumulator it is the value that the credential claims there. -/
structure Request.Commits (r : Request) (path : String) (value : Nat) : Prop where
  answered : ∃ depth tree, r.depth? = some depth ∧ r.accumulator.build r.claims depth = .ok tree ∧
    (tree.get path).found = true ∧ (tree.get path).value = value
  claimed : r.accumulator = .sparse → (path, value) ∈ r.claims

/-- The numbers that a private signal takes. -/
inductive PrivateNumbers (r : Request) (d : Declaration) : List Nat → Prop
  | material {kind : Reserved} {ns : List Nat} (hname : d.name = kind.name)
      (h : Plan.FromMaterial r d kind ns) : PrivateNumbers r d ns
  | claim {value : Nat} (hname : ∀ kind : Reserved, d.name ≠ kind.name)
      (h : r.Commits (Claim.pathOf d.name) value) : PrivateNumbers r d [value]

/-- The numbers that a public signal takes: those of rules in table order, where it is not
reserved. -/
inductive PublicNumbers (r : Request) (d : Declaration) : List Nat → Prop
  | material {kind : Reserved} {ns : List Nat} (hname : d.name = kind.name)
      (h : Plan.FromMaterial r d kind ns) : PublicNumbers r d ns
  | rules {p : Policy} {placed : List (Rule × Nat)} (hname : ∀ kind : Reserved, d.name ≠ kind.name)
      (hpolicy : r.policy = some p) (h : Policy.Placed p.rules d.name placed) :
      PublicNumbers r d (placed.map fun q => Policy.number q.1)

/-- The pair of a declaration: its name, and its numbers in the declared shape. -/
structure Given (Numbers : Declaration → List Nat → Prop) (d : Declaration)
    (pair : String × SignalValue) : Prop where
  name : pair.1 = d.name
  shaped : pair.2.Shaped d
  numbers : Numbers d pair.2.elements

/-- Whether a public signal has a pair. -/
def Request.resolves (r : Request) (d : Declaration) : Bool :=
  if d.name = claimsKeyName ∨ d.name = claimsProofName then false
  else match Reserved.ofName? d.name, r.policy with
    | some .timestamp, _ => r.materials.timestamp.isSome || r.materials.timestampSource.isSome
    | some _, _ => true
    | none, some p => p.rules.any (·.key = d.name)
    | none, none => false

section Signals
variable {r : Request}

theorem commits_of_found {tree : Option Claim.Lookup}
    (htree : Plan.claimsTree r = .ok tree) {t : Claim.Lookup}
    (hsome : tree = some t) {path : String} (hfound : (t.get path).found = true) :
    r.Commits path (t.get path).value := by
  obtain ⟨_, rfl⟩ | ⟨_, depth, _, hdepth, ht, rfl⟩ := Plan.claimsTree_cases htree
  · cases hsome
  cases hsome
  refine ⟨⟨depth, t, hdepth, ht, hfound, rfl⟩, fun hsparse => ?_⟩
  obtain ⟨s, hs, rfl⟩ := Plan.exists_sparseTree hsparse ht
  obtain ⟨value, hc⟩ := Claim.SparseTree.mem_of_found hs hfound
  have hvalue : (s.lookup.get path).value = value := by
    show (s.entry path).value = value
    rw [Claim.SparseTree.entry_of_build hs hc]
  rw [hvalue]
  exact hc

theorem given_of_discloses {tree : Option Claim.Lookup} (htree : Plan.claimsTree r = .ok tree)
    {d : Declaration} {x : Disclosed} (h : Plan.Discloses r tree d x) :
    Given (PrivateNumbers r) d (x.name, x.value) := by
  cases h with
  | material hname hv =>
    obtain ⟨hmaterial, hshape⟩ := Plan.fromMaterial_of_reservedOf hv
    exact ⟨rfl, hshape, .material hname hmaterial⟩
  | claim hopen harity hsome hfound =>
    refine ⟨rfl, ⟨harity.symm, fun _ => harity, fun _ => rfl⟩, ?_⟩
    exact .claim (Declaration.isReserved_eq_false_iff.mp hopen) (commits_of_found htree hsome hfound)

/-! ### Which public signals resolve -/

theorem not_positional_iff {d : Declaration} :
    Resolution.isPositional d = false ↔ ¬(d.name = claimsKeyName ∨ d.name = claimsProofName) := by
  rw [← Request.isPositional_iff, Bool.not_eq_true]

theorem resolves_of_name {d : Declaration} {kind : Reserved} (h : d.name = kind.name)
    (hkind : kind ≠ .timestamp) : r.resolves d = true := by
  unfold Request.resolves
  rw [if_neg (not_positional_iff.mp (Request.not_isPositional_of_name h)),
    Declaration.ofName?_of_name h]
  cases kind with
  | timestamp => exact absurd rfl hkind
  | _ => rfl

theorem resolves_timestamp {d : Declaration} (h : d.name = Reserved.timestamp.name) :
    r.resolves d = true ↔ ¬r.Undated := by
  unfold Request.resolves Request.Undated
  rw [if_neg (not_positional_iff.mp (Request.not_isPositional_of_name h)),
    Declaration.ofName?_of_name h]
  cases r.materials.timestamp <;> cases r.materials.timestampSource <;> simp

theorem resolves_of_open {d : Declaration} (hopen : d.isReserved = false)
    (hpositional : Resolution.isPositional d = false) :
    r.resolves d = true ↔ ∃ p, r.policy = some p ∧ Policy.Binds p.rules d.name := by
  unfold Request.resolves
  rw [if_neg (not_positional_iff.mp hpositional),
    Declaration.ofName?_of_open hopen]
  cases r.policy with
  | none => exact ⟨nofun, fun ⟨_, h, _⟩ => by cases h⟩
  | some p =>
    show p.rules.any (fun rule => decide (rule.key = d.name)) = true ↔ _
    rw [List.any_eq_true]
    constructor
    · intro ⟨rule, hrule, hkey⟩
      exact ⟨p, rfl, rule, hrule, of_decide_eq_true hkey⟩
    · intro ⟨q, hq, rule, hrule, hkey⟩
      cases hq
      exact ⟨rule, hrule, decide_eq_true hkey⟩

/-- A signal that the policy has rules for takes their values, and another one is left out. -/
theorem given_of_bound {d : Declaration} (hpositional : Resolution.isPositional d = false)
    (hopen : d.isReserved = false) {value : Option SignalValue}
    (h : Resolution.bound r.policy d = .ok value) :
    (value = none ∧ r.resolves d = false) ∨
      ∃ v, value = some v ∧ r.resolves d = true ∧ Given (PublicNumbers r) d (d.name, v) := by
  have hresolves := resolves_of_open (r := r) hopen hpositional
  cases hpolicy : r.policy with
  | none =>
    rw [hpolicy] at h hresolves
    cases h
    refine .inl ⟨rfl, Bool.eq_false_iff.mpr fun hr => ?_⟩
    obtain ⟨p, hp, _⟩ := hresolves.mp hr
    cases hp
  | some p =>
    rw [hpolicy] at h hresolves
    obtain ⟨rfl, hbinds⟩ | ⟨v, rfl, hshape, hbinds, helements⟩ := Policy.inject_cases h
    · refine .inl ⟨rfl, Bool.eq_false_iff.mpr fun hr => ?_⟩
      obtain ⟨q, hq, hbound⟩ := hresolves.mp hr
      cases hq
      exact hbinds hbound
    · obtain ⟨placed, hplaced, hrules⟩ := Policy.exists_placed p.rules d.name
      have hnumbers : v.elements = placed.map fun q => Policy.number q.1 := by
        rw [helements, ← hrules, List.map_map]
        rfl
      refine .inr ⟨v, rfl, hresolves.mpr ⟨p, rfl, hbinds⟩, rfl, hshape, ?_⟩
      rw [hnumbers]
      exact .rules (Declaration.isReserved_eq_false_iff.mp hopen) hpolicy hplaced

/-- A public signal has a pair exactly when it resolves, and then takes its numbers. -/
theorem given_of_publishes {d : Declaration} {x : Option (String × SignalValue)}
    (h : Plan.Publishes r d x) :
    (x = none ∧ r.resolves d = false) ∨
      ∃ pair, x = some pair ∧ r.resolves d = true ∧ Given (PublicNumbers r) d pair := by
  cases h with
  | positional h =>
    refine .inl ⟨rfl, ?_⟩
    unfold Request.resolves
    rw [if_pos (Request.isPositional_iff.mp h)]
  | undated _ hname hnone =>
    refine .inl ⟨rfl, Bool.eq_false_iff.mpr fun hresolves => ?_⟩
    exact (resolves_timestamp hname).mp hresolves (Request.undated_iff.mpr hnone)
  | material _ hname hv =>
    obtain ⟨hmaterial, hshape⟩ := Plan.fromMaterial_of_reservedOf hv
    refine .inr ⟨_, rfl, ?_, rfl, hshape, .material hname hmaterial⟩
    generalize SignalValue.elements _ = ns at hmaterial
    cases hmaterial with
    | timestamp ht =>
      refine (resolves_timestamp hname).mpr fun hundated => ?_
      rw [Request.undated_iff.mp hundated] at ht
      cases ht
    | _ => exact resolves_of_name hname (by decide)
  | bound hpositional hopen hvalue =>
    obtain ⟨rfl, hresolves⟩ | ⟨v, rfl, hresolves, hgiven⟩ := given_of_bound hpositional hopen hvalue
    · exact .inl ⟨rfl, hresolves⟩
    · exact .inr ⟨_, rfl, hresolves, hgiven⟩

theorem given_publics {ds : List Declaration} {xs : List (Option (String × SignalValue))}
    (h : List.Forall₂ (Plan.Publishes r) ds xs) :
    List.Forall₂ (Given (PublicNumbers r)) (ds.filter r.resolves) (xs.filterMap id) := by
  induction h with
  | nil => exact .nil
  | cons hx _ ih =>
    obtain ⟨rfl, hresolves⟩ | ⟨pair, rfl, hresolves, hgiven⟩ := given_of_publishes hx
    · rw [List.filter_cons_of_neg (Bool.eq_false_iff.mp hresolves), List.filterMap_cons_none rfl]
      exact ih
    · rw [List.filter_cons_of_pos hresolves, List.filterMap_cons]
      exact .cons hgiven ih

/-! ### Signals of one material -/

theorem PrivateNumbers.fromMaterial {d : Declaration} {ns : List Nat} (h : PrivateNumbers r d ns)
    {kind : Reserved} (hname : d.name = kind.name) : Plan.FromMaterial r d kind ns := by
  cases h with
  | material hkind hmaterial =>
    cases Reserved.name_inj (hname.symm.trans hkind)
    exact hmaterial
  | claim hopen _ => exact absurd hname (hopen kind)

theorem PublicNumbers.fromMaterial {d : Declaration} {ns : List Nat} (h : PublicNumbers r d ns)
    {kind : Reserved} (hname : d.name = kind.name) : Plan.FromMaterial r d kind ns := by
  cases h with
  | material hkind hmaterial =>
    cases Reserved.name_inj (hname.symm.trans hkind)
    exact hmaterial
  | rules hopen _ _ => exact absurd hname (hopen kind)

/-- The parts of an assignment give it a pair for each signal that has one. -/
theorem given_of_parts {a : Assignment} (parts : Plan.Parts r a) :
    ∃ privates publics, a.signals = privates ++ publics ∧
      List.Forall₂ (Given (PrivateNumbers r)) r.circuit.privateSignals privates ∧
      List.Forall₂ (Given (PublicNumbers r)) (r.circuit.publicSignals.filter r.resolves) publics := by
  refine ⟨_, _, parts.signals, ?_, given_publics parts.publishes⟩
  rw [List.forall₂_map_right_iff]
  exact parts.discloses.imp fun _ _ hx => given_of_discloses parts.claimsTree_eq hx

/-- Whatever is listed under a reserved name is of that material. -/
theorem fromMaterial_of_mem {a : Assignment} (parts : Plan.Parts r a) {kind : Reserved} {v : SignalValue}
    (h : (kind.name, v) ∈ a.signals) :
    ∃ d, d.name = kind.name ∧ v.Shaped d ∧ Plan.FromMaterial r d kind v.elements := by
  obtain ⟨privates, publics, hsignals, hprivates, hpublics⟩ := given_of_parts parts
  rw [hsignals] at h
  rcases List.mem_append.mp h with h | h
  · obtain ⟨d, _, hgiven⟩ := Outcome.exists_left hprivates h
    have hname : d.name = kind.name := hgiven.name.symm
    exact ⟨d, hname, hgiven.shaped, hgiven.numbers.fromMaterial hname⟩
  · obtain ⟨d, _, hgiven⟩ := Outcome.exists_left hpublics h
    have hname : d.name = kind.name := hgiven.name.symm
    exact ⟨d, hname, hgiven.shaped, hgiven.numbers.fromMaterial hname⟩

/-- A declared signal of a material is listed, if it is no timestamp. -/
theorem fromMaterial_of_declared {a : Assignment} (parts : Plan.Parts r a) {d : Declaration}
    (hd : d ∈ r.circuit.privateSignals ++ r.circuit.publicSignals)
    {kind : Reserved} (hname : d.name = kind.name)
    (hkind : kind ≠ .timestamp) :
    ∃ v, (d.name, v) ∈ a.signals ∧ v.Shaped d ∧ Plan.FromMaterial r d kind v.elements := by
  obtain ⟨privates, publics, hsignals, hprivates, hpublics⟩ := given_of_parts parts
  rw [hsignals]
  rcases List.mem_append.mp hd with hd | hd
  · obtain ⟨⟨name, v⟩, hmem, hgiven⟩ := Outcome.exists_right hprivates hd
    cases hgiven.name
    exact ⟨v, List.mem_append_left _ hmem, hgiven.shaped, hgiven.numbers.fromMaterial hname⟩
  · have hresolved := List.mem_filter.mpr ⟨hd, resolves_of_name (r := r) hname hkind⟩
    obtain ⟨⟨name, v⟩, hmem, hgiven⟩ := Outcome.exists_right hpublics hresolved
    cases hgiven.name
    exact ⟨v, List.mem_append_right _ hmem, hgiven.shaped, hgiven.numbers.fromMaterial hname⟩

theorem exists_mem_of_declared {a : Assignment} (parts : Plan.Parts r a) {kind : Reserved}
    (hkind : kind ≠ .timestamp) (h : r.circuit.Declares kind) : ∃ v, (kind.name, v) ∈ a.signals := by
  obtain ⟨d, hd, hname⟩ := h
  obtain ⟨v, hmem, _⟩ := fromMaterial_of_declared parts hd hname hkind
  exact ⟨v, hname ▸ hmem⟩

/-- **An assignment lists what its request gives**: a pair for each private signal, then one
for each public signal that resolves, and nothing else. -/
theorem build_resolves {a : Assignment} (h : r.build.outcome = .ok a) :
    ∃ privates publics, a.signals = privates ++ publics ∧
      List.Forall₂ (Given (PrivateNumbers r)) r.circuit.privateSignals privates ∧
      List.Forall₂ (Given (PublicNumbers r)) (r.circuit.publicSignals.filter r.resolves) publics := by
  rw [build_outcome] at h
  obtain ⟨parts⟩ := Plan.exists_parts h
  exact given_of_parts parts

end Signals

/-- Of the request's public signals two have a pair. -/
theorem ageRequest_resolves :
    ∃ a privates publics, ageRequest.build.outcome = .ok a ∧ a.signals = privates ++ publics ∧
      List.Forall₂ (Given (PrivateNumbers ageRequest))
        [⟨"birthDate", 1⟩, ⟨"holderPrivateKey", 1⟩, ⟨"address_city", 1⟩] privates ∧
      List.Forall₂ (Given (PublicNumbers ageRequest))
        [⟨"limits", 2⟩, ⟨"trusteePublicKeys", 2⟩] publics := by
  obtain ⟨a, ha⟩ := ageRequest_builds
  obtain ⟨privates, publics, hsignals, hprivates, hpublics⟩ := build_resolves ha
  have hresolved : ageRequest.circuit.publicSignals.filter ageRequest.resolves =
      [⟨"limits", 2⟩, ⟨"trusteePublicKeys", 2⟩] := by decide
  rw [hresolved] at hpublics
  exact ⟨a, privates, publics, ha, hsignals, hprivates, hpublics⟩

end Disclosure
