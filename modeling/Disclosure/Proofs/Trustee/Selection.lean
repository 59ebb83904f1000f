import Disclosure.Proofs.Build.Resolution
import Disclosure.Proofs.Text.DecimalGrammar
import Mathlib.Data.List.Count

/-! Which trustees inputs involve.

A trustee is involved when both halves of its key are among the inputs. The selection of a
registry keeps the involved trustees and only them, each as often as it is registered, and
that settles the list (`Selection.unique`). Field elements and decimal texts select what
their numbers do. The keys that a build gives to a circuit select the trustees that they
were taken from. -/
namespace Disclosure

namespace Trustee

/-- Both halves of the trustee's key are among the inputs, at any place. -/
def Involved (inputs : List Nat) (t : Trustee) : Prop :=
  t.publicKey.x ∈ inputs ∧ t.publicKey.y ∈ inputs

instance (inputs : List Nat) (t : Trustee) : Decidable (Involved inputs t) :=
  inferInstanceAs (Decidable (_ ∧ _))

/-- The involved trustees of a registry, in its order and as often as they are registered. -/
structure Selection (registry : List Trustee) (inputs : List Nat) (selected : List Trustee) : Prop where
  sublist : selected.Sublist registry
  count : ∀ t, selected.count t = if Involved inputs t then registry.count t else 0

variable {registry : List Trustee} {inputs others : List Nat} {selected : List Trustee}

theorem Involved.mono (h : inputs ⊆ others) {t : Trustee} (ht : Involved inputs t) : Involved others t :=
  ⟨h ht.1, h ht.2⟩

theorem select_eq_filter : select registry inputs = registry.filter fun t => decide (Involved inputs t) := by
  refine List.filter_congr fun t _ => ?_
  rw [Bool.eq_iff_iff, Bool.and_eq_true, List.contains_iff_mem, List.contains_iff_mem, decide_eq_true_iff]
  rfl

theorem selection_select : Selection registry inputs (select registry inputs) where
  sublist := List.filter_sublist
  count t := by
    rw [select_eq_filter]
    by_cases ht : Involved inputs t
    · rw [if_pos ht, List.count_filter (p := fun t => decide (Involved inputs t)) (decide_eq_true ht)]
    · rw [if_neg ht, List.count_eq_zero]
      exact fun hmem => ht (of_decide_eq_true (List.mem_filter.mp hmem).2)

/-- A selection holds nobody but the involved, and nobody else is left to add. -/
theorem Selection.unique (h : Selection registry inputs selected) : selected = select registry inputs := by
  have hinvolved : ∀ t ∈ selected, decide (Involved inputs t) = true := by
    intro t ht
    have hpos := List.count_pos_iff.mpr ht
    rw [h.count t] at hpos
    by_cases hin : Involved inputs t
    · exact decide_eq_true hin
    · rw [if_neg hin] at hpos
      exact absurd hpos (Nat.lt_irrefl 0)
  have hkept : selected.Sublist (select registry inputs) := by
    rw [select_eq_filter, ← List.filter_eq_self.mpr hinvolved]
    exact h.sublist.filter _
  have hsame : selected.Perm (select registry inputs) :=
    List.perm_iff_count.mpr fun t => by rw [h.count, selection_select.count]
  exact hkept.eq_of_length hsame.length_eq

theorem select_eq_iff : select registry inputs = selected ↔ Selection registry inputs selected :=
  ⟨fun h => h ▸ selection_select, fun h => h.unique.symm⟩

/-- More inputs involve more trustees. -/
theorem select_mono (h : inputs ⊆ others) : (select registry inputs).Sublist (select registry others) := by
  rw [select_eq_filter, select_eq_filter]
  exact List.monotone_filter_right registry fun t ht => decide_eq_true ((of_decide_eq_true ht).mono h)

/-- Only which inputs there are matters, and not where or how often. -/
theorem select_congr (h : ∀ n, n ∈ inputs ↔ n ∈ others) :
    select registry inputs = select registry others :=
  ((select_mono fun n => (h n).mp).antisymm (select_mono fun n => (h n).mpr))

/-- Trustees at the head of a registry that are all involved are all selected. -/
theorem take_prefix_select {count : Nat} (h : ∀ t ∈ registry.take count, Involved inputs t) :
    registry.take count <+: select registry inputs := by
  have hhead := List.filter_eq_self.mpr fun t ht => decide_eq_true (h t ht)
  refine ⟨(registry.drop count).filter fun t => decide (Involved inputs t), ?_⟩
  rw [select_eq_filter]
  conv_rhs => rw [← List.take_append_drop count registry, List.filter_append, hhead]

/-! ### Forms of input -/

theorem selectDecimals_eq_ok_iff {texts : List String} :
    selectDecimals registry texts = .ok selected ↔
      ∃ inputs, List.Forall₂
        (fun text n => Decimal.Denotes text.toList n ∧ n < Field.order) texts inputs ∧
        Selection registry inputs selected := by
  have hread : (fun text n => Field.ofDecimal text = .ok n) =
      fun text n => Decimal.Denotes text.toList n ∧ n < Field.order :=
    funext fun _ => funext fun _ => propext Field.ofDecimal_eq_ok_iff
  unfold selectDecimals
  rw [Outcome.bind_eq_ok_iff, ← hread]
  refine exists_congr fun inputs => and_congr Outcome.mapM_eq_ok_iff ?_
  rw [← select_eq_iff]
  exact ⟨fun h => by cases h; rfl, fun h => by rw [h]⟩

theorem selectDecimals_write (elements : List Field.Element) :
    selectDecimals registry (elements.map fun e => Decimal.write e.val) =
      .ok (select registry (elements.map (·.val))) := by
  refine selectDecimals_eq_ok_iff.mpr ⟨_, ?_, selection_select⟩
  rw [List.forall₂_map_left_iff, List.forall₂_map_right_iff, List.forall₂_same]
  exact fun e _ => ⟨Decimal.read_eq_ok_iff.mp (Decimal.read_write e.val), e.isLt⟩

theorem selectDecimals_fails_iff {texts : List String} :
    (∃ e, selectDecimals registry texts = .error e) ↔
      ∃ text ∈ texts, ∀ n, Decimal.Denotes text.toList n → Field.order ≤ n := by
  have hok : (∃ selected, selectDecimals registry texts = .ok selected) ↔
      ∀ text ∈ texts, ∃ n, Field.ofDecimal text = .ok n := by
    rw [← Outcome.exists_mapM_iff]
    constructor
    · rintro ⟨_, h⟩
      obtain ⟨inputs, hread, _⟩ := Outcome.bind_eq_ok_iff.mp h
      exact ⟨inputs, hread⟩
    · rintro ⟨inputs, hread⟩
      exact ⟨_, Outcome.bind_eq_ok_iff.mpr ⟨inputs, hread, rfl⟩⟩
  rw [Outcome.exists_error_iff, hok]
  simp only [Field.ofDecimal_eq_ok_iff, not_forall, not_exists, not_and, Nat.not_lt, exists_prop]

end Trustee

/-! ### The keys that a circuit is given -/

/-- The trustees' keys are supplied, or none are and they can be loaded. -/
def Materials.HasKeys (m : Materials) (keys : List TrusteeKey) : Prop :=
  m.trusteeKeys = some keys ∨
    m.trusteeKeys = none ∧ ∃ source, m.trusteeKeySource = some source ∧ source.answer 0 = .ok keys

/-- All the numbers that a witness builder is given under the trustees' name. -/
def Assignment.trusteeInputs (a : Assignment) : List Nat :=
  (a.circuitInput.filter (·.1 = Reserved.trusteePublicKeys.name)).flatMap (·.2)

namespace Trustee
variable {registry : List Trustee} {inputs : List Nat}

theorem settled_of_hasKeys {m : Materials} {keys : List TrusteeKey} (h : m.HasKeys keys) :
    m.settledTrusteeKeys = .ok (some keys) := by
  unfold Materials.settledTrusteeKeys
  obtain hsupplied | ⟨hnone, source, hsource, hanswer⟩ := h
  · rw [hsupplied]
    rfl
  · rw [hnone, hsource]
    show ((source.answer 0).mapError (Error.loader .trusteeKeys)).map some = _
    rw [hanswer]
    rfl

/-- What is emitted under the trustees' name is given to the witness builder. -/
theorem subset_trusteeInputs {a : Assignment} {name : String} {v : SignalValue}
    (hname : name = Reserved.trusteePublicKeys.name) (h : (name, v) ∈ a.signals) :
    v.elements ⊆ a.trusteeInputs := by
  intro n hn
  have hpair : (name, v.elements) ∈ a.circuitInput :=
    List.mem_append_left _ (List.mem_map.mpr ⟨(name, v), h, rfl⟩)
  exact List.mem_flatMap.mpr ⟨_, List.mem_filter.mpr ⟨hpair, decide_eq_true hname⟩, hn⟩

/-- Whoever has a key among the first keys is involved in their numbers. -/
theorem involved_of_take {count : Nat} {t : Trustee} (h : t ∈ registry.take count) :
    Involved (((registry.map (·.publicKey)).take count).flatMap fun key => [key.x, key.y]) t := by
  have hkey : t.publicKey ∈ (registry.map (·.publicKey)).take count := by
    rw [← List.map_take]
    exact List.mem_map_of_mem h
  exact ⟨List.mem_flatMap.mpr ⟨_, hkey, List.mem_cons_self⟩,
    List.mem_flatMap.mpr ⟨_, hkey, List.mem_cons_of_mem _ List.mem_cons_self⟩⟩

/-- A pair that a build emits for the first keys of a registry selects their trustees. -/
structure Emitted (registry : List Trustee) (a : Assignment)
    (d : Declaration) (count : Nat) (v : SignalValue) :
    Prop where
  listed : (d.name, v) ∈ a.signals
  length : v.elements.length = 2 * count
  enough : count ≤ registry.length
  selects : ∀ inputs, v.elements ⊆ inputs → registry.take count <+: select registry inputs

theorem exists_emitted {r : Request} {a : Assignment} (h : r.build.outcome = .ok a) {d : Declaration}
    (hd : d ∈ r.circuit.privateSignals ++ r.circuit.publicSignals)
    (hname : d.name = Reserved.trusteePublicKeys.name) {count : Nat} (harity : d.arity = 2 * count)
    (hkeys : r.materials.HasKeys (registry.map (·.publicKey))) : ∃ v, Emitted registry a d count v := by
  rw [build_outcome] at h
  obtain ⟨parts⟩ := Plan.exists_parts h
  obtain ⟨v, hlisted, hshaped, hmaterial⟩ := fromMaterial_of_declared parts hd hname nofun
  have hhalf : d.arity / 2 = count := by omega
  generalize helements : v.elements = ns at hmaterial
  cases hmaterial with
  | @trusteeKeys keys hsettled _ henough =>
    cases hsettled.symm.trans (settled_of_hasKeys hkeys)
    rw [hhalf] at henough helements
    rw [List.length_map] at henough
    refine ⟨v, hlisted, hshaped.count.trans harity, henough, fun inputs hinputs => ?_⟩
    exact take_prefix_select fun t ht =>
      (helements ▸ involved_of_take ht : Involved v.elements t).mono hinputs

/-- What selection by trustees' keys owes, over all forms of input. -/
structure SelectsInvolved (registry : List Trustee) : Prop where
  selects : ∀ inputs selected, select registry inputs = selected ↔ Selection registry inputs selected
  /-- Elements and their numerals select what their numbers do. -/
  forms : ∀ elements : List Field.Element,
    selectElements registry elements = select registry (elements.map (·.val)) ∧
      selectDecimals registry (elements.map fun e => Decimal.write e.val) =
        .ok (select registry (elements.map (·.val)))
  anyOrder : ∀ inputs others, (∀ n, n ∈ inputs ↔ n ∈ others) →
    select registry inputs = select registry others
  grows : ∀ inputs others, inputs ⊆ others → (select registry inputs).Sublist (select registry others)
  decimals : ∀ texts selected, selectDecimals registry texts = .ok selected ↔
    ∃ inputs, List.Forall₂
      (fun text n => Decimal.Denotes text.toList n ∧ n < Field.order) texts inputs ∧
      Selection registry inputs selected
  fails : ∀ texts, (∃ e, selectDecimals registry texts = .error e) ↔
    ∃ text ∈ texts, ∀ n, Decimal.Denotes text.toList n → Field.order ≤ n
  emitted : ∀ (r : Request) (a : Assignment) (d : Declaration) (count : Nat), r.build.outcome = .ok a →
    d ∈ r.circuit.privateSignals ++ r.circuit.publicSignals →
      d.name = "trusteePublicKeys" → d.arity = 2 * count →
    r.materials.HasKeys (registry.map (·.publicKey)) →
      (∃ v, Emitted registry a d count v) ∧ registry.take count <+: select registry a.trusteeInputs

/-- **Trustees are selected by one relation**, and a proved request selects at least the
trustees whose keys it was built with. -/
theorem selects_involved (registry : List Trustee) : SelectsInvolved registry where
  selects _ _ := select_eq_iff
  forms elements := ⟨rfl, selectDecimals_write elements⟩
  anyOrder _ _ := select_congr
  grows _ _ := select_mono
  decimals _ _ := selectDecimals_eq_ok_iff
  fails _ := selectDecimals_fails_iff
  emitted _ _ _ _ h hd hname harity hkeys := by
    obtain ⟨v, hemitted⟩ := exists_emitted h hd hname harity hkeys
    exact ⟨⟨v, hemitted⟩, hemitted.selects _ (subset_trusteeInputs hname hemitted.listed)⟩

/-- The request asks for the key of one trustee of two. -/
theorem ageRequest_selects : ∃ a, ageRequest.build.outcome = .ok a ∧
    [⟨"first", ⟨1, 2⟩⟩] <+:
      select [⟨"first", ⟨1, 2⟩⟩, ⟨"second", ⟨3, 4⟩⟩] a.trusteeInputs := by
  obtain ⟨a, ha⟩ := ageRequest_builds
  have hselects :=
    (selects_involved [⟨"first", ⟨1, 2⟩⟩, ⟨"second", ⟨3, 4⟩⟩]).emitted ageRequest a
      ⟨"trusteePublicKeys", 2⟩ 1 ha (by decide) rfl rfl (.inl rfl)
  exact ⟨a, ha, hselects.2⟩

end Trustee
end Disclosure
