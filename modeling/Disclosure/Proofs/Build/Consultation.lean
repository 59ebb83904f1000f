import Disclosure.Proofs.Build.Frame
import Disclosure.Proofs.Build.Resolution

/-! How often a loader is consulted.

Material with a loader is due one consultation, when none was supplied and a declaration
that needs it is reached. `Request.reached` lists the declarations that a build comes to,
without running one. A step that asks for the material keeps the count at what is due
(`Loadable.Asks`), a run over declarations adds up what each of them needs
(`Loadable.Visits`), and so `build_consults` holds of every build, whatever its loaders
would answer a second time. -/
namespace Disclosure

/-- The declarations that a build comes to: the private ones up to the first that fails, and
the public ones once all private ones are resolved. -/
def Request.reached (r : Request) : List Declaration :=
  Outcome.after r.circuit.validate fun _ =>
    Outcome.after r.checkPolicy fun _ =>
      Outcome.after (Plan.claimsTree r) fun tree =>
        Outcome.reached (Plan.privateSignal r tree) r.circuit.privateSignals ++
          Outcome.after (r.circuit.privateSignals.mapM (Plan.privateSignal r tree)) fun _ =>
            Outcome.reached (Plan.publicSignal r) r.circuit.publicSignals

/-! ### Material with a loader -/

/-- Material that is supplied or loaded, and what a session holds of it. -/
structure Loadable (α : Type) where
  supplied : Option α
  source : Option (Source α)
  kind : LoaderKind
  event : Event
  remembered : Session → Option α
  remember : α → Session → Session
  remembered_remember : ∀ a s, remembered (remember a s) = some a := by intros; rfl
  events_remember : ∀ a s, (remember a s).events = s.events := by intros; rfl

namespace Loadable

def ofTimestamp (m : Materials) : Loadable UInt64 where
  supplied := m.timestamp
  source := m.timestampSource
  kind := .timestamp
  event := .timestampConsulted
  remembered := Session.timestamp
  remember t s := { s with timestamp := some t }

def ofTrusteeKeys (m : Materials) : Loadable (List TrusteeKey) where
  supplied := m.trusteeKeys
  source := m.trusteeKeySource
  kind := .trusteeKeys
  event := .trusteeKeysConsulted
  remembered := Session.trusteeKeys
  remember keys s := { s with trusteeKeys := some keys }

variable (l : Loadable α)

/-- How many consultations are due, the material having been asked for or not. -/
def due (asked : Bool) : Nat :=
  (l.supplied.isNone && l.source.isSome && asked).toNat

/-- What a session shows of the material. -/
def view (s : Session) : Option α × Nat :=
  (l.remembered s, s.events.count l.event)

/-- A session of a build that asked for the material, or did not. -/
structure Kept (asked : Bool) (s : Session) : Prop where
  count : s.events.count l.event = l.due asked
  remembered : (l.remembered s).isSome = (l.supplied.isSome || (l.source.isSome && asked))

/-- A step that asks for the material, or does not. If it fails, the consultations are still
those that are due. -/
def Asks (needed : Bool) (x : Step β) : Prop :=
  ∀ asked s, l.Kept asked s →
    (x.run s).2.events.count l.event = l.due (asked || needed) ∧
      ∀ b, (x.run s).1 = .ok b → l.Kept (asked || needed) (x.run s).2

def fetch : Step (Option α) :=
  Step.fetch l.remembered l.remember l.event l.kind l.source

variable {l}

theorem kept_of_view_eq {asked : Bool} {s s' : Session} (h : l.view s' = l.view s) (hs : l.Kept asked s) :
    l.Kept asked s' := by
  obtain ⟨hremembered, hcount⟩ := Prod.mk.inj h
  exact ⟨hcount.trans hs.count, by rw [hremembered, hs.remembered]⟩

/-- Asking for what is remembered, or for what no loader has, makes nothing due. -/
theorem kept_of_idle {asked : Bool} {s : Session} (hs : l.Kept asked s)
    (h : (l.remembered s).isSome = true ∨ l.source = none) : l.Kept true s := by
  obtain ⟨hcount, hremembered⟩ := hs
  have hsame : l.supplied.isSome = true ∨ (l.source.isSome && asked) = (l.source.isSome && true) := by
    rcases h with h | h
    · rw [h] at hremembered
      rcases Bool.or_eq_true_iff.mp hremembered.symm with hsupplied | hloaded
      · exact .inl hsupplied
      · rw [Bool.and_eq_true] at hloaded
        exact .inr (by rw [hloaded.2])
    · exact .inr (by rw [h]; rfl)
  rcases hsame with hsupplied | hsame
  · refine ⟨?_, ?_⟩
    · rw [hcount, due, due, ← Option.not_isSome, hsupplied]
      rfl
    · rw [hremembered, hsupplied]
      rfl
  · refine ⟨?_, ?_⟩
    · rw [hcount, due, due, Bool.and_assoc, hsame, Bool.and_assoc]
    · rw [hremembered, hsame]

namespace Asks

theorem of_leaves {x : Step β} (h : Step.Leaves l.view x) : l.Asks false x := by
  intro asked s hs
  have hkept := kept_of_view_eq (h s) hs
  rw [Bool.or_false]
  exact ⟨hkept.count, fun _ _ => hkept⟩

/-- What follows leaves the material alone. -/
theorem bind {needed : Bool} {x : Step β} {f : β → Step γ} (hx : l.Asks needed x)
    (hf : ∀ b, Step.Leaves l.view (f b)) : l.Asks needed (x >>= f) := by
  intro asked s hs
  obtain ⟨hcount, hkept⟩ := hx asked s hs
  rcases hrun : x.run s with ⟨u, s'⟩
  rw [hrun] at hcount hkept
  cases u with
  | error e =>
    rw [Step.run_bind_error hrun]
    exact ⟨hcount, nofun⟩
  | ok b =>
    have hafter := kept_of_view_eq (hf b s') (hkept b rfl)
    rw [Step.run_bind_ok hrun]
    exact ⟨hafter.count, fun _ _ => hafter⟩

/-- A session that remembers nothing consults the loader, if there is one, and for the first
time. -/
theorem fetch : l.Asks true l.fetch := by
  intro asked s hs
  rw [Bool.or_true, Loadable.fetch, Step.fetch, Step.run_get_bind]
  cases hremembered : l.remembered s with
  | some a =>
    have hkept := kept_of_idle hs (.inl (by rw [hremembered]; rfl))
    exact ⟨hkept.count, fun _ _ => hkept⟩
  | none =>
    cases hsource : l.source with
    | none =>
      have hkept := kept_of_idle hs (.inr hsource)
      exact ⟨hkept.count, fun _ _ => hkept⟩
    | some source =>
      have hmemory := hs.remembered
      rw [hremembered, hsource] at hmemory
      have hunsupplied : l.supplied = none := by
        cases hsupplied : l.supplied with
        | none => rfl
        | some a => simp [hsupplied] at hmemory
      have hunasked : asked = false := by simpa [hunsupplied] using hmemory.symm
      have hnever : s.events.count l.event = 0 := by rw [hs.count, due, hunasked, Bool.and_false]; rfl
      have honce : (s.events ++ [l.event]).count l.event = l.due true := by
        rw [List.count_append, hnever, List.count_singleton_self, due, hunsupplied, hsource]
        rfl
      have hconsult := Step.run_consult hnever l.kind source
      cases hanswer : (source.answer 0).mapError (Error.loader l.kind) with
      | error e =>
        rw [hanswer] at hconsult
        rw [Step.run_bind_error hconsult]
        exact ⟨honce, fun _ hb => by cases hb⟩
      | ok a =>
        rw [hanswer] at hconsult
        rw [Step.run_bind_ok hconsult]
        have hafter : l.Kept true (l.remember a { s with events := s.events ++ [l.event] }) := by
          refine ⟨?_, ?_⟩
          · rw [l.events_remember]
            exact honce
          · rw [l.remembered_remember, hunsupplied, hsource]
            rfl
        exact ⟨hafter.count, fun _ _ => hafter⟩

end Asks

/-! ### Runs over declarations -/

/-- A step with this outcome comes to these declarations and asks for the material where one
of them needs it. -/
def Visits (l : Loadable α) (r : Request)
    (needs : Declaration → Bool) (x : Step β) (outcome : Except Error β)
    (ds : List Declaration) : Prop :=
  ∀ asked s, Coherent r s → l.Kept asked s → ∃ s', x.run s = (outcome, s') ∧
    s'.events.count l.event = l.due (asked || ds.any needs) ∧
    ∀ b, outcome = .ok b → Coherent r s' ∧ l.Kept (asked || ds.any needs) s'

namespace Visits
variable {r : Request} {needs : Declaration → Bool}

theorem of_asks {x : Step β} {outcome : Except Error β}
    {ds : List Declaration} (hyields : Yields r x outcome)
    (hasks : l.Asks (ds.any needs) x) : l.Visits r needs x outcome ds := by
  intro asked s hcoherent hs
  obtain ⟨s', hrun, hs'⟩ := hyields s hcoherent
  obtain ⟨hcount, hkept⟩ := hasks asked s hs
  rw [hrun] at hcount hkept
  exact ⟨s', hrun, hcount, fun b hb => ⟨hs' b hb, hkept b hb⟩⟩

theorem of_leaves {x : Step β} {outcome : Except Error β} (hyields : Yields r x outcome)
    (h : Step.Leaves l.view x) : l.Visits r needs x outcome [] :=
  of_asks hyields (.of_leaves h)

theorem bind {x : Step β} {u : Except Error β} {ds : List Declaration} {f : β → Step γ}
    {g : β → Except Error γ} {es : β → List Declaration} (hx : l.Visits r needs x u ds)
    (hf : ∀ b, l.Visits r needs (f b) (g b) (es b)) :
    l.Visits r needs (x >>= f) (u >>= g) (ds ++ Outcome.after u es) := by
  intro asked s hcoherent hs
  obtain ⟨s', hrun, hcount, hs'⟩ := hx asked s hcoherent hs
  cases u with
  | error e =>
    refine ⟨s', Step.run_bind_error hrun f, ?_, nofun⟩
    rw [Outcome.after, List.append_nil]
    exact hcount
  | ok b =>
    obtain ⟨hcoherent', hkept'⟩ := hs' b rfl
    obtain ⟨s'', hrun', hafter⟩ := hf b _ s' hcoherent' hkept'
    rw [Outcome.after, List.any_append, ← Bool.or_assoc]
    exact ⟨s'', (Step.run_bind_ok hrun f).trans hrun', hafter⟩

/-- The declarations of a run are those that the outcomes of its members let it reach. -/
theorem mapM {f : Declaration → Step β} {g : Declaration → Except Error β}
    (h : ∀ d, l.Visits r needs (f d) (g d) [d]) (ds : List Declaration) :
    l.Visits r needs (ds.mapM f) (ds.mapM g) (Outcome.reached g ds) := by
  induction ds with
  | nil => exact of_leaves (.pure []) (.pure [])
  | cons d rest ih =>
    rw [List.mapM_cons, List.mapM_cons]
    have hrest : ∀ b, l.Visits r needs (rest.mapM f >>= fun bs => pure (b :: bs))
        (rest.mapM g >>= fun bs => pure (b :: bs)) (Outcome.reached g rest) := by
      intro b
      have hpure : ∀ bs, l.Visits r needs (pure (b :: bs)) (pure (b :: bs)) [] := fun bs =>
        of_leaves (.pure _) (.pure _)
      have hbind := ih.bind hpure
      rwa [Outcome.after_nil, List.append_nil] at hbind
    exact (h d).bind hrest

end Visits
end Loadable

/-! ### Which signals ask -/

/-- The declarations that need a timestamp. -/
def Declaration.needsTimestamp (d : Declaration) : Bool :=
  d.name == Reserved.timestamp.name

/-- The declarations that need the trustee keys; an odd arity is refused before that. -/
def Declaration.needsTrusteeKeys (d : Declaration) : Bool :=
  d.name == Reserved.trusteePublicKeys.name && d.arity % 2 == 0

namespace Loadable
variable {r : Request} {l : Loadable α}

theorem reserved_asks_timestamp (d : Declaration) :
    (ofTimestamp r.materials).Asks d.needsTimestamp (Resolution.reserved r d) := by
  by_cases hname : d.name = Reserved.timestamp.name
  · have hneeds : d.needsTimestamp = true := beq_iff_eq.mpr hname
    have hfetch : (ofTimestamp r.materials).Asks true (Step.timestamp r.materials) :=
      Step.timestamp_eq_fetch r.materials ▸ Asks.fetch
    rw [hneeds, Resolution.reserved, Declaration.ofName?_of_name hname]
    refine (hfetch.bind fun _ => .pure _).bind fun values => ?_
    cases values with
    | none => exact .pure none
    | some values => exact (Step.Leaves.ofExcept _).bind fun _ => .pure _
  · have hneeds : d.needsTimestamp = false := beq_eq_false_iff_ne.mpr hname
    rw [hneeds]
    refine .of_leaves (reserved_leaves (fun h => absurd h hname) (fun _ _ => ?_) ?_)
    · exact Step.trusteeKeys_leaves (fun s => by simp [view, ofTimestamp]) (fun _ _ => rfl) _
    · exact Step.payload_leaves (fun s => by simp [view, ofTimestamp]) fun _ _ => rfl

theorem reserved_asks_trusteeKeys (d : Declaration) :
    (ofTrusteeKeys r.materials).Asks d.needsTrusteeKeys (Resolution.reserved r d) := by
  by_cases hneeds : d.name = Reserved.trusteePublicKeys.name ∧ d.arity % 2 = 0
  · obtain ⟨hname, heven⟩ := hneeds
    have hneeds : d.needsTrusteeKeys = true := by simp [Declaration.needsTrusteeKeys, hname, heven]
    have hfetch : (ofTrusteeKeys r.materials).Asks true (Step.trusteeKeys r.materials) :=
      Step.trusteeKeys_eq_fetch r.materials ▸ Asks.fetch
    rw [hneeds, Resolution.reserved, Declaration.ofName?_of_name hname]
    dsimp only
    rw [Resolution.reservedElements, if_neg (not_not_intro heven)]
    refine (hfetch.bind fun _ => (Step.Leaves.ofExcept _).bind fun _ => .pure _).bind fun values => ?_
    cases values with
    | none => exact .pure none
    | some values => exact (Step.Leaves.ofExcept _).bind fun _ => .pure _
  · have hnone : d.needsTrusteeKeys = false := by
      rw [Declaration.needsTrusteeKeys, Bool.and_eq_false_iff, beq_eq_false_iff_ne, beq_eq_false_iff_ne]
      exact not_and_or.mp hneeds
    rw [hnone]
    refine .of_leaves (reserved_leaves (fun _ => ?_) (fun hname heven => absurd ⟨hname, heven⟩ hneeds) ?_)
    · exact Step.timestamp_leaves (fun s => by simp [view, ofTrusteeKeys]) (fun _ _ => rfl) _
    · exact Step.payload_leaves (fun s => by simp [view, ofTrusteeKeys]) fun _ _ => rfl

/-! ### The whole build -/

variable {needs : Declaration → Bool}

theorem privateSignal_asks {needed : Bool} {d : Declaration} (h : l.Asks needed (Resolution.reserved r d))
    (tree : Option Claim.Lookup) : l.Asks needed (Resolution.privateSignal r tree d) := by
  refine h.bind fun value => ?_
  cases value with
  | some v => exact .pure _
  | none =>
    dsimp only
    split
    · exact .throw _
    · exact .ofExcept _

/-- Only a reserved signal needs the material, so a positional one and a rule do without. -/
theorem publicSignal_asks {d : Declaration} (h : l.Asks (needs d) (Resolution.reserved r d))
    (hneeds : needs d = true → d.isReserved = true) : l.Asks (needs d) (Resolution.publicSignal r d) := by
  by_cases hreserved : d.isReserved = true
  · obtain ⟨kind, hname⟩ := d.reserved_or_open.resolve_right (by rw [hreserved]; decide)
    rw [Resolution.publicSignal, if_neg (by rw [Request.not_isPositional_of_name hname]; decide),
      if_pos hreserved]
    exact h.bind fun _ => .pure _
  · have hnone : needs d = false := Bool.eq_false_iff.mpr fun hd => hreserved (hneeds hd)
    rw [hnone, Resolution.publicSignal, if_neg hreserved]
    refine .of_leaves ?_
    split
    · exact .pure none
    · exact (Step.Leaves.ofExcept _).bind fun _ => .pure _

/-- **A build asks for the material at the declarations that it reaches**, and nowhere else. -/
theorem steps_visits (hasks : ∀ d, l.Asks (needs d) (Resolution.reserved r d))
    (hneeds : ∀ d, needs d = true → d.isReserved = true) (htree : Step.Leaves l.view r.claimsTree) :
    l.Visits r needs r.steps (Plan.assignment r) r.reached := by
  have hprivate : ∀ tree d,
      l.Visits r needs (Resolution.privateSignal r tree d) (Plan.privateSignal r tree d) [d] := by
    intro tree d
    refine .of_asks (privateSignal_yields tree d) ?_
    rw [List.any_cons, List.any_nil, Bool.or_false]
    exact privateSignal_asks (hasks d) tree
  have hpublic : ∀ d, l.Visits r needs (Resolution.publicSignal r d) (Plan.publicSignal r d) [d] := by
    intro d
    refine .of_asks (publicSignal_yields d) ?_
    rw [List.any_cons, List.any_nil, Bool.or_false]
    exact publicSignal_asks (hasks d) (hneeds d)
  have hexcept : ∀ {β : Type} (u : Except Error β), l.Visits r needs (.ofExcept u) u [] := fun u =>
    .of_leaves (.ofExcept u) (.ofExcept u)
  have hpure : ∀ a : Assignment, l.Visits r needs (pure a) (.ok a) [] :=
    fun a => .of_leaves (.pure a) (.pure a)
  have hsteps := (hexcept r.circuit.validate).bind fun _ => (hexcept r.checkPolicy).bind fun _ =>
    (Visits.of_leaves claimsTree_yields htree).bind fun tree =>
      (Visits.mapM (hprivate tree) r.circuit.privateSignals).bind fun disclosed =>
        (Visits.mapM hpublic r.circuit.publicSignals).bind fun publics =>
          (hexcept (Request.packKeys ((disclosed.filterMap (·.inclusion)).map (·.1)))).bind fun key =>
            hpure ⟨disclosed.map (fun x => (x.name, x.value)) ++ publics.filterMap id, key,
              (disclosed.filterMap (·.inclusion)).map (·.2)⟩
  simp only [Outcome.after_nil, List.nil_append, List.append_nil] at hsteps
  exact hsteps

/-- The consultations of a build are those that are due. -/
theorem count_build (hstart : l.Kept false (.start r.materials))
    (hasks : ∀ d, l.Asks (needs d) (Resolution.reserved r d))
    (hneeds : ∀ d, needs d = true → d.isReserved = true) (htree : Step.Leaves l.view r.claimsTree) :
    r.build.events.count l.event = l.due (r.reached.any needs) := by
  obtain ⟨s', hrun, hcount, _⟩ := steps_visits hasks hneeds htree false _ (coherent_start r) hstart
  rw [Bool.false_or] at hcount
  unfold Request.build
  rw [hrun]
  exact hcount

/-- How often a loader was consulted, by what was supplied, whether there is a loader, and
whether the material was asked for. -/
structure Consulted (count : Nat) (supplied loader asked : Prop) : Prop where
  atMostOnce : count ≤ 1
  neverIfSupplied : supplied → count = 0
  neverUnasked : ¬asked → count = 0
  onceIfDue : ¬supplied → loader → asked → count = 1

theorem consulted_of_due {count : Nat} {needed : Bool} {supplied loader asked : Prop}
    (hcount : count = l.due needed) (hsupplied : l.supplied.isSome = true ↔ supplied)
    (hloader : l.source.isSome = true ↔ loader) (hasked : needed = true ↔ asked) :
    Consulted count supplied loader asked := by
  rw [due, ← Option.not_isSome] at hcount
  rw [← hsupplied, ← hloader, ← hasked]
  subst hcount
  refine ⟨Bool.toNat_le _, fun h => ?_, fun h => ?_, fun hnot h h' => ?_⟩
  · rw [h]
    rfl
  · rw [Bool.eq_false_iff.mpr h, Bool.and_false]
    rfl
  · rw [Bool.eq_false_iff.mpr hnot, h, h']
    rfl

theorem count_timestamp (r : Request) :
    r.build.events.count .timestampConsulted =
      (ofTimestamp r.materials).due (r.reached.any Declaration.needsTimestamp) := by
  refine count_build ⟨?_, ?_⟩ reserved_asks_timestamp (fun d hd => ?_) (claimsTree_leaves ?_ ?_ ?_)
  · simp [due, Session.start]
  · simp [ofTimestamp, Session.start]
  · exact Declaration.isReserved_of_name (beq_iff_eq.mp hd)
  all_goals simp [Step.Overlooks, view, ofTimestamp]

theorem count_trusteeKeys (r : Request) :
    r.build.events.count .trusteeKeysConsulted =
      (ofTrusteeKeys r.materials).due (r.reached.any Declaration.needsTrusteeKeys) := by
  refine count_build ⟨?_, ?_⟩ reserved_asks_trusteeKeys (fun d hd => ?_) (claimsTree_leaves ?_ ?_ ?_)
  · simp [due, Session.start]
  · simp [ofTrusteeKeys, Session.start]
  · exact Declaration.isReserved_of_name (beq_iff_eq.mp (Bool.and_eq_true_iff.mp hd).1)
  all_goals simp [Step.Overlooks, view, ofTrusteeKeys]

end Loadable

/-! ### Values of one loading -/

section Values
variable {r : Request} {a : Assignment}

theorem timestamp_of_mem (parts : Plan.Parts r a) {v : SignalValue}
    (h : (Reserved.timestamp.name, v) ∈ a.signals) :
    ∃ t, r.materials.settledTimestamp = .ok (some t) ∧ v = .scalar t.toNat := by
  obtain ⟨d, _, hshaped, hmaterial⟩ := fromMaterial_of_mem parts h
  generalize helements : v.elements = ns at hmaterial
  cases hmaterial with
  | timestamp ht => exact ⟨_, ht, SignalValue.eq_scalar_of_shaped hshaped helements⟩

/-- The keys that are taken come first in what is supplied or loaded. -/
theorem trusteeKeys_of_mem (parts : Plan.Parts r a) {v : SignalValue}
    (h : (Reserved.trusteePublicKeys.name, v) ∈ a.signals) :
    ∃ keys, r.materials.settledTrusteeKeys = .ok (some keys) ∧
      v.elements <+: keys.flatMap TrusteeKey.elements := by
  obtain ⟨d, _, _, hmaterial⟩ := fromMaterial_of_mem parts h
  generalize v.elements = ns at hmaterial
  cases hmaterial with
  | @trusteeKeys keys hkeys _ _ =>
    refine ⟨keys, hkeys, (keys.drop (d.arity / 2)).flatMap TrusteeKey.elements, ?_⟩
    rw [← List.take_append_drop (d.arity / 2) keys, List.flatMap_append, List.take_append_drop]
    rfl

/-- What holds of each value with the settled material holds of all with one material. -/
theorem exists_settled [Inhabited α] {settled : Except Error (Option α)} {P : β → Prop}
    {R : α → β → Prop} (h : ∀ b, P b → ∃ a, settled = .ok (some a) ∧ R a b) :
    ∃ a, ∀ b, P b → settled = .ok (some a) ∧ R a b := by
  by_cases hsettled : ∃ a, settled = .ok (some a)
  · obtain ⟨a, ha⟩ := hsettled
    refine ⟨a, fun b hb => ⟨ha, ?_⟩⟩
    obtain ⟨a', ha', hR⟩ := h b hb
    cases ha.symm.trans ha'
    exact hR
  · refine ⟨default, fun b hb => ?_⟩
    obtain ⟨a, ha, _⟩ := h b hb
    exact absurd ⟨a, ha⟩ hsettled

end Values

/-! ### Settings in any order -/

namespace Request

/-- A part of a request that one kind of setting fills is there when such a setting was made. -/
theorem isSome_configured (field : Request → Option α) {setting : β → Setting}
    (hset : ∀ r x, (field (set r x)).isSome = true ↔ (field r).isSome = true ∨ ∃ b, x = setting b)
    (credential : Credential) (circuit : Circuit) (hnone : field { credential, circuit } = none)
    (settings : List Setting) :
    (field (configured credential circuit settings)).isSome = true ↔ ∃ b, setting b ∈ settings := by
  have hfold : ∀ r, (field (settings.foldl set r)).isSome = true ↔
      (field r).isSome = true ∨ ∃ b, setting b ∈ settings := by
    induction settings with
    | nil => simp
    | cons x rest ih =>
      intro r
      rw [List.foldl_cons, ih, hset, or_assoc, ← exists_or]
      simp only [List.mem_cons, eq_comm]
  rw [configured, hfold, hnone]
  simp

end Request

/-- **A loader is consulted at most once**, whatever the settings and declarations, and never
for material that was supplied or that no declaration asks for. What it gave is given to all
signals of its kind, though it might answer otherwise a second time. -/
theorem build_consults (credential : Credential) (circuit : Circuit) (settings : List Setting) :
    let r := Request.configured credential circuit settings
    Loadable.Consulted (r.build.events.count .timestampConsulted) (∃ t, .timestamp t ∈ settings)
        (∃ source, .timestampSource source ∈ settings)
        (∃ d ∈ r.reached, d.name = Reserved.timestamp.name) ∧
      Loadable.Consulted (r.build.events.count .trusteeKeysConsulted)
        (∃ keys, .trusteeKeys keys ∈ settings)
        (∃ source, .trusteeKeySource source ∈ settings)
        (∃ d ∈ r.reached, d.name = Reserved.trusteePublicKeys.name ∧ d.arity % 2 = 0) ∧
      ∀ a, r.build.outcome = .ok a →
        (∃ t, ∀ v, (Reserved.timestamp.name, v) ∈ a.signals →
          r.materials.settledTimestamp = .ok (some t) ∧ v = .scalar t.toNat) ∧
        ∃ keys, ∀ v, (Reserved.trusteePublicKeys.name, v) ∈ a.signals →
          r.materials.settledTrusteeKeys = .ok (some keys) ∧
            v.elements <+: keys.flatMap TrusteeKey.elements := by
  intro r
  refine ⟨Loadable.consulted_of_due (Loadable.count_timestamp r) ?_ ?_ ?_,
    Loadable.consulted_of_due (Loadable.count_trusteeKeys r) ?_ ?_ ?_, fun a ha => ?_⟩
  · exact Request.isSome_configured (·.materials.timestamp)
      (fun r x => by cases x <;> simp [Request.set]) credential circuit rfl settings
  · exact Request.isSome_configured (·.materials.timestampSource)
      (fun r x => by cases x <;> simp [Request.set]) credential circuit rfl settings
  · simp [Declaration.needsTimestamp]
  · exact Request.isSome_configured (·.materials.trusteeKeys)
      (fun r x => by cases x <;> simp [Request.set]) credential circuit rfl settings
  · exact Request.isSome_configured (·.materials.trusteeKeySource)
      (fun r x => by cases x <;> simp [Request.set]) credential circuit rfl settings
  · simp [Declaration.needsTrusteeKeys]
  · rw [build_outcome] at ha
    obtain ⟨parts⟩ := Plan.exists_parts ha
    exact ⟨exists_settled fun _ => timestamp_of_mem parts,
      exists_settled fun _ => trusteeKeys_of_mem parts⟩

/-- Both loaders answer otherwise each time, and the signals ask again and again. -/
def shiftingSettings : List Setting :=
  [.trusteeKeySource ⟨fun n => .ok [⟨n, n + 1⟩, ⟨n + 2, n + 3⟩]⟩,
   .timestampSource ⟨fun n => .ok (20240101 + UInt64.ofNat n)⟩]

def shiftingRequest : Request :=
  .configured { subject := ageSubject, proof := ⟨"", ""⟩ }
    { name := "shifting"
      privateSignals := [⟨"currentDate", 1⟩, ⟨"trusteePublicKeys", 2⟩]
      publicSignals := [⟨"trusteePublicKeys", 4⟩, ⟨"currentDate", 1⟩] }
    shiftingSettings

/-- Each is consulted once, and its first answer is everywhere. -/
theorem shiftingRequest_consults :
    shiftingRequest.build.outcome = .ok
        ⟨[("currentDate", .scalar 20240101), ("trusteePublicKeys", .array [0, 1]),
          ("trusteePublicKeys", .array [0, 1, 2, 3]), ("currentDate", .scalar 20240101)], none, []⟩ ∧
      shiftingRequest.build.events.count .timestampConsulted = 1 ∧
      shiftingRequest.build.events.count .trusteeKeysConsulted = 1 := by
  obtain ⟨htimestamp, htrustees, _⟩ :=
    build_consults shiftingRequest.credential shiftingRequest.circuit shiftingSettings
  refine ⟨by decide +kernel, htimestamp.onceIfDue ?_ ?_ ?_, htrustees.onceIfDue ?_ ?_ ?_⟩
  · simp [shiftingSettings]
  · simp [shiftingSettings]
  · decide +kernel
  · simp [shiftingSettings]
  · simp [shiftingSettings]
  · decide +kernel

end Disclosure
