import Disclosure.Proofs.Build.Plan

/-! Builds without a session.

A session only remembers what the request's own sources and proof gave (`Coherent`), so a
step has one outcome, whatever was asked before it (`Yields`), and that is the planned
one. So a build comes to the assignment that is planned (`build_outcome`). -/
namespace Disclosure

/-! ### Sessions of a build -/

/-- What may be remembered of one material: nothing, as long as it was neither supplied
nor asked for, and else what is settled on. -/
def Session.Remembers (remembered supplied : Option α) (consulted : Nat)
    (settled : Except Error (Option α)) : Prop :=
  match remembered with
  | none => supplied = none ∧ consulted = 0
  | some a => settled = .ok (some a)

/-- A session that a build of the request can be in. -/
structure Coherent (r : Request) (s : Session) : Prop where
  timestamp : Session.Remembers s.timestamp r.materials.timestamp (s.events.count .timestampConsulted)
    r.materials.settledTimestamp
  trusteeKeys : Session.Remembers s.trusteeKeys r.materials.trusteeKeys
    (s.events.count .trusteeKeysConsulted) r.materials.settledTrusteeKeys
  payload : ∀ p, s.payload = some p → r.payload = .ok p

theorem Session.remembers_start (kind : LoaderKind) (supplied : Option α) (source : Option (Source α)) :
    Remembers supplied supplied 0 (Materials.settled kind supplied source) := by
  cases supplied with
  | none => exact ⟨rfl, rfl⟩
  | some a => rfl

theorem coherent_start (r : Request) : Coherent r (.start r.materials) :=
  ⟨Session.remembers_start .timestamp _ _, Session.remembers_start .trusteeKeys _ _, nofun⟩

/-- A step has one outcome in every session of a build, and goes on in such a session. -/
def Yields (r : Request) (step : Step α) (outcome : Except Error α) : Prop :=
  ∀ s, Coherent r s → ∃ s', step.run s = (outcome, s') ∧ ∀ a, outcome = .ok a → Coherent r s'

namespace Step
variable {s s' : Session}

theorem run_bind_ok {step : Step α} {a : α} (h : step.run s = (.ok a, s')) (f : α → Step β) :
    (step >>= f).run s = (f a).run s' := by
  show StateT.run (ExceptT.run (step >>= f)) s = _
  have hrun : StateT.run (ExceptT.run step) s = (Except.ok a, s') := h
  rw [ExceptT.run_bind, StateT.run_bind, hrun]
  rfl

theorem run_bind_error {step : Step α} {e : Error} (h : step.run s = (.error e, s')) (f : α → Step β) :
    (step >>= f).run s = (.error e, s') := by
  show StateT.run (ExceptT.run (step >>= f)) s = _
  have hrun : StateT.run (ExceptT.run step) s = (Except.error e, s') := h
  rw [ExceptT.run_bind, StateT.run_bind, hrun]
  rfl

theorem run_get_bind (f : Session → Step α) (s : Session) : (get >>= f).run s = (f s).run s := by
  have hget : (get : Step Session).run s = (.ok s, s) := rfl
  exact run_bind_ok hget f

/-- A source that is consulted for the first time gives its first answer. -/
theorem run_consult {event : Event} (h : s.events.count event = 0) (kind : LoaderKind) (source : Source α) :
    (consult event kind source).run s =
      ((source.answer 0).mapError (.loader kind), { s with events := s.events ++ [event] }) := by
  rw [← h]
  rfl

end Step

namespace Yields
variable {r : Request}

theorem pure (a : α) : Yields r (pure a) (.ok a) :=
  fun s hs => ⟨s, rfl, fun _ _ => hs⟩

theorem ofExcept (x : Except Error α) : Yields r (.ofExcept x) x :=
  fun s hs => ⟨s, rfl, fun _ _ => hs⟩

theorem throw (e : Error) : Yields r (throw e : Step α) (.error e) :=
  fun s _ => ⟨s, rfl, nofun⟩

theorem bind {step : Step α} {x : Except Error α} {f : α → Step β} {g : α → Except Error β}
    (hstep : Yields r step x) (hf : ∀ a, x = .ok a → Yields r (f a) (g a)) :
    Yields r (step >>= f) (x >>= g) := by
  intro s hs
  obtain ⟨s', hrun, hs'⟩ := hstep s hs
  cases x with
  | error e => exact ⟨s', Step.run_bind_error hrun f, nofun⟩
  | ok a =>
    rw [Step.run_bind_ok hrun f]
    exact hf a rfl s' (hs' a rfl)

/-- A step that cannot fail does not show in the outcome. -/
theorem andThen {step : Step α} {a : α} {f : α → Step β}
    {x : Except Error β} (hstep : Yields r step (.ok a))
    (hf : Yields r (f a) x) : Yields r (step >>= f) x :=
  hstep.bind (g := fun _ => x) fun b hb => by cases hb; exact hf

theorem mapM {f : α → Step β} {g : α → Except Error β}
    (h : ∀ a, Yields r (f a) (g a)) (as : List α) :
    Yields r (as.mapM f) (as.mapM g) := by
  induction as with
  | nil => exact pure []
  | cons a rest ih =>
    rw [List.mapM_cons, List.mapM_cons]
    exact (h a).bind fun b _ => ih.bind fun bs _ => pure (b :: bs)

end Yields

/-! ### The steps of a build -/

/-- Noting one event counts no other. -/
theorem Session.count_noted {event other : Event} (h : event ≠ other) (events : List Event) :
    (events ++ [event]).count other = events.count other := by
  rw [List.count_append, List.count_singleton, if_neg (by simpa using h), Nat.add_zero]

section Steps
variable {r : Request}

/-- An event that is no consultation changes nothing that is remembered. -/
theorem note_yields (event : Event) (ht : event ≠ .timestampConsulted)
    (hk : event ≠ .trusteeKeysConsulted) :
    Yields r (Step.note event) (.ok ()) := by
  intro s hs
  refine ⟨{ s with events := s.events ++ [event] }, rfl, fun _ _ => ⟨?_, ?_, hs.payload⟩⟩
  · exact (Session.count_noted ht s.events).symm ▸ hs.timestamp
  · exact (Session.count_noted hk s.events).symm ▸ hs.trusteeKeys

/-- What is remembered is taken from there, and else asked of a source and remembered. -/
def Step.fetch (remembered : Session → Option α) (remember : α → Session → Session) (event : Event)
    (kind : LoaderKind) (source : Option (Source α)) : Step (Option α) := do
  match remembered (← get), source with
  | some a, _ => pure (some a)
  | none, none => pure none
  | none, some source => do
    let a ← consult event kind source
    modify (remember a)
    pure (some a)

theorem Step.timestamp_eq_fetch (m : Materials) :
    Step.timestamp m = fetch Session.timestamp (fun t s => { s with timestamp := some t })
      .timestampConsulted .timestamp m.timestampSource := by
  refine congrArg (get >>= ·) (funext fun s => ?_)
  cases s.timestamp with
  | some t => rfl
  | none => cases m.timestampSource <;> rfl

theorem Step.trusteeKeys_eq_fetch (m : Materials) :
    Step.trusteeKeys m = fetch Session.trusteeKeys (fun keys s => { s with trusteeKeys := some keys })
      .trusteeKeysConsulted .trusteeKeys m.trusteeKeySource := by
  refine congrArg (get >>= ·) (funext fun s => ?_)
  cases s.trusteeKeys with
  | some keys => rfl
  | none => cases m.trusteeKeySource <;> rfl

theorem fetch_yields (remembered : Session → Option α)
    (remember : α → Session → Session) {event : Event}
    {kind : LoaderKind} {supplied : Option α} {source : Option (Source α)}
    (hremembered : ∀ s, Coherent r s → Session.Remembers (remembered s) supplied (s.events.count event)
      (Materials.settled kind supplied source))
    (hremember : ∀ s a, Coherent r s → Materials.settled kind supplied source = .ok (some a) →
      Coherent r (remember a { s with events := s.events ++ [event] })) :
    Yields r (Step.fetch remembered remember event kind source) (Materials.settled kind supplied source) := by
  intro s hs
  have hbefore := hremembered s hs
  rw [Step.fetch, Step.run_get_bind]
  cases hmemory : remembered s with
  | some a =>
    rw [hmemory] at hbefore
    have hsettled : Materials.settled kind supplied source = .ok (some a) := hbefore
    exact ⟨s, by rw [hsettled]; rfl, fun _ _ => hs⟩
  | none =>
    rw [hmemory] at hbefore
    obtain ⟨rfl, hcount⟩ := hbefore
    cases source with
    | none => exact ⟨s, rfl, fun _ _ => hs⟩
    | some source =>
      have hconsult := Step.run_consult hcount kind source
      have hsettled : Materials.settled kind none (some source) =
          ((source.answer 0).mapError (Error.loader kind)).map some := rfl
      cases hanswer : (source.answer 0).mapError (Error.loader kind) with
      | error e =>
        rw [hanswer] at hconsult hsettled
        rw [hsettled]
        exact ⟨_, Step.run_bind_error hconsult _, nofun⟩
      | ok a =>
        rw [hanswer] at hconsult hsettled
        exact ⟨_, (Step.run_bind_ok hconsult _).trans (by rw [hsettled]; rfl),
          fun _ _ => hremember s a hs hsettled⟩

theorem timestamp_yields : Yields r (Step.timestamp r.materials) r.materials.settledTimestamp := by
  rw [Step.timestamp_eq_fetch]
  refine fetch_yields _ _ (fun _ hs => hs.timestamp) fun s t hs hsettled => ?_
  have hother : Event.timestampConsulted ≠ .trusteeKeysConsulted := by decide
  have hcount := Session.count_noted hother s.events
  exact ⟨hsettled, hcount.symm ▸ hs.trusteeKeys, hs.payload⟩

theorem trusteeKeys_yields : Yields r (Step.trusteeKeys r.materials) r.materials.settledTrusteeKeys := by
  rw [Step.trusteeKeys_eq_fetch]
  refine fetch_yields _ _ (fun _ hs => hs.trusteeKeys) fun s keys hs hsettled => ?_
  have hother : Event.trusteeKeysConsulted ≠ .timestampConsulted := by decide
  have hcount := Session.count_noted hother s.events
  exact ⟨hcount.symm ▸ hs.timestamp, hsettled, hs.payload⟩

/-- Decoding the proof is itself no failure. -/
theorem decodeProof_yields : Yields r (Step.decodeProof r.scheme r.credential.proof) (.ok r.payload) := by
  unfold Step.decodeProof
  split
  · exact (note_yields (.proofParsed _) nofun nofun).andThen (.pure _)
  · exact .pure _

theorem payload_yields : Yields r (Step.payload r.scheme r.credential.proof) r.payload := by
  intro s hs
  rw [Step.payload, Step.run_get_bind]
  cases hmemory : s.payload with
  | some p =>
    rw [hs.payload p hmemory]
    exact ⟨s, rfl, fun _ _ => hs⟩
  | none =>
    obtain ⟨s', hrun, hs'⟩ := decodeProof_yields s hs
    have hdecoded := Step.run_bind_ok hrun fun decoded => do
      let p ← Step.ofExcept decoded
      modify fun s => { s with payload := some p }
      pure p
    cases hp : r.payload with
    | error e =>
      rw [hp] at hdecoded
      exact ⟨s', hdecoded, nofun⟩
    | ok p =>
      rw [hp] at hdecoded
      refine ⟨_, hdecoded, fun _ _ => ?_⟩
      refine ⟨(hs' _ rfl).timestamp, (hs' _ rfl).trusteeKeys, fun q hq => ?_⟩
      cases hq
      exact hp

theorem reservedElements_yields (d : Declaration) (kind : Reserved) :
    Yields r (Resolution.reservedElements r d kind) (Plan.reservedElements r d kind) := by
  cases kind with
  | holderPrivateKey =>
    unfold Resolution.reservedElements Plan.reservedElements
    dsimp only
    cases r.materials.holderKey with
    | none => exact .throw _
    | some key => exact (Yields.ofExcept _).bind fun _ _ => .pure _
  | trusteePublicKeys =>
    unfold Resolution.reservedElements Plan.reservedElements
    dsimp only
    split
    · exact .throw _
    · exact trusteeKeys_yields.bind fun _ _ => (Yields.ofExcept _).bind fun _ _ => .pure _
  | timestamp => exact timestamp_yields.bind fun _ _ => .pure _
  | credentialRoot => exact payload_yields.bind fun _ _ => .pure _
  | issuerPublicKey => exact payload_yields.bind fun _ _ => .pure _
  | issuerSignature => exact payload_yields.bind fun _ _ => .pure _

theorem reserved_yields (d : Declaration) : Yields r (Resolution.reserved r d) (Plan.reserved r d) := by
  unfold Resolution.reserved Plan.reserved
  cases Reserved.ofName? d.name with
  | none => exact .pure none
  | some kind =>
    refine (reservedElements_yields d kind).bind fun values _ => ?_
    cases values with
    | none => exact .pure none
    | some values => exact (Yields.ofExcept _).bind fun _ _ => .pure _

theorem privateSignal_yields (tree : Option Claim.Lookup) (d : Declaration) :
    Yields r (Resolution.privateSignal r tree d) (Plan.privateSignal r tree d) := by
  refine (reserved_yields d).bind fun value _ => ?_
  cases value with
  | some value => exact .pure _
  | none =>
    dsimp only
    split
    · exact .throw _
    · exact .ofExcept _

theorem publicSignal_yields (d : Declaration) :
    Yields r (Resolution.publicSignal r d) (Plan.publicSignal r d) := by
  unfold Resolution.publicSignal Plan.publicSignal
  split
  · exact .pure none
  · by_cases h : d.isReserved = true
    · rw [if_pos h, if_pos h]
      exact (reserved_yields d).bind fun _ _ => .pure _
    · rw [if_neg h, if_neg h]
      exact (Yields.ofExcept _).bind fun _ _ => .pure _

theorem compareRoots_yields (tree : Claim.Lookup) : Yields r (r.compareRoots tree) (.ok ()) := by
  refine decodeProof_yields.andThen ?_
  cases r.payload with
  | error e => exact .pure ()
  | ok p =>
    dsimp only
    split
    · exact .pure ()
    · exact note_yields .rootMismatch nofun nofun

theorem claimsTree_yields : Yields r r.claimsTree (Plan.claimsTree r) := by
  refine (Yields.ofExcept _).bind fun depth _ => ?_
  cases depth with
  | none => exact .pure none
  | some depth =>
    refine (note_yields (.claimsAccumulated depth _) nofun nofun).andThen ?_
    exact (Yields.ofExcept _).bind fun tree _ => (compareRoots_yields tree).andThen (.pure _)

theorem steps_yields : Yields r r.steps (Plan.assignment r) := by
  refine (Yields.ofExcept _).bind fun _ _ => (Yields.ofExcept _).bind fun _ _ => ?_
  refine claimsTree_yields.bind fun tree _ => ?_
  refine (Yields.mapM (privateSignal_yields tree) _).bind fun disclosed _ => ?_
  refine (Yields.mapM publicSignal_yields _).bind fun publics _ => ?_
  exact (Yields.ofExcept _).bind fun key _ => .pure _

end Steps

/-- **A build comes to what is planned**: memory and the order of questions do not show
in its outcome. -/
theorem build_outcome (r : Request) : r.build.outcome = Plan.assignment r := by
  obtain ⟨s', hrun, _⟩ := steps_yields (r := r) (.start r.materials) (coherent_start r)
  unfold Request.build
  rw [hrun]

end Disclosure
