import Disclosure.Proofs.Build.Session

/-! Two builds side by side.

Two sessions are alike when they remember the same material and heard of the same events,
warnings apart. Two steps are `Alike` when in alike sessions they fail with one error or come
to related results, and leave the sessions alike. Nothing in a build looks at a warning, so
a step that does not read the claims is alike to itself (`Blind`). -/
namespace Disclosure

/-- The events apart from warnings: what a build asked of its surroundings. -/
def Event.asked (events : List Event) : List Event :=
  events.filter (· ≠ .rootMismatch)

/-- Noting one more event. -/
theorem Event.asked_noted (events : List Event) (event : Event) :
    asked (events ++ [event]) = if event = .rootMismatch then asked events else asked events ++ [event] := by
  by_cases h : event = .rootMismatch <;> simp [asked, List.filter_append, h]

/-- Every event but the warning is asked as often as it is noted. -/
theorem Event.count_asked {event : Event} (h : event ≠ .rootMismatch) (events : List Event) :
    (asked events).count event = events.count event :=
  List.count_filter (decide_eq_true h)

/-- Sessions that differ in warnings only. -/
structure Session.Alike (s t : Session) : Prop where
  timestamp : s.timestamp = t.timestamp
  trusteeKeys : s.trusteeKeys = t.trusteeKeys
  payload : s.payload = t.payload
  asked : Event.asked s.events = Event.asked t.events

theorem Session.Alike.refl (s : Session) : s.Alike s := ⟨rfl, rfl, rfl, rfl⟩

theorem Session.Alike.count {s t : Session} (h : s.Alike t)
    {event : Event} (hevent : event ≠ .rootMismatch) :
    s.events.count event = t.events.count event := by
  rw [← Event.count_asked hevent, h.asked, Event.count_asked hevent]

namespace Step

/-- Steps with alike outcomes in alike sessions. -/
def Alike (R : α → β → Prop) (x : Step α) (y : Step β) : Prop :=
  ∀ s t, s.Alike t → Outcome.Alike R (x.run s).1 (y.run t).1 ∧ (x.run s).2.Alike (y.run t).2

/-- A step that does not look at warnings. -/
def Blind (x : Step α) : Prop :=
  Alike Eq x x

namespace Alike
variable {R : α → β → Prop} {S : γ → δ → Prop} {x : Step α} {y : Step β}

theorem ofExcept {u : Except Error α} {v : Except Error β} (h : Outcome.Alike R u v) :
    Alike R (.ofExcept u) (.ofExcept v) :=
  fun _ _ hs => ⟨h, hs⟩

theorem pure {a : α} {b : β} (h : R a b) : Alike R (pure a) (pure b) :=
  ofExcept (.ok h)

theorem throw (e : Error) : Alike R (throw e) (throw e) :=
  ofExcept (.error e)

theorem bind {f : α → Step γ} {g : β → Step δ} (h : Alike R x y)
    (hf : ∀ a b, R a b → Alike S (f a) (g b)) : Alike S (x >>= f) (y >>= g) := by
  intro s t hs
  obtain ⟨houtcome, hsession⟩ := h s t hs
  rcases hx : x.run s with ⟨u, s'⟩
  rcases hy : y.run t with ⟨v, t'⟩
  rw [hx, hy] at houtcome hsession
  cases houtcome with
  | ok hab =>
    rw [run_bind_ok hx, run_bind_ok hy]
    exact hf _ _ hab s' t' hsession
  | error e =>
    rw [run_bind_error hx, run_bind_error hy]
    exact ⟨.error e, hsession⟩

theorem mapM {f : ι → Step α} {g : ι → Step β}
    {is : List ι} (h : ∀ i ∈ is, Alike R (f i) (g i)) :
    Alike (List.Forall₂ R) (is.mapM f) (is.mapM g) := by
  induction is with
  | nil => exact pure .nil
  | cons i rest ih =>
    rw [List.mapM_cons, List.mapM_cons]
    refine (h i List.mem_cons_self).bind fun a b hab => ?_
    refine (ih fun j hj => h j (List.mem_cons_of_mem i hj)).bind fun as bs hrest => ?_
    exact pure (.cons hab hrest)

/-- What is read from alike sessions is alike. -/
theorem get_bind {f : Session → Step α} {g : Session → Step β}
    (h : ∀ s t, s.Alike t → Alike R (f s) (g t)) : Alike R (get >>= f) (get >>= g) := by
  intro s t hs
  rw [run_get_bind, run_get_bind]
  exact h s t hs s t hs

end Alike

/-! ### Blind steps -/

namespace Blind
variable {x : Step α}

theorem ofExcept (u : Except Error α) : Blind (.ofExcept u) :=
  Alike.ofExcept (.refl u)

theorem pure (a : α) : Blind (pure a) :=
  Alike.pure rfl

theorem throw (e : Error) : Blind (throw e : Step α) :=
  Alike.throw e

/-- After a blind step both sides go on from one result. -/
theorem andThen {S : β → γ → Prop} {f : α → Step β} {g : α → Step γ} (h : Blind x)
    (hf : ∀ a, Alike S (f a) (g a)) : Alike S (x >>= f) (x >>= g) :=
  Alike.bind h fun a _ hab => hab ▸ hf a

theorem bind {f : α → Step β} (h : Blind x) (hf : ∀ a, Blind (f a)) : Blind (x >>= f) :=
  h.andThen hf

theorem modify {f : Session → Session} (h : ∀ s t, s.Alike t → (f s).Alike (f t)) :
    Blind (modify f : Step Unit) :=
  fun s t hs => ⟨.ok rfl, h s t hs⟩

theorem mapM {f : ι → Step α} (h : ∀ i, Blind (f i)) (is : List ι) : Blind (is.mapM f) := by
  have hmapM : Alike (List.Forall₂ Eq) (is.mapM f) (is.mapM f) := .mapM fun i _ => h i
  rwa [List.forall₂_eq_eq_eq] at hmapM

end Blind

theorem note_blind (event : Event) : Blind (note event) :=
  .modify fun s t hs => ⟨hs.timestamp, hs.trusteeKeys, hs.payload, by
    rw [Event.asked_noted, Event.asked_noted, hs.asked]⟩

theorem run_warn (p : Prop) [Decidable p] (s : Session) :
    (if p then pure () else note .rootMismatch : Step Unit).run s =
      (.ok (), { s with events := s.events ++ if p then [] else [.rootMismatch] }) := by
  by_cases h : p
  · rw [if_pos h, if_pos h, List.append_nil]
    rfl
  · rw [if_neg h, if_neg h]
    rfl

/-- Warning or not makes no difference. -/
theorem warn_alike (p q : Prop) [Decidable p] [Decidable q] :
    Alike Eq (if p then pure () else note .rootMismatch) (if q then pure () else note .rootMismatch) := by
  have hasked : ∀ (c : Prop) [Decidable c] (events : List Event),
      Event.asked (events ++ if c then [] else [.rootMismatch]) = Event.asked events := by
    intro c _ events
    split <;> simp [Event.asked_noted]
  intro s t hs
  rw [run_warn, run_warn]
  refine ⟨.ok rfl, hs.timestamp, hs.trusteeKeys, hs.payload, ?_⟩
  show Event.asked (s.events ++ _) = Event.asked (t.events ++ _)
  rw [hasked, hasked, hs.asked]

/-- A source is told how often it was asked, which warnings do not change. -/
theorem consult_blind {event : Event} (h : event ≠ .rootMismatch) (kind : LoaderKind) (source : Source α) :
    Blind (consult event kind source) := by
  refine Alike.get_bind fun s t hs => ?_
  dsimp only
  rw [hs.count h]
  exact (note_blind event).bind fun _ => .ofExcept _

theorem fetch_blind {remembered : Session → Option α}
    {remember : α → Session → Session} {event : Event}
    (hevent : event ≠ .rootMismatch) (hread : ∀ s t : Session, s.Alike t → remembered s = remembered t)
    (hwrite : ∀ a (s t : Session), s.Alike t → (remember a s).Alike (remember a t)) (kind : LoaderKind)
    (source : Option (Source α)) : Blind (fetch remembered remember event kind source) := by
  refine Alike.get_bind fun s t hs => ?_
  rw [hread s t hs]
  cases remembered t with
  | some a => exact Blind.pure (some a)
  | none =>
    cases source with
    | none => exact Blind.pure none
    | some source =>
      exact (consult_blind hevent kind source).bind fun a => (Blind.modify (hwrite a)).bind fun _ => .pure _

theorem timestamp_blind (m : Materials) : Blind (timestamp m) := by
  have hevent : Event.timestampConsulted ≠ .rootMismatch := nofun
  rw [timestamp_eq_fetch]
  refine fetch_blind hevent (fun _ _ hs => hs.timestamp) (fun _ _ _ hs => ?_) _ _
  exact ⟨rfl, hs.trusteeKeys, hs.payload, hs.asked⟩

theorem trusteeKeys_blind (m : Materials) : Blind (trusteeKeys m) := by
  have hevent : Event.trusteeKeysConsulted ≠ .rootMismatch := nofun
  rw [trusteeKeys_eq_fetch]
  refine fetch_blind hevent (fun _ _ hs => hs.trusteeKeys) (fun _ _ _ hs => ?_) _ _
  exact ⟨hs.timestamp, rfl, hs.payload, hs.asked⟩

theorem decodeProof_blind (scheme : SignatureScheme) (proof : IssuerProof) :
    Blind (decodeProof scheme proof) := by
  unfold decodeProof
  split
  · exact (note_blind _).bind fun _ => .pure _
  · exact .pure _

theorem payload_blind (scheme : SignatureScheme) (proof : IssuerProof) : Blind (payload scheme proof) := by
  refine Alike.get_bind fun s t hs => ?_
  rw [hs.payload]
  cases t.payload with
  | some p => exact Blind.pure p
  | none =>
    refine (decodeProof_blind scheme proof).bind fun decoded => (Blind.ofExcept decoded).bind fun p => ?_
    refine (Blind.modify fun _ _ hs => ?_).bind fun _ => .pure p
    exact ⟨hs.timestamp, hs.trusteeKeys, rfl, hs.asked⟩

end Step

/-! ### Signals that read no claim -/

namespace Resolution

theorem reservedElements_blind (r : Request) (d : Declaration) (kind : Reserved) :
    (reservedElements r d kind).Blind := by
  cases kind with
  | holderPrivateKey =>
    unfold reservedElements
    dsimp only
    cases r.materials.holderKey with
    | none => exact .throw _
    | some key => exact (Step.Blind.ofExcept _).bind fun _ => .pure _
  | trusteePublicKeys =>
    unfold reservedElements
    dsimp only
    split
    · exact .throw _
    · exact (Step.trusteeKeys_blind _).bind fun _ => (Step.Blind.ofExcept _).bind fun _ => .pure _
  | timestamp => exact (Step.timestamp_blind _).bind fun _ => .pure _
  | credentialRoot => exact (Step.payload_blind _ _).bind fun _ => .pure _
  | issuerPublicKey => exact (Step.payload_blind _ _).bind fun _ => .pure _
  | issuerSignature => exact (Step.payload_blind _ _).bind fun _ => .pure _

theorem reserved_blind (r : Request) (d : Declaration) : (reserved r d).Blind := by
  unfold reserved
  cases Reserved.ofName? d.name with
  | none => exact .pure none
  | some kind =>
    refine (reservedElements_blind r d kind).bind fun values => ?_
    cases values with
    | none => exact .pure none
    | some values => exact (Step.Blind.ofExcept _).bind fun _ => .pure _

theorem publicSignal_blind (r : Request) (d : Declaration) : (publicSignal r d).Blind := by
  unfold publicSignal
  split
  · exact .pure none
  · by_cases h : d.isReserved = true
    · rw [if_pos h]
      exact (reserved_blind r d).bind fun _ => .pure _
    · rw [if_neg h]
      exact (Step.Blind.ofExcept _).bind fun _ => .pure _

end Resolution
end Disclosure
