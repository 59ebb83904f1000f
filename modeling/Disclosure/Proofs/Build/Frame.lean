import Disclosure.Proofs.Build.Session

/-! What a step leaves alone.

A view is something that is read off a session. A step `Leaves` it when the view is the same
after the step as before, whether the step fails or not. A signal that asks for no material
of a kind leaves alone what is remembered and counted of that kind, and none is behind a
warning. -/
namespace Disclosure

namespace Step

/-- The view is the same before and after the step. -/
def Leaves (view : Session → ν) (x : Step α) : Prop :=
  ∀ s, view (x.run s).2 = view s

/-- Noting the event does not change the view. -/
def Overlooks (view : Session → ν) (event : Event) : Prop :=
  ∀ s : Session, view { s with events := s.events ++ [event] } = view s

namespace Leaves
variable {view : Session → ν} {x : Step α}

theorem ofExcept (u : Except Error α) : Leaves view (.ofExcept u) := fun _ => rfl

theorem pure (a : α) : Leaves view (pure a) := fun _ => rfl

theorem throw (e : Error) : Leaves view (throw e : Step α) := fun _ => rfl

theorem get : Leaves view (get : Step Session) := fun _ => rfl

theorem modify {f : Session → Session} (h : ∀ s, view (f s) = view s) :
    Leaves view (modify f : Step Unit) := h

theorem note {event : Event} (h : Overlooks view event) : Leaves view (note event) := h

theorem bind {f : α → Step β} (hx : Leaves view x)
    (hf : ∀ a, Leaves view (f a)) : Leaves view (x >>= f) := by
  intro s
  have hbefore := hx s
  rcases hrun : x.run s with ⟨u, s'⟩
  rw [hrun] at hbefore
  cases u with
  | error e =>
    rw [run_bind_error hrun]
    exact hbefore
  | ok a =>
    rw [run_bind_ok hrun, hf a s']
    exact hbefore

theorem mapM {f : ι → Step α} (h : ∀ i, Leaves view (f i)) (is : List ι) :
    Leaves view (is.mapM f) := by
  induction is with
  | nil => exact pure []
  | cons i rest ih =>
    rw [List.mapM_cons]
    exact (h i).bind fun a => ih.bind fun as => pure (a :: as)

end Leaves

/-! ### The steps of a build -/

variable {view : Session → ν}

theorem consult_leaves {event : Event} (h : Overlooks view event) (kind : LoaderKind) (source : Source α) :
    Leaves view (consult event kind source) :=
  Leaves.get.bind fun _ => (Leaves.note h).bind fun _ => .ofExcept _

theorem fetch_leaves {remembered : Session → Option α}
    {remember : α → Session → Session} {event : Event}
    (hevent : Overlooks view event) (hremember : ∀ a s, view (remember a s) = view s) (kind : LoaderKind)
    (source : Option (Source α)) : Leaves view (fetch remembered remember event kind source) := by
  refine Leaves.get.bind fun s => ?_
  cases remembered s with
  | some a => exact .pure (some a)
  | none =>
    cases source with
    | none => exact .pure none
    | some source =>
      exact (consult_leaves hevent kind source).bind fun a =>
        (Leaves.modify (hremember a)).bind fun _ => .pure (some a)

theorem timestamp_leaves (hevent : Overlooks view .timestampConsulted)
    (hset : ∀ t (s : Session), view { s with timestamp := t } = view s) (m : Materials) :
    Leaves view (timestamp m) := by
  rw [timestamp_eq_fetch]
  exact fetch_leaves hevent (fun t s => hset (some t) s) .timestamp m.timestampSource

theorem trusteeKeys_leaves (hevent : Overlooks view .trusteeKeysConsulted)
    (hset : ∀ keys (s : Session), view { s with trusteeKeys := keys } = view s) (m : Materials) :
    Leaves view (trusteeKeys m) := by
  rw [trusteeKeys_eq_fetch]
  exact fetch_leaves hevent (fun keys s => hset (some keys) s) .trusteeKeys m.trusteeKeySource

variable {scheme : SignatureScheme} {proof : IssuerProof}

theorem decodeProof_leaves (hevent : Overlooks view (.proofParsed proof.value)) :
    Leaves view (decodeProof scheme proof) := by
  unfold decodeProof
  split
  · exact (Leaves.note hevent).bind fun _ => .pure _
  · exact .pure _

theorem payload_leaves (hevent : Overlooks view (.proofParsed proof.value))
    (hset : ∀ p (s : Session), view { s with payload := p } = view s) :
    Leaves view (payload scheme proof) := by
  refine Leaves.get.bind fun s => ?_
  cases s.payload with
  | some p => exact .pure p
  | none =>
    refine (decodeProof_leaves hevent).bind fun decoded => (Leaves.ofExcept decoded).bind fun p => ?_
    exact (Leaves.modify (hset (some p))).bind fun _ => .pure p

end Step

open Step (Leaves Overlooks)

section Request
variable {view : Session → ν} {r : Request}

/-- A reserved signal touches its own material only: a timestamp, the trustee keys where the
arity is even, or the payload. -/
theorem reserved_leaves {d : Declaration}
    (htimestamp : d.name = Reserved.timestamp.name → Leaves view (Step.timestamp r.materials))
    (htrustees : d.name = Reserved.trusteePublicKeys.name → d.arity % 2 = 0 →
      Leaves view (Step.trusteeKeys r.materials))
    (hpayload : Leaves view (Step.payload r.scheme r.credential.proof)) :
    Leaves view (Resolution.reserved r d) := by
  unfold Resolution.reserved
  cases hkind : Reserved.ofName? d.name with
  | none => exact .pure none
  | some kind =>
    have hname := Reserved.ofName?_eq_some_iff.mp hkind
    have helements : Leaves view (Resolution.reservedElements r d kind) := by
      cases kind with
      | holderPrivateKey =>
        unfold Resolution.reservedElements
        dsimp only
        cases r.materials.holderKey with
        | none => exact .throw _
        | some key => exact (Leaves.ofExcept _).bind fun _ => .pure _
      | trusteePublicKeys =>
        unfold Resolution.reservedElements
        dsimp only
        by_cases heven : d.arity % 2 = 0
        · rw [if_neg (not_not_intro heven)]
          exact (htrustees hname heven).bind fun _ => (Leaves.ofExcept _).bind fun _ => .pure _
        · rw [if_pos heven]
          exact .throw _
      | timestamp => exact (htimestamp hname).bind fun _ => .pure _
      | credentialRoot => exact hpayload.bind fun _ => .pure _
      | issuerPublicKey => exact hpayload.bind fun _ => .pure _
      | issuerSignature => exact hpayload.bind fun _ => .pure _
    refine helements.bind fun values => ?_
    cases values with
    | none => exact .pure none
    | some values => exact (Leaves.ofExcept _).bind fun _ => .pure _

/-- A claim is disclosed and a rule is bound without the session. -/
theorem privateSignal_leaves {d : Declaration} (h : Leaves view (Resolution.reserved r d))
    (tree : Option Claim.Lookup) : Leaves view (Resolution.privateSignal r tree d) := by
  refine h.bind fun value => ?_
  cases value with
  | some v => exact .pure _
  | none =>
    dsimp only
    split
    · exact .throw _
    · exact .ofExcept _

theorem publicSignal_leaves {d : Declaration} (h : Leaves view (Resolution.reserved r d)) :
    Leaves view (Resolution.publicSignal r d) := by
  unfold Resolution.publicSignal
  split
  · exact .pure none
  · by_cases hreserved : d.isReserved = true
    · rw [if_pos hreserved]
      exact h.bind fun _ => .pure _
    · rw [if_neg hreserved]
      exact (Leaves.ofExcept _).bind fun _ => .pure _

/-- Committing the claims touches no material. -/
theorem claimsTree_leaves (haccumulated : ∀ depth count, Overlooks view (.claimsAccumulated depth count))
    (hparsed : Overlooks view (.proofParsed r.credential.proof.value))
    (hwarning : Overlooks view .rootMismatch) :
    Leaves view r.claimsTree := by
  refine (Leaves.ofExcept _).bind fun depth => ?_
  cases depth with
  | none => exact .pure none
  | some depth =>
    refine (Leaves.note (haccumulated _ _)).bind fun _ => (Leaves.ofExcept _).bind fun tree => ?_
    refine Leaves.bind ?_ fun _ => .pure _
    refine (Step.decodeProof_leaves hparsed).bind fun decoded => ?_
    cases decoded with
    | error e => exact .pure ()
    | ok p =>
      dsimp only
      split
      · exact .pure ()
      · exact .note hwarning

end Request

end Disclosure
