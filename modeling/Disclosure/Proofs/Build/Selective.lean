import Disclosure.Proofs.Build.Buildable
import Disclosure.Proofs.Build.SideBySide
import Disclosure.Proofs.Claim.Commitment

/-! Selective disclosure.

Two credentials may differ in anything but the proof, the paths of their claims and the
values that a circuit asks for. Their builds then fail with one error or give the same
signals and the same key (`build_selective`): a claim that is not asked for shows in sibling
hashes and in the warning about the root, and in nothing else. -/
namespace Disclosure

/-- Credentials that agree on what the signals ask for. -/
structure Credential.AgreeOn (signals : List Declaration) (c c' : Credential) : Prop where
  proof : c.proof = c'.proof
  paths : ∀ path, path ∈ (Claim.flatten c.subject).map (·.1) ↔
    path ∈ (Claim.flatten c'.subject).map (·.1)
  values : ∀ d ∈ signals, ∀ value,
    (Claim.pathOf d.name, value) ∈ Claim.flatten c.subject ↔
      (Claim.pathOf d.name, value) ∈ Claim.flatten c'.subject

theorem Credential.AgreeOn.map_fst_eq {signals : List Declaration}
    {c c' : Credential} (h : c.AgreeOn signals c') :
    (Claim.flatten c.subject).map (·.1) = (Claim.flatten c'.subject).map (·.1) :=
  Claim.map_fst_eq_of_mem_iff (Claim.flatten_ordered c.subject) (Claim.flatten_ordered c'.subject) h.paths

/-- The same build from another credential. -/
def Request.withCredential (r : Request) (c : Credential) : Request :=
  { r with credential := c }

/-- Assignments that differ in what the siblings are only. -/
structure Assignment.Indistinct (a b : Assignment) : Prop where
  signals : a.signals = b.signals
  claimsKey : a.claimsKey = b.claimsKey
  shape : a.claimsProof.map List.length = b.claimsProof.map List.length

/-- Builds that ask the same of their surroundings, in the same order, and come to the same
error or to assignments that differ in siblings only. -/
structure Report.Indistinct (x y : Report) : Prop where
  outcome : Outcome.Alike Assignment.Indistinct x.outcome y.outcome
  asked : Event.asked x.events = Event.asked y.events

/-- A disclosed signal, with the number of its siblings for the siblings. -/
def Disclosed.shown (x : Disclosed) : String × SignalValue × Option (Bytes × Nat) :=
  (x.name, x.value, x.inclusion.map fun i => (i.1, i.2.length))

section Shown
variable {xs ys : List Disclosed}

theorem signals_of_shown (h : xs.map Disclosed.shown = ys.map Disclosed.shown) :
    xs.map (fun x => (x.name, x.value)) = ys.map (fun y => (y.name, y.value)) := by
  have hpairs : ∀ zs : List Disclosed,
      zs.map (fun z => (z.name, z.value)) = (zs.map Disclosed.shown).map fun s => (s.1, s.2.1) := by
    intro zs
    rw [List.map_map]
    rfl
  rw [hpairs, hpairs, h]

theorem inclusions_of_shown (h : xs.map Disclosed.shown = ys.map Disclosed.shown) :
    (xs.filterMap (·.inclusion)).map (fun i => (i.1, i.2.length)) =
      (ys.filterMap (·.inclusion)).map (fun i => (i.1, i.2.length)) := by
  have hinclusions : ∀ zs : List Disclosed,
      (zs.filterMap (·.inclusion)).map (fun i => (i.1, i.2.length)) =
        (zs.map Disclosed.shown).filterMap (·.2.2) := by
    intro zs
    rw [List.map_filterMap, List.filterMap_map]
    rfl
  rw [hinclusions, hinclusions, h]

theorem keys_of_shown (h : xs.map Disclosed.shown = ys.map Disclosed.shown) :
    (xs.filterMap (·.inclusion)).map (·.1) = (ys.filterMap (·.inclusion)).map (·.1) := by
  have hkeys := congrArg (List.map Prod.fst) (inclusions_of_shown h)
  rw [List.map_map, List.map_map] at hkeys
  exact hkeys

theorem indistinct_of_shown (h : xs.map Disclosed.shown = ys.map Disclosed.shown)
    (publics : List (Option (String × SignalValue))) (key : Option Nat) :
    Assignment.Indistinct
      ⟨xs.map (fun x => (x.name, x.value)) ++ publics.filterMap id, key,
        (xs.filterMap (·.inclusion)).map (·.2)⟩
      ⟨ys.map (fun y => (y.name, y.value)) ++ publics.filterMap id, key,
        (ys.filterMap (·.inclusion)).map (·.2)⟩ := by
  refine ⟨by rw [signals_of_shown h], rfl, ?_⟩
  have hlengths := congrArg (List.map Prod.snd) (inclusions_of_shown h)
  rw [List.map_map, List.map_map] at hlengths
  rw [List.map_map, List.map_map]
  exact hlengths

end Shown

/-- Lookups that answer alike for the signals. -/
def Claim.Lookup.AlikeOn (signals : List Declaration) (l l' : Claim.Lookup) : Prop :=
  ∀ d ∈ signals, (l.get (Claim.pathOf d.name)).Alike (l'.get (Claim.pathOf d.name))

section Builds
variable {r : Request} {c : Credential}

/-! ### Signals -/

/-- A reserved signal looks at the proof and at no claim. -/
theorem reserved_withCredential (h : r.credential.proof = c.proof) (d : Declaration) :
    Resolution.reserved (r.withCredential c) d = Resolution.reserved r d := by
  have helements : ∀ kind, Resolution.reservedElements (r.withCredential c) d kind =
      Resolution.reservedElements r d kind := by
    intro kind
    cases kind <;> simp only [Resolution.reservedElements, Request.withCredential, h]
  unfold Resolution.reserved
  simp only [helements]

theorem publicSignal_withCredential (h : r.credential.proof = c.proof) (d : Declaration) :
    Resolution.publicSignal (r.withCredential c) d = Resolution.publicSignal r d := by
  unfold Resolution.publicSignal
  rw [reserved_withCredential h]
  rfl

theorem disclose_alike (circuit : Circuit) {signals : List Declaration} {tree tree' : Option Claim.Lookup}
    (htree : Option.Rel (Claim.Lookup.AlikeOn signals) tree tree') {d : Declaration} (hd : d ∈ signals) :
    Outcome.Alike (fun x y => x.shown = y.shown) (Resolution.disclose circuit tree d)
      (Resolution.disclose circuit tree' d) := by
  cases htree with
  | none => exact .error _
  | some h =>
    have hentry := h d hd
    unfold Resolution.disclose
    dsimp only
    rw [hentry.found, hentry.value]
    split
    · exact .error _
    · refine (Outcome.Alike.refl _).bind fun v w hvw => ?_
      rw [hvw]
      refine .ok ?_
      unfold Disclosed.shown
      rw [hentry.key, Option.map_some, Option.map_some, hentry.length]

theorem privateSignal_alike (hproof : r.credential.proof = c.proof) {tree tree' : Option Claim.Lookup}
    (htree : Option.Rel (Claim.Lookup.AlikeOn r.claimSignals) tree tree') {d : Declaration}
    (hd : d ∈ r.circuit.privateSignals) :
    Step.Alike (fun x y => x.shown = y.shown) (Resolution.privateSignal r tree d)
      (Resolution.privateSignal (r.withCredential c) tree' d) := by
  unfold Resolution.privateSignal
  rw [reserved_withCredential hproof]
  refine (Resolution.reserved_blind r d).andThen fun value => ?_
  cases value with
  | some v => exact .pure rfl
  | none =>
    dsimp only
    by_cases hreserved : d.isReserved = true
    · rw [if_pos hreserved, if_pos hreserved]
      exact .throw _
    · rw [if_neg hreserved, if_neg hreserved]
      have hopen := Request.mem_claimSignals.mpr ⟨hd, Bool.eq_false_iff.mpr hreserved⟩
      exact .ofExcept (disclose_alike r.circuit htree hopen)

/-! ### The tree -/

/-- Whether the root was signed only decides about a warning. -/
theorem compareRoots_alike (hproof : r.credential.proof = c.proof) (l l' : Claim.Lookup) :
    Step.Alike Eq (r.compareRoots l) ((r.withCredential c).compareRoots l') := by
  unfold Request.compareRoots
  show Step.Alike Eq _ (Step.decodeProof r.scheme c.proof >>= _)
  rw [← hproof]
  refine (Step.decodeProof_blind _ _).andThen fun decoded => ?_
  cases decoded with
  | error e => exact .pure rfl
  | ok p => exact Step.warn_alike _ _

/-- The trees of both credentials, if there are any, answer alike. -/
theorem lookup_alike (hr : r.accumulator = .sparse)
    (h : r.credential.AgreeOn r.claimSignals c) (depth : Nat) :
    Outcome.Alike (Claim.Lookup.AlikeOn r.claimSignals) (r.accumulator.build r.claims depth)
      ((r.withCredential c).accumulator.build (r.withCredential c).claims depth) := by
  have hbuild := Claim.build_alike (Claim.flatten_ordered r.credential.subject)
    (Claim.flatten_ordered c.subject) (Claim.flatten_lt _) (Claim.flatten_lt _) h.map_fst_eq depth
  rw [Plan.build_of_sparse hr, Plan.build_of_sparse (r := r.withCredential c) hr]
  refine hbuild.bind fun t u ⟨ht, hu⟩ => .ok fun d hd => ?_
  exact Claim.entry_alike ht hu h.map_fst_eq (h.values d hd)

theorem claimsTree_alike (hr : r.accumulator = .sparse) (h : r.credential.AgreeOn r.claimSignals c) :
    Step.Alike (Option.Rel (Claim.Lookup.AlikeOn r.claimSignals)) r.claimsTree
      (r.withCredential c).claimsTree := by
  have hlength : r.claims.length = (r.withCredential c).claims.length := by
    have hlength := congrArg List.length h.map_fst_eq
    rw [List.length_map, List.length_map] at hlength
    exact hlength
  unfold Request.claimsTree
  refine (Step.Blind.ofExcept (r.circuit.treeDepth r.depth r.circuit.hasClaimSignals)).andThen fun depth => ?_
  cases depth with
  | none => exact .pure .none
  | some depth =>
    show Step.Alike _ (Step.note (.claimsAccumulated depth r.claims.length) >>= _)
      (Step.note (.claimsAccumulated depth (r.withCredential c).claims.length) >>= _)
    rw [← hlength]
    refine (Step.note_blind _).andThen fun _ => ?_
    refine (Step.Alike.ofExcept (lookup_alike hr h depth)).bind fun l l' hl => ?_
    exact (compareRoots_alike h.proof l l').bind fun _ _ _ => .pure (.some hl)

/-! ### The whole build -/

theorem steps_alike (hr : r.accumulator = .sparse) (h : r.credential.AgreeOn r.claimSignals c) :
    Step.Alike Assignment.Indistinct r.steps (r.withCredential c).steps := by
  refine (Step.Blind.ofExcept r.circuit.validate).andThen fun _ => ?_
  refine (Step.Blind.ofExcept r.checkPolicy).andThen fun _ => ?_
  refine (claimsTree_alike hr h).bind fun tree tree' htree => ?_
  refine (Step.Alike.mapM fun d hd => privateSignal_alike h.proof htree hd).bind fun xs ys hshown => ?_
  have hshown : xs.map Disclosed.shown = ys.map Disclosed.shown := by
    rwa [← List.forall₂_eq_eq_eq, List.forall₂_map_left_iff, List.forall₂_map_right_iff]
  have hpublic : Resolution.publicSignal (r.withCredential c) = Resolution.publicSignal r :=
    funext (publicSignal_withCredential h.proof)
  rw [hpublic]
  refine (Step.Blind.mapM (Resolution.publicSignal_blind r) r.circuit.publicSignals).andThen fun publics => ?_
  dsimp only
  rw [keys_of_shown hshown]
  refine (Step.Blind.ofExcept _).andThen fun key => ?_
  exact .pure (indistinct_of_shown hshown publics key)

/-- **Only what is asked for is disclosed.** With another credential that agrees on the
signals backed by claims, a build fails with the same error or gives the same signals and the
same key, with rows of the same lengths, and asks the same of its surroundings. -/
theorem build_selective (hr : r.accumulator = .sparse) (h : r.credential.AgreeOn r.claimSignals c) :
    r.build.Indistinct (r.withCredential c).build := by
  obtain ⟨houtcome, hsession⟩ := steps_alike hr h (.start r.materials) (.start r.materials) (.refl _)
  exact ⟨houtcome, hsession.asked⟩

end Builds

/-- The same city and date of birth under another name and another code. -/
def otherSubject : Json.Object where
  members :=
    [("address", .object [("city", .number (.natural 620)), ("zip", .string "10115")]),
     ("birthDate", .number (.natural 19890101)), ("name", .string "31")]
  ordered := by
    unfold Json.OrderedObject Keyed.Ordered
    refine ⟨by decide, ⟨?_, trivial, trivial, trivial⟩, trivial, trivial, trivial⟩
    unfold Keyed.Ordered
    decide

def otherCredential : Credential :=
  { id := "other", issuer := "elsewhere", subject := otherSubject, proof := ⟨"", ""⟩ }

theorem ageRequest_agrees : ageRequest.credential.AgreeOn ageRequest.claimSignals otherCredential := by
  have hage : Claim.flatten ageRequest.credential.subject =
      [("address.city", 620), ("address.zip", 90210), ("birthDate", 19890101), ("name", 7)] := by
    decide +kernel
  have hother : Claim.flatten otherCredential.subject =
      [("address.city", 620), ("address.zip", 10115), ("birthDate", 19890101), ("name", 31)] := by
    decide +kernel
  have hsignals : ageRequest.claimSignals.map (Claim.pathOf ·.name) = ["birthDate", "address.city"] := by
    decide +kernel
  refine ⟨rfl, fun path => by rw [hage, hother]; rfl, fun d hd value => ?_⟩
  have hpath : Claim.pathOf d.name ∈ ["birthDate", "address.city"] :=
    hsignals ▸ List.mem_map_of_mem hd
  rw [hage, hother]
  simp only [List.mem_cons, List.not_mem_nil, or_false] at hpath
  rcases hpath with hpath | hpath <;> simp [hpath]

/-- Neither the name nor the code can be told from the assignment. -/
theorem ageRequest_selective :
    ageRequest.claims ≠ (ageRequest.withCredential otherCredential).claims ∧
      ∃ a b, ageRequest.build.outcome = .ok a ∧
        (ageRequest.withCredential otherCredential).build.outcome = .ok b ∧ a.Indistinct b := by
  refine ⟨by decide +kernel, ?_⟩
  obtain ⟨a, ha⟩ := ageRequest_builds
  have halike := (build_selective rfl ageRequest_agrees).outcome
  obtain ⟨b, hb, hab⟩ := halike.exists_of_ok ha
  exact ⟨a, b, ha, hb, hab⟩

end Disclosure
