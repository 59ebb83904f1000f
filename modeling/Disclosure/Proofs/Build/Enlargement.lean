import Disclosure.Proofs.Build.Inclusion
import Disclosure.Proofs.Build.Selective

/-! More claims than a circuit asks for.

Claims that are added to a credential move the ranks of the others, and with them the keys
and the siblings. They do not move a value: what the smaller tree finds, the larger one
finds too. So the build of the larger credential gives the same signals, or fails for one
reason only: the key packed from the new ranks is no field element (`build_enlarged`). -/
namespace Disclosure

/-- A credential with all claims of another and the same proof. -/
structure Credential.Enlarges (larger c : Credential) : Prop where
  proof : c.proof = larger.proof
  kept : Claim.flatten c.subject ⊆ Claim.flatten larger.subject

/-- A lookup that finds, with the same values, what another one finds. -/
def Claim.Lookup.Extends (larger l : Claim.Lookup) : Prop :=
  ∀ path, (l.get path).found = true →
    (larger.get path).found = true ∧ (larger.get path).value = (l.get path).value

/-- The key packed from the ranks is a field element. -/
def Request.KeyFits (r : Request) : Prop :=
  ∀ depth, r.depth? = some depth → r.packedRanks depth < Field.order

namespace Plan
variable {r : Request} {c : Credential}

/-! ### Signals that another credential keeps -/

theorem reservedOf_withCredential (h : r.credential.proof = c.proof) (d : Declaration) (kind : Reserved) :
    reservedOf (r.withCredential c) d kind = reservedOf r d kind := by
  have helements : reservedElements (r.withCredential c) d kind = reservedElements r d kind := by
    cases kind <;> simp only [reservedElements, Request.payload, Request.withCredential, h]
  unfold reservedOf
  rw [helements]

theorem publicSignal_withCredential (h : r.credential.proof = c.proof) :
    publicSignal (r.withCredential c) = publicSignal r := by
  funext d
  have hreserved : reserved (r.withCredential c) d = reserved r d := by
    unfold reserved
    simp only [reservedOf_withCredential h]
  unfold publicSignal
  rw [hreserved]
  rfl

theorem privateSignal_of_discloses {tree : Option Claim.Lookup} {d : Declaration} {x : Disclosed}
    (h : Discloses r tree d x) : privateSignal r tree d = .ok x := by
  unfold privateSignal
  cases h with
  | material hname hv =>
    rw [reserved_of_name hname, hv]
    rfl
  | claim hopen harity htree hfound =>
    subst htree
    rw [reserved_of_open hopen]
    show (if d.isReserved = true then _ else Resolution.disclose r.circuit _ d) = _
    rw [if_neg (Bool.eq_false_iff.mp hopen)]
    unfold Resolution.disclose
    dsimp only
    rw [hfound, SignalValue.shaped_scalar harity]
    rfl

/-- A signal keeps its name and its value where the lookup finds as much. -/
theorem discloses_enlarged (hproof : r.credential.proof = c.proof) {tree tree' : Option Claim.Lookup}
    (htree : Option.Rel (fun l l' => l'.Extends l) tree tree') {d : Declaration} {x : Disclosed}
    (h : Discloses r tree d x) :
    ∃ y, Discloses (r.withCredential c) tree' d y ∧ (y.name, y.value) = (x.name, x.value) := by
  cases h with
  | material hname hv => exact ⟨_, .material hname ((reservedOf_withCredential hproof d _).trans hv), rfl⟩
  | claim hopen harity hsome hfound =>
    subst hsome
    cases htree with
    | some hextends =>
      obtain ⟨hfound', hvalue⟩ := hextends _ hfound
      exact ⟨_, .claim hopen harity rfl hfound', by rw [hvalue]⟩

theorem disclosed_enlarged (hproof : r.credential.proof = c.proof) {tree tree' : Option Claim.Lookup}
    (htree : Option.Rel (fun l l' => l'.Extends l) tree tree') {ds : List Declaration} {xs : List Disclosed}
    (h : List.Forall₂ (Discloses r tree) ds xs) :
    ∃ ys, List.Forall₂ (Discloses (r.withCredential c) tree') ds ys ∧
      ys.map (fun y => (y.name, y.value)) = xs.map (fun x => (x.name, x.value)) := by
  induction h with
  | nil => exact ⟨[], .nil, rfl⟩
  | cons hx _ ih =>
    obtain ⟨y, hy, hpair⟩ := discloses_enlarged hproof htree hx
    obtain ⟨ys, hys, hpairs⟩ := ih
    exact ⟨y :: ys, .cons hy hys, by rw [List.map_cons, List.map_cons, hpair, hpairs]⟩

/-! ### The larger tree -/

/-- Where there is room, the larger credential has a tree at the same depth. -/
theorem claimsTree_enlarged (hr : r.accumulator = .sparse) (hc : c.Enlarges r.credential)
    (hroom : ∀ depth, r.depth? = some depth → (r.withCredential c).claims.length ≤ 2 ^ depth)
    {tree : Option Claim.Lookup} (htree : claimsTree r = .ok tree) :
    ∃ tree', claimsTree (r.withCredential c) = .ok tree' ∧
      Option.Rel (fun l l' => l'.Extends l) tree tree' := by
  obtain ⟨hnil, rfl⟩ | ⟨hne, depth, t, hdepth, ht, rfl⟩ := claimsTree_cases_of_sparse hr htree
  · have hnil' : (r.withCredential c).claimSignals = [] := hnil
    exact ⟨none, claimsTree_of_nil hnil', .none⟩
  · have hne' : (r.withCredential c).claimSignals ≠ [] := hne
    have hdepth' : (r.withCredential c).depth? = some depth := hdepth
    have hr' : (r.withCredential c).accumulator = .sparse := hr
    obtain ⟨haccepted, _⟩ := Claim.SparseTree.build_eq_ok_iff.mp ht
    obtain ⟨u, hu⟩ : ∃ u, Claim.SparseTree.build (r.withCredential c).claims depth = .ok u :=
      ⟨_, Claim.SparseTree.build_eq_ok_iff.mpr
        ⟨⟨haccepted.depth_pos, haccepted.depth_le, hroom depth hdepth,
        Claim.flatten_nodup c.subject, Claim.flatten_lt c.subject⟩, rfl⟩⟩
    refine ⟨some u.lookup, ?_, .some fun path hfound => Claim.entry_of_subset ht hu hc.kept hfound⟩
    rw [claimsTree_of_depth hne' hdepth', build_of_sparse hr', hu]
    rfl

/-! ### The larger build -/

/-- Once the signals are there, only the key is left to check. -/
theorem assignment_of_signals {tree : Option Claim.Lookup} {xs : List Disclosed}
    {publics : List (Option (String × SignalValue))} (hvalid : r.circuit.validate = .ok ())
    (htarget : r.checkPolicy = .ok ()) (htree : claimsTree r = .ok tree)
    (hxs : List.Forall₂ (Discloses r tree) r.circuit.privateSignals xs)
    (hpublics : r.circuit.publicSignals.mapM (publicSignal r) = .ok publics) :
    assignment r = Request.packKeys ((xs.filterMap (·.inclusion)).map (·.1)) >>= fun key =>
      .ok ⟨xs.map (fun x => (x.name, x.value)) ++ publics.filterMap id, key,
        (xs.filterMap (·.inclusion)).map (·.2)⟩ := by
  have hmap : r.circuit.privateSignals.mapM (privateSignal r tree) = .ok xs :=
    Outcome.mapM_eq_ok_iff.mpr (hxs.imp fun _ _ => privateSignal_of_discloses)
  unfold assignment
  rw [hvalid, Outcome.ok_bind, htarget, Outcome.ok_bind, htree, Outcome.ok_bind, hmap, Outcome.ok_bind,
    hpublics, Outcome.ok_bind]

/-- With the larger credential everything but the key is as before. -/
theorem assignment_enlarged (hr : r.accumulator = .sparse) (hc : c.Enlarges r.credential)
    (hroom : ∀ depth, r.depth? = some depth → (r.withCredential c).claims.length ≤ 2 ^ depth)
    {a : Assignment} (h : assignment r = .ok a) :
    ∃ packed rows, Outcome.FirstOf (r.withCredential c).keyFaults packed ∧
      assignment (r.withCredential c) = packed >>= fun key => .ok ⟨a.signals, key, rows⟩ := by
  obtain ⟨_, hvalid, h⟩ := Outcome.bind_eq_ok_iff.mp h
  obtain ⟨_, htarget, h⟩ := Outcome.bind_eq_ok_iff.mp h
  obtain ⟨tree, htree, h⟩ := Outcome.bind_eq_ok_iff.mp h
  obtain ⟨xs, hxs, h⟩ := Outcome.bind_eq_ok_iff.mp h
  obtain ⟨publics, hpublics, h⟩ := Outcome.bind_eq_ok_iff.mp h
  obtain ⟨key, _, h⟩ := Outcome.bind_eq_ok_iff.mp h
  cases h
  have hdiscloses := (Outcome.mapM_eq_ok_iff.mp hxs).imp fun _ _ => discloses_of_privateSignal
  obtain ⟨tree', htree', hextends⟩ := claimsTree_enlarged hr hc hroom htree
  obtain ⟨ys, hys, hpairs⟩ := disclosed_enlarged hc.proof hextends hdiscloses
  rw [← publicSignal_withCredential hc.proof] at hpublics
  have hr' : (r.withCredential c).accumulator = .sparse := hr
  refine ⟨_, (ys.filterMap (·.inclusion)).map (·.2), firstOf_packKeys hr' htree' hys, ?_⟩
  rw [assignment_of_signals (r := r.withCredential c) hvalid htarget htree' hys hpublics, hpairs]

end Plan

section Build
variable {r : Request} {c : Credential}

/-- **Claims that are not asked for change no signal.** Where the larger credential has room
at the depth, its build gives the signals of the smaller one as long as the key packed from
the new ranks is a field element, and is refused for that key otherwise. -/
theorem build_enlarged (hr : r.accumulator = .sparse) {a : Assignment} (h : r.build.outcome = .ok a)
    (hc : c.Enlarges r.credential)
    (hroom : ∀ depth, r.depth? = some depth → (r.withCredential c).claims.length ≤ 2 ^ depth) :
    ((r.withCredential c).KeyFits →
        ∃ b, (r.withCredential c).build.outcome = .ok b ∧ b.signals = a.signals) ∧
      ∀ depth, r.depth? = some depth → Field.order ≤ (r.withCredential c).packedRanks depth →
        (r.withCredential c).build.outcome =
          .error (.invalidElement (.outOfField ((r.withCredential c).packedRanks depth))) := by
  rw [build_outcome] at h
  rw [build_outcome]
  obtain ⟨packed, rows, hpacked, hassignment⟩ := Plan.assignment_enlarged hr hc hroom h
  rw [hassignment]
  constructor
  · intro hfits
    obtain ⟨key, hkey⟩ := hpacked.ok_iff.mpr (Request.keyFaults_eq_nil_iff.mpr hfits)
    rw [hkey]
    exact ⟨_, rfl, rfl⟩
  · intro depth hdepth hlarge
    have hdepth' : (r.withCredential c).depth? = some depth := hdepth
    have hhead : (r.withCredential c).keyFaults.head? =
        some (.invalidElement (.outOfField ((r.withCredential c).packedRanks depth))) := by
      unfold Request.keyFaults
      rw [hdepth']
      dsimp only
      rw [Field.faults, if_neg (Nat.not_lt.mpr hlarge)]
      rfl
    rw [(hpacked.error_iff _).mpr hhead]
    rfl

/-- **A key of at most 31 bytes always fits.** -/
theorem keyFits_of_narrow {depth : Nat} (hdepth : r.depth? = some depth) (hpos : 0 < depth)
    (hroom : r.claims.length ≤ 2 ^ depth)
    (hclaimed : ∀ d ∈ r.claimSignals, Claim.pathOf d.name ∈ r.claims.map (·.1))
    (hnarrow : Claim.keyWidth depth * r.claimSignals.length ≤ 31) : r.KeyFits := by
  have hranks : ∀ n ∈ r.ranks, n < 256 ^ Claim.keyWidth depth := by
    intro n hn
    obtain ⟨d, hd, rfl⟩ := List.mem_map.mp hn
    obtain ⟨claim, hclaim, hpath⟩ := List.mem_map.mp (hclaimed d hd)
    rw [← hpath]
    exact Nat.lt_of_lt_of_le (Claim.rank_lt hclaim) (hroom.trans (Claim.two_pow_le_pow_keyWidth depth))
  intro depth' hdepth'
  rw [hdepth] at hdepth'
  cases hdepth'
  calc r.packedRanks depth
    _ < 256 ^ (Claim.keyWidth depth * r.claimSignals.length) := packedRanks_lt hpos hranks
    _ ≤ 256 ^ 31 := Nat.pow_le_pow_right (by decide) hnarrow
    _ < Field.order := by decide +kernel

end Build

/-- A country between the city and the code moves all claims but the first. -/
def settledSubject : Json.Object where
  members :=
    [("address", .object [("city", .number (.natural 620)), ("country", .number (.natural 49)),
        ("zip", .string "90210")]),
     ("birthDate", .number (.natural 19890101)), ("name", .string "7")]
  ordered := by
    unfold Json.OrderedObject Keyed.Ordered
    refine ⟨by decide, ⟨?_, trivial, trivial, trivial, trivial⟩, trivial, trivial, trivial⟩
    unfold Keyed.Ordered
    decide

def settledCredential : Credential :=
  { subject := settledSubject, proof := ⟨"", ""⟩ }

/-- The date of birth moves, and the signals stay. -/
theorem ageRequest_enlarged :
    ageRequest.ranks ≠ (ageRequest.withCredential settledCredential).ranks ∧
      ∃ a b, ageRequest.build.outcome = .ok a ∧
        (ageRequest.withCredential settledCredential).build.outcome = .ok b ∧ b.signals = a.signals := by
  have hkept : settledCredential.Enlarges ageRequest.credential := ⟨rfl, by decide +kernel⟩
  have hroom : (ageRequest.withCredential settledCredential).claims.length ≤ 2 ^ 9 := by decide +kernel
  have hdepth : (ageRequest.withCredential settledCredential).depth? = some 9 := rfl
  have hfits : (ageRequest.withCredential settledCredential).KeyFits :=
    keyFits_of_narrow hdepth (by decide) hroom (by decide +kernel) (by decide)
  obtain ⟨a, ha⟩ := ageRequest_builds
  have henlarged := build_enlarged rfl ha hkept fun depth hdepth => by cases hdepth; exact hroom
  obtain ⟨b, hb, hsignals⟩ := henlarged.1 hfits
  exact ⟨by decide +kernel, a, b, ha, hb, hsignals⟩

/-! ### A key that grows out of the field -/

def lettersSubject : Json.Object where
  members :=
    [("a", .number (.natural 1)), ("b", .number (.natural 2)), ("c", .number (.natural 3)),
     ("d", .number (.natural 4)), ("e", .number (.natural 5))]
  ordered := by
    unfold Json.OrderedObject Keyed.Ordered
    exact ⟨by decide, trivial, trivial, trivial, trivial, trivial, trivial⟩

/-- Five keys of eight bytes, the last of them zero. -/
def lettersRequest : Request where
  credential := { subject := lettersSubject, proof := ⟨"", ""⟩ }
  circuit :=
    { name := "letters"
      privateSignals := [⟨"b", 1⟩, ⟨"c", 1⟩, ⟨"d", 1⟩, ⟨"e", 1⟩, ⟨"a", 1⟩] }
  depth := some 64

/-- One more claim before all the others. -/
def capitalSubject : Json.Object where
  members := ("A", .number (.natural 6)) :: lettersSubject.members
  ordered := by
    unfold Json.OrderedObject Keyed.Ordered
    exact ⟨by decide, trivial, lettersSubject.ordered.2⟩

def capitalCredential : Credential :=
  { subject := capitalSubject, proof := ⟨"", ""⟩ }

/-- A claim that no signal asks for makes the last key one, and the packed key too large. -/
theorem lettersRequest_breaks :
    (∃ a, lettersRequest.build.outcome = .ok a) ∧
      capitalCredential.Enlarges lettersRequest.credential ∧
      (∀ c ∈ Claim.flatten capitalCredential.subject, c ∈ lettersRequest.claims ∨
        ∀ d ∈ lettersRequest.circuit.privateSignals, Claim.pathOf d.name ≠ c.1) ∧
      (lettersRequest.withCredential capitalCredential).claims.length ≤ 2 ^ 64 ∧
      (lettersRequest.withCredential capitalCredential).build.outcome =
        .error (.invalidElement (.outOfField (2 + 3 * 2 ^ 64 + 4 * 2 ^ 128 + 5 * 2 ^ 192 + 2 ^ 256))) := by
  have hbuilds : lettersRequest.faults = [] := by decide +kernel
  have hbreaks : (lettersRequest.withCredential capitalCredential).faults.head? =
      some (.invalidElement (.outOfField (2 + 3 * 2 ^ 64 + 4 * 2 ^ 128 + 5 * 2 ^ 192 + 2 ^ 256))) := by
    decide +kernel
  refine ⟨(firstOf_build ⟨rfl, rfl⟩).ok_iff.mpr hbuilds, ⟨rfl, by decide +kernel⟩,
    by decide +kernel, by decide +kernel, ?_⟩
  exact ((firstOf_build ⟨rfl, rfl⟩).error_iff _).mpr hbreaks

end Disclosure
