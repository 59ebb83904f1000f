import Disclosure.Proofs.Build.Session

/-! Builds that refuse their circuit.

A circuit with an array of claims is refused before anything is consulted
(`build_of_invalid`). No other part of a build speaks of such an array, unless the accumulator or
the scheme that the request was given does (`invalid_of_build`), and the default ones do not. -/
namespace Disclosure
open Outcome

namespace Error

/-- The error that an array of claims is refused with. -/
def arrayClaim (declaration : String) : Error :=
  .invalidDeclaration declaration .arrayClaim

/-- The error is not about an array of claims. -/
def Elsewhere (e : Error) : Prop :=
  ∀ declaration, e ≠ .arrayClaim declaration

theorem elsewhere_oddTrusteeArity (declaration : String) :
    Elsewhere (.invalidDeclaration declaration .oddTrusteeArity) :=
  fun _ h => nomatch (Error.invalidDeclaration.inj h).2

end Error

namespace Request

/-- The accumulator or the scheme of a request answers with the error. -/
inductive Relays (r : Request) (e : Error) : Prop
  | accumulator {claims : Claim.Claims} {depth : Nat} (h : r.accumulator.build claims depth = .error e)
  | parse {value : String} (h : r.scheme.parse value = .error e)
  | keyScalar {key : Bytes} (h : r.scheme.keyScalar key = .error e)

/-- An error that is about an array of claims only where it was relayed. -/
def Tolerates (r : Request) (e : Error) : Prop :=
  e.Elsewhere ∨ r.Relays e

end Request

/-! ### What is about something else -/

open Error (Elsewhere)

theorem check_errs (n : Nat) : Errs Elsewhere (Field.check n) := by
  unfold Field.check
  split
  · trivial
  · exact nofun

theorem ofBytes_errs (bytes : Bytes) : Errs Elsewhere (Field.ofBytes bytes) :=
  (check_errs _).bind fun _ => trivial

theorem shaped_errs (d : Declaration) (ns : List Nat) : Errs Elsewhere (SignalValue.shaped d ns) := by
  unfold SignalValue.shaped
  split
  · exact nofun
  · split <;> trivial

theorem settled_errs {α : Type} (kind : LoaderKind) (supplied : Option α) (source : Option (Source α)) :
    Errs Elsewhere (Materials.settled kind supplied source) := by
  unfold Materials.settled
  split
  · trivial
  · trivial
  · exact (Errs.mapError _ fun _ => nofun).map some

theorem trusteeElements_errs (d : Declaration) (keys : Option (List TrusteeKey)) :
    Errs Elsewhere (Resolution.trusteeElements d keys) := by
  unfold Resolution.trusteeElements
  split
  · exact nofun
  · dsimp only
    split
    · exact nofun
    · trivial

theorem disclose_errs (circuit : Circuit) (tree : Option Claim.Lookup) (d : Declaration) :
    Errs Elsewhere (Resolution.disclose circuit tree d) := by
  unfold Resolution.disclose
  split
  · exact nofun
  · dsimp only
    split
    · exact nofun
    · exact (shaped_errs d _).bind fun _ => trivial

theorem bound_errs (policy : Option Policy) (d : Declaration) :
    Errs Elsewhere (Resolution.bound policy d) := by
  unfold Resolution.bound
  split
  · trivial
  · unfold Policy.inject
    split
    · trivial
    · split
      · exact nofun
      · refine (Errs.mapM (fun rule : Rule => ofBytes_errs rule.value) _).bind fun ns => ?_
        exact (shaped_errs d ns).bind fun _ => trivial

theorem checkPolicy_errs (r : Request) : Errs Elsewhere r.checkPolicy := by
  unfold Request.checkPolicy
  split
  · trivial
  · split
    · trivial
    · exact nofun

theorem treeDepth_errs (explicit : Option Nat) (c : Circuit) (hasClaimSignals : Bool) :
    Errs Elsewhere (c.treeDepth explicit hasClaimSignals) := by
  unfold Circuit.treeDepth
  cases hasClaimSignals with
  | false => trivial
  | true =>
    cases explicit.or c.declaredDepth? with
    | none => exact nofun
    | some depth => trivial

theorem packKeys_errs (keys : List Bytes) : Errs Elsewhere (Request.packKeys keys) := by
  unfold Request.packKeys
  split
  · trivial
  · exact (check_errs _).bind fun _ => trivial

/-! ### What may be relayed -/

section Relayed
variable {r : Request}

theorem Outcome.Errs.tolerated {x : Except Error α} (h : Errs Elsewhere x) : Errs r.Tolerates x :=
  h.mono fun _ => .inl

theorem Outcome.Errs.relayed {x : Except Error α}
    (h : ∀ e, x = .error e → r.Relays e) : Errs r.Tolerates x :=
  .of_forall fun e he => .inr (h e he)

theorem payload_errs (r : Request) : Errs r.Tolerates r.payload := by
  unfold Request.payload SignatureScheme.payload
  split
  · exact .relayed fun _ => .parse
  · exact .inl nofun

theorem reservedElements_errs (d : Declaration) (kind : Reserved) :
    Errs r.Tolerates (Plan.reservedElements r d kind) := by
  cases kind with
  | holderPrivateKey =>
    unfold Plan.reservedElements
    dsimp only
    split
    · exact .inl nofun
    · exact (Errs.relayed fun _ => .keyScalar).bind fun _ => trivial
  | trusteePublicKeys =>
    unfold Plan.reservedElements
    dsimp only
    split
    -- An odd arity is a fault of a declaration too, but another one.
    · exact .inl (Error.elsewhere_oddTrusteeArity d.text)
    · refine (settled_errs _ _ _).tolerated.bind fun keys => ?_
      exact (trusteeElements_errs d keys).tolerated.bind fun _ => trivial
  | timestamp => exact (settled_errs _ _ _).tolerated.bind fun _ => trivial
  | credentialRoot => exact (payload_errs r).bind fun _ => trivial
  | issuerPublicKey => exact (payload_errs r).bind fun _ => trivial
  | issuerSignature => exact (payload_errs r).bind fun _ => trivial

theorem reserved_errs (d : Declaration) : Errs r.Tolerates (Plan.reserved r d) := by
  unfold Plan.reserved
  split
  · trivial
  · refine (reservedElements_errs d _).bind fun values => ?_
    cases values with
    | none => trivial
    | some ns => exact (shaped_errs d ns).tolerated.bind fun _ => trivial

theorem privateSignal_errs (tree : Option Claim.Lookup) (d : Declaration) :
    Errs r.Tolerates (Plan.privateSignal r tree d) := by
  refine (reserved_errs d).bind fun value => ?_
  cases value with
  | some v => trivial
  | none =>
    dsimp only
    split
    · exact .inl nofun
    · exact (disclose_errs r.circuit tree d).tolerated

theorem publicSignal_errs (d : Declaration) : Errs r.Tolerates (Plan.publicSignal r d) := by
  unfold Plan.publicSignal
  split
  · trivial
  · refine Errs.bind ?_ fun _ => trivial
    split
    · exact reserved_errs d
    · exact (bound_errs r.policy d).tolerated

theorem claimsTree_errs (r : Request) : Errs r.Tolerates (Plan.claimsTree r) := by
  refine (treeDepth_errs _ _ _).tolerated.bind fun depth => ?_
  cases depth with
  | none => trivial
  | some depth => exact (Errs.relayed fun _ => .accumulator).bind fun _ => trivial

end Relayed

/-! ### The default accumulator and scheme -/

theorem sparse_errs (claims : Claim.Claims) (depth : Nat) :
    Errs Elsewhere (Claim.Accumulator.sparse.build claims depth) := by
  have hleaf : ∀ claim : String × Nat, Errs Elsewhere (Claim.leafHash claim.1 claim.2) := by
    intro claim
    refine Errs.bind ?_ fun _ => trivial
    unfold Field.toElement
    split
    · trivial
    · exact nofun
  refine Errs.map ?_ Claim.SparseTree.lookup
  unfold Claim.SparseTree.build
  split
  · exact nofun
  · split
    · exact nofun
    · split
      · exact nofun
      · exact (Errs.mapM hleaf _).bind fun _ => trivial

theorem parse_errs (value : String) : Errs Elsewhere (BabyJubJub.parse value) := by
  have helement : ∀ bytes i, Errs Elsewhere (BabyJubJub.elementAt bytes i) := fun _ _ => ofBytes_errs _
  refine (Errs.mapError _ fun _ => nofun).bind fun bytes => ?_
  split
  · exact nofun
  · refine (helement bytes 0).bind fun _ => (helement bytes 1).bind fun _ => ?_
    refine (helement bytes 2).bind fun _ => (helement bytes 3).bind fun _ => ?_
    exact (helement bytes 4).bind fun _ => (helement bytes 5).bind fun _ => trivial

theorem keyScalar_errs (key : Bytes) : Errs Elsewhere (BabyJubJub.keyScalar key) := by
  unfold BabyJubJub.keyScalar
  split
  · exact nofun
  · trivial

namespace Request
variable {r : Request}

theorem not_relays_of_standard (hr : r.Standard) (declaration : String) :
    ¬r.Relays (.arrayClaim declaration) := by
  obtain ⟨haccumulator, hscheme⟩ := hr
  intro h
  cases h with
  | @accumulator claims depth h =>
    rw [haccumulator] at h
    exact (sparse_errs claims depth).of_error h declaration rfl
  | @parse value h =>
    rw [hscheme] at h
    exact (parse_errs value).of_error h declaration rfl
  | @keyScalar key h =>
    rw [hscheme] at h
    exact (keyScalar_errs key).of_error h declaration rfl

/-! ### The whole build -/

/-- An invalid circuit is refused before anything is consulted. -/
theorem build_of_invalid {e : Error} (h : r.circuit.validate = .error e) : r.build = ⟨.error e, []⟩ := by
  have hrun : r.steps.run (.start r.materials) = (.error e, .start r.materials) :=
    Step.run_bind_error (by rw [h]; rfl) _
  rw [build, hrun]
  rfl

/-- **A build speaks of an array of claims only where its circuit has one**, or relays it. -/
theorem invalid_of_build {declaration : String} (h : r.build.outcome = .error (.arrayClaim declaration)) :
    r.circuit.validate = .error (.arrayClaim declaration) ∨ r.Relays (.arrayClaim declaration) := by
  rw [build_outcome] at h
  obtain hinvalid | ⟨_, _, hrest⟩ := bind_eq_error_iff.mp h
  · exact .inl hinvalid
  · have herrs : r.Tolerates (.arrayClaim declaration) := by
      refine Errs.of_error ?_ hrest
      refine (checkPolicy_errs r).tolerated.bind fun _ => (claimsTree_errs r).bind fun tree => ?_
      refine (Errs.mapM (privateSignal_errs tree) _).bind fun disclosed => ?_
      refine (Errs.mapM publicSignal_errs _).bind fun publics => ?_
      exact (packKeys_errs _).tolerated.bind fun _ => trivial
    exact .inr (herrs.resolve_left fun helsewhere => helsewhere declaration rfl)

end Request
end Disclosure
