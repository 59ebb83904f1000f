import Disclosure.Proofs.Build.Refusal
import Disclosure.Proofs.FileForm.Decoding
import Disclosure.Proofs.Json.Printed
import Disclosure.Proofs.Signal.Shape

/-! Circuits from declarations and circuits from descriptors.

A circuit is made from its declarations in text, or decoded from a descriptor that holds the same
texts and then validated. `Written` says which circuit the texts write and `Refusal` what is wrong
with them, neither by running anything, and `Decoding` what counts as decoding their descriptor. All
ways keep to these (`ofDeclarations_agrees`), and a build that is given a circuit which nobody has
validated does so itself. -/
namespace Disclosure
open Outcome (First)

namespace Declaration

/-- A text that writes no declaration. -/
def Malformed (source : String) : Prop :=
  ∀ d, ¬Writes source.toList d

/-- A claim is one number, so only a reserved name may be an array. -/
def IsArrayClaim (d : Declaration) : Prop :=
  d.arity ≠ 1 ∧ ∀ kind : Reserved, d.name ≠ kind.name

theorem isArrayClaim_iff (d : Declaration) : (!d.isScalar && !d.isReserved) = true ↔ d.IsArrayClaim := by
  rw [Bool.and_eq_true, Bool.not_eq_true', Bool.not_eq_true',
    isReserved_eq_false_iff, isScalar, beq_eq_false_iff_ne]
  rfl

theorem writes_unique {cs : List Char} {d d' : Declaration} (h : Writes cs d) (h' : Writes cs d') : d = d' :=
  Except.ok.inj ((read_of_writes h).symm.trans (read_of_writes h'))

theorem decoder_string_eq_ok_iff {source : String} {d : Declaration} :
    decoder (.string source) = .ok d ↔ Writes source.toList d :=
  Outcome.mapError_eq_ok_iff.trans read_eq_ok_iff

/-- A text is refused for one reason, wherever it is read. -/
theorem decoder_string_eq_error_iff {source : String} {e : DecodeFault} :
    decoder (.string source) = .error e ↔
      ∃ fault, parse source = .error (.invalidDeclaration source fault) ∧
        e = .declaration source fault := by
  show (read source.toList).mapError (DecodeFault.declaration source) = _ ↔ _
  unfold parse
  cases read source.toList with
  | ok d => exact ⟨nofun, nofun⟩
  | error fault =>
    constructor
    · intro h
      cases h
      exact ⟨fault, rfl, rfl⟩
    · rintro ⟨_, h, rfl⟩
      cases h
      rfl

end Declaration

namespace Circuit
open Declaration (Writes Malformed IsArrayClaim)

variable {name : String} {privates publics : List String} {c : Circuit}

/-! ### What the texts say -/

/-- The circuit whose declarations the texts write. -/
structure Written (name : String) (privates publics : List String) (c : Circuit) : Prop where
  name : c.name = name
  privates : List.Forall₂ (fun source d => Writes source.toList d) privates c.privateSignals
  publics : List.Forall₂ (fun source d => Writes source.toList d) publics c.publicSignals
  artifacts : c.artifacts = {}

/-- What is wrong with the texts: the first of them all that writes nothing or, where each writes a
declaration, the first private array of claims. -/
inductive Refusal (name : String) (privates publics : List String) : Error → Prop
  | malformed {source : String} {fault : DeclarationFault}
      (hfirst : First Malformed (privates ++ publics) source)
      (hfault : Declaration.parse source = .error (.invalidDeclaration source fault)) :
      Refusal name privates publics (.invalidDeclaration source fault)
  | array {c : Circuit} {d : Declaration} (hwritten : Written name privates publics c)
      (hfirst : First IsArrayClaim c.privateSignals d) : Refusal name privates publics (.arrayClaim d.text)

/-- The members of a descriptor. -/
def descriptor (name : String) (privates publics : List String) : List (String × Json) :=
  [("name", .string name),
   ("privateSignals", .array (privates.map .string)),
   ("publicSignals", .array (publics.map .string))]

/-- The text holds the descriptor and nothing else, with the members in any order. -/
def Describes (name : String) (privates publics : List String) (text : String) : Prop :=
  ∃ members, members.Perm (descriptor name privates publics) ∧
    Json.Document.ofText text.toList = ⟨.ofJson (.object members), false⟩

/-- The outcome of decoding the descriptor, from a text or from a value held in memory. -/
inductive Decoding (name : String) (privates publics : List String) : Except Error Circuit → Prop
  | text {text : String} (h : Describes name privates publics text) :
      Decoding name privates publics (Json.decodeText decoder text)
  | value {members : List (String × Json)} (h : members.Perm (descriptor name privates publics)) :
      Decoding name privates publics (Json.decodeValue decoder (.object members))

/-- What the ways to make a circuit owe each other. -/
structure Agrees (name : String) (privates publics : List String) : Prop where
  makes : ∀ c, ofDeclarations name privates publics = .ok c ↔
    Written name privates publics c ∧ ∀ d ∈ c.privateSignals, ¬d.IsArrayClaim
  refuses : ∀ e, ofDeclarations name privates publics = .error e ↔ Refusal name privates publics e
  fails : (∃ e, ofDeclarations name privates publics = .error e) ↔
    (∃ source ∈ privates ++ publics, Malformed source) ∨
    ∃ source ∈ privates, ∃ d, Writes source.toList d ∧ d.IsArrayClaim
  decodes : ∀ x, Decoding name privates publics x →
    ∀ c, ofDeclarations name privates publics = .ok c ↔ x = .ok c ∧ c.validate = .ok ()
  decodable : ∀ x, Decoding name privates publics x →
    ((∃ c, x = .ok c) ↔ ∀ source ∈ privates ++ publics, ¬Malformed source)
  loads : ∀ text, Describes name privates publics text →
    ∀ path content, String.fromUTF8? content = some text →
    ∀ c, ofDeclarations name privates publics = .ok c ↔ load path (.bytes content) = .ok c
  /-- There is a descriptor to decode. -/
  described : Describes name privates publics (Json.text (.object (descriptor name privates publics)))
  /-- With the private signals before the public ones, decoding stops at the same text. -/
  misreads : ∀ e,
    Json.decodeText decoder (Json.text (.object (descriptor name privates publics))) = .error e ↔
    ∃ source fault, First Malformed (privates ++ publics) source ∧
      Declaration.parse source = .error (.invalidDeclaration source fault) ∧
      e = .decoding .text (.declaration source fault)
  depth : ∀ c, Written name privates publics c → ∀ depth, c.declaredDepth? = some depth ↔
    ∃ source, First (fun source => ∃ n, Writes source.toList ⟨claimsProofName, n⟩) publics source ∧
      Writes source.toList ⟨claimsProofName, depth⟩
  /-- A decoded circuit with an array of claims is refused by a build as it is by making it. -/
  rejects : ∀ r : Request, Decoding name privates publics (.ok r.circuit) →
    ∀ d, First IsArrayClaim r.circuit.privateSignals d →
      ofDeclarations name privates publics = .error (.arrayClaim d.text) ∧
        r.build = ⟨.error (.arrayClaim d.text), []⟩
  /-- Without one, such a refusal can only be relayed. -/
  spares : ∀ r : Request, Decoding name privates publics (.ok r.circuit) →
    (∀ d ∈ r.circuit.privateSignals, ¬d.IsArrayClaim) →
    ∀ declaration, r.build.outcome = .error (.arrayClaim declaration) → r.Relays (.arrayClaim declaration)
  standard : ∀ r : Request, r.Standard → ∀ declaration, ¬r.Relays (.arrayClaim declaration)

/-! ### Validation -/

theorem validate_eq_ok_iff : c.validate = .ok () ↔ ∀ d ∈ c.privateSignals, ¬d.IsArrayClaim := by
  unfold validate
  cases hfind : c.privateSignals.find? fun d => !d.isScalar && !d.isReserved with
  | none =>
    rw [List.find?_eq_none] at hfind
    exact ⟨fun _ d hd harray => hfind d hd (d.isArrayClaim_iff.mpr harray), fun _ => rfl⟩
  | some d =>
    refine ⟨nofun, fun h => absurd (d.isArrayClaim_iff.mp ?_) (h d (List.mem_of_find?_eq_some hfind))⟩
    exact List.find?_some (p := fun d : Declaration => !d.isScalar && !d.isReserved) hfind

theorem validate_eq_error_iff {e : Error} :
    c.validate = .error e ↔ ∃ d, First IsArrayClaim c.privateSignals d ∧ e = .arrayClaim d.text := by
  simp only [← Outcome.find?_eq_some_iff_first Declaration.isArrayClaim_iff]
  unfold validate
  cases c.privateSignals.find? fun d => !d.isScalar && !d.isReserved with
  | none => exact ⟨nofun, nofun⟩
  | some d =>
    constructor
    · intro h
      cases h
      exact ⟨d, rfl, rfl⟩
    · rintro ⟨_, h, rfl⟩
      cases h
      rfl

theorem validated_eq_ok_iff {x : Except Error Circuit} :
    (do let c ← x; c.validate; .ok c : Except Error Circuit) = .ok c ↔
    x = .ok c ∧ c.validate = .ok () := by
  constructor
  · intro h
    obtain ⟨made, hmade, h⟩ := Outcome.bind_eq_ok_iff.mp h
    obtain ⟨_, hvalid, h⟩ := Outcome.bind_eq_ok_iff.mp h
    cases h
    exact ⟨hmade, hvalid⟩
  · rintro ⟨hmade, hvalid⟩
    exact Outcome.bind_eq_ok_iff.mpr ⟨c, hmade, Outcome.bind_eq_ok_iff.mpr ⟨_, hvalid, rfl⟩⟩

/-! ### Reading both lists -/

/-- The circuit of declarations that some reader takes, the private ones first. -/
def assembled {ε : Type} (read : String → Except ε Declaration)
    (name : String) (privates publics : List String) :
    Except ε Circuit := do
  let privates ← privates.mapM read
  let publics ← publics.mapM read
  .ok { name, privateSignals := privates, publicSignals := publics }

section Assembled
variable {ε : Type} {read : String → Except ε Declaration}

theorem assembled_eq_ok_iff (hread : ∀ source d, read source = .ok d ↔ Writes source.toList d) :
    assembled read name privates publics = .ok c ↔ Written name privates publics c := by
  unfold assembled
  simp only [Outcome.bind_eq_ok_iff, Outcome.mapM_eq_ok_iff, hread]
  constructor
  · rintro ⟨ds, hds, es, hes, h⟩
    cases h
    exact ⟨rfl, hds, hes, rfl⟩
  · rintro ⟨rfl, hprivates, hpublics, hartifacts⟩
    refine ⟨_, hprivates, _, hpublics, ?_⟩
    rw [← hartifacts]

theorem assembled_eq_error_iff
    (hread : ∀ source d, read source = .ok d ↔ Writes source.toList d) {e : ε} :
    assembled read name privates publics = .error e ↔
      ∃ source, First Malformed (privates ++ publics) source ∧ read source = .error e := by
  have hall : assembled read name privates publics = .error e ↔
      (privates ++ publics).mapM read = .error e := by
    rw [List.mapM_append]
    unfold assembled
    simp only [Outcome.bind_eq_error_iff]
    refine or_congr_right (exists_congr fun ds => and_congr_right fun _ => or_congr_right ?_)
    exact exists_congr fun es => and_congr_right fun _ => ⟨nofun, nofun⟩
  rw [hall, Outcome.mapM_eq_error_iff]
  simp only [ne_eq, hread]
  rfl

end Assembled

theorem ofDeclarations_eq (name : String) (privates publics : List String) :
    ofDeclarations name privates publics = (do
      let c ← assembled Declaration.parse name privates publics
      c.validate
      .ok c) := by
  unfold ofDeclarations assembled
  simp only [bind_assoc]
  rfl

theorem ofDeclarations_eq_ok_iff : ofDeclarations name privates publics = .ok c ↔
    Written name privates publics c ∧ c.validate = .ok () := by
  rw [ofDeclarations_eq, validated_eq_ok_iff, assembled_eq_ok_iff fun _ _ => Declaration.parse_eq_ok_iff]

theorem ofDeclarations_eq_error_iff {e : Error} :
    ofDeclarations name privates publics = .error e ↔ Refusal name privates publics e := by
  rw [ofDeclarations_eq, Outcome.bind_eq_error_iff,
    assembled_eq_error_iff fun _ _ => Declaration.parse_eq_ok_iff]
  simp only [assembled_eq_ok_iff fun _ _ => Declaration.parse_eq_ok_iff]
  constructor
  · rintro (⟨source, hfirst, he⟩ | ⟨made, hwritten, h⟩)
    · have hmalformed : Malformed source := by
        obtain ⟨_, _, _, hmalformed, _⟩ := hfirst
        exact hmalformed
      obtain ⟨fault, hfault⟩ := Declaration.exists_fault_of_parse hmalformed
      rw [hfault] at he
      cases he
      exact .malformed hfirst hfault
    · obtain hinvalid | ⟨_, _, h⟩ := Outcome.bind_eq_error_iff.mp h
      · obtain ⟨d, hfirst, rfl⟩ := validate_eq_error_iff.mp hinvalid
        exact .array hwritten hfirst
      · cases h
  · intro h
    cases h with
    | malformed hfirst hfault => exact .inl ⟨_, hfirst, hfault⟩
    | array hwritten hfirst =>
      exact .inr ⟨_, hwritten, Outcome.bind_eq_error_iff.mpr
        (.inl (validate_eq_error_iff.mpr ⟨_, hfirst, rfl⟩))⟩

theorem exists_written_iff :
    (∃ c, Written name privates publics c) ↔ ∀ source ∈ privates ++ publics, ¬Malformed source := by
  constructor
  · rintro ⟨c, hwritten⟩ source hsource hmalformed
    rcases List.mem_append.mp hsource with hsource | hsource
    · obtain ⟨d, _, hwrites⟩ := Outcome.exists_right hwritten.privates hsource
      exact hmalformed d hwrites
    · obtain ⟨d, _, hwrites⟩ := Outcome.exists_right hwritten.publics hsource
      exact hmalformed d hwrites
  · intro h
    have hread : ∀ source d, Declaration.parse source = .ok d ↔ Writes source.toList d :=
      fun _ _ => Declaration.parse_eq_ok_iff
    cases hmade : assembled Declaration.parse name privates publics with
    | ok c => exact ⟨c, (assembled_eq_ok_iff hread).mp hmade⟩
    | error e =>
      obtain ⟨source, hfirst, _⟩ := (assembled_eq_error_iff hread).mp hmade
      obtain ⟨source, hsource, hmalformed⟩ := Outcome.exists_first_iff.mp ⟨source, hfirst⟩
      exact absurd hmalformed (h source hsource)

/-- Something is wrong with the texts exactly when one writes nothing or a private one an array of
claims. -/
theorem exists_error_iff : (∃ e, ofDeclarations name privates publics = .error e) ↔
    (∃ source ∈ privates ++ publics, Malformed source) ∨
    ∃ source ∈ privates, ∃ d, Writes source.toList d ∧ d.IsArrayClaim := by
  constructor
  · rintro ⟨e, he⟩
    cases ofDeclarations_eq_error_iff.mp he with
    | malformed hfirst _ => exact .inl (Outcome.exists_first_iff.mp ⟨_, hfirst⟩)
    | array hwritten hfirst =>
      obtain ⟨d, hd, harray⟩ := Outcome.exists_first_iff.mp ⟨_, hfirst⟩
      obtain ⟨source, hsource, hwrites⟩ := Outcome.exists_left hwritten.privates hd
      exact .inr ⟨source, hsource, d, hwrites, harray⟩
  · intro h
    cases hmade : ofDeclarations name privates publics with
    | error e => exact ⟨e, rfl⟩
    | ok c =>
      obtain ⟨hwritten, hvalid⟩ := ofDeclarations_eq_ok_iff.mp hmade
      rcases h with ⟨source, hsource, hmalformed⟩ | ⟨source, hsource, d, hwrites, harray⟩
      · exact absurd hmalformed (exists_written_iff.mp ⟨c, hwritten⟩ source hsource)
      · obtain ⟨d', hd', hwrites'⟩ := Outcome.exists_right hwritten.privates hsource
        rw [← Declaration.writes_unique hwrites hwrites'] at hd'
        exact absurd harray (validate_eq_ok_iff.mp hvalid d hd')

/-! ### Decoding a descriptor -/

section Decoded
open Json (Node)
open Json.Decoder (list record readMembers readMembers_field_eq record_perm commutes_field)

theorem list_strings (sources : List String) :
    list Declaration.decoder (.ofJson (.array (sources.map .string))) =
      sources.mapM fun source => Declaration.decoder (.string source) := by
  rw [Node.ofJson, Node.ofItems_eq, List.map_map, list, List.mapM_map]
  exact bind_pure (sources.mapM fun source => Declaration.decoder (.string source))

/-- A descriptor is decoded as its texts are read, the private ones first. -/
theorem decoder_descriptor (name : String) (privates publics : List String) :
    decoder (.ofJson (.object (descriptor name privates publics))) =
      assembled (fun source => Declaration.decoder (.string source)) name privates publics := by
  unfold assembled
  simp only [← list_strings]
  unfold decoder descriptor
  simp only [Node.ofJson, Node.ofMembers, record]
  rw [readMembers_field_eq rfl (by decide)]
  show (readMembers _ none ["name"] (Draft.mk (some name) [] [] {}) _ >>= _) = _
  rw [readMembers_field_eq rfl (by decide), bind_assoc]
  refine bind_congr fun ds => ?_
  rw [readMembers_field_eq rfl (by decide), bind_assoc]
  exact bind_congr fun es => rfl

/-- The members of a descriptor may come in any order. -/
theorem decoder_perm {members others : List (String × Json)} (h : members.Perm others)
    (hread : decoder (.ofJson (.object members)) = .ok c) : decoder (.ofJson (.object others)) = .ok c := by
  have hnodes : (Node.ofMembers members).Perm (Node.ofMembers others) := by
    rw [Node.ofMembers_eq, Node.ofMembers_eq]
    exact h.map _
  refine record_perm (fun f hf g hg hne => ?_) hnodes hread
  simp only [List.mem_cons, List.not_mem_nil, or_false] at hf hg
  rcases hf with rfl | rfl | rfl | rfl <;> rcases hg with rfl | rfl | rfl | rfl <;>
    first
      | exact absurd rfl hne
      | exact commutes_field fun _ _ _ => rfl

theorem decoder_eq_ok_iff {members : List (String × Json)}
    (h : members.Perm (descriptor name privates publics)) :
    decoder (.ofJson (.object members)) = .ok c ↔ Written name privates publics c := by
  rw [← assembled_eq_ok_iff fun _ _ => Declaration.decoder_string_eq_ok_iff, ← decoder_descriptor]
  exact ⟨decoder_perm h, decoder_perm h.symm⟩

theorem decodeText_of_holds {text : String} {v : Json}
    (h : Json.Document.ofText text.toList = ⟨.ofJson v, false⟩) :
    Json.decodeText decoder text = (decoder (.ofJson v)).mapError (.decoding .text) := by
  rw [Json.decodeText, h, Json.Document.decode]
  exact congrArg _ (bind_pure (decoder (.ofJson v)))

theorem Decoding.eq_ok_iff {x : Except Error Circuit} (h : Decoding name privates publics x) :
    x = .ok c ↔ Written name privates publics c := by
  cases h with
  | text h =>
    obtain ⟨members, hperm, hholds⟩ := h
    rw [decodeText_of_holds hholds]
    exact Outcome.mapError_eq_ok_iff.trans (decoder_eq_ok_iff hperm)
  | value hperm => exact Outcome.mapError_eq_ok_iff.trans (decoder_eq_ok_iff hperm)

theorem ofText_text (name : String) (privates publics : List String) :
    Json.Document.ofText (Json.text (.object (descriptor name privates publics))).toList =
      ⟨.ofJson (.object (descriptor name privates publics)), false⟩ := by
  rw [Json.text, String.toList_ofList]
  refine Json.Document.ofText_chars ⟨by decide, trivial, ?_, ?_, trivial⟩
  · exact Json.within_array .string fun _ _ => trivial
  · exact Json.within_array .string fun _ _ => trivial

theorem decodeText_eq_error_iff {e : Error} :
    Json.decodeText decoder (Json.text (.object (descriptor name privates publics))) = .error e ↔
      ∃ source fault, First Malformed (privates ++ publics) source ∧
        Declaration.parse source = .error (.invalidDeclaration source fault) ∧
        e = .decoding .text (.declaration source fault) := by
  rw [decodeText_of_holds (ofText_text name privates publics),
    Outcome.mapError_eq_error_iff, decoder_descriptor]
  simp only [assembled_eq_error_iff fun _ _ => Declaration.decoder_string_eq_ok_iff,
    Declaration.decoder_string_eq_error_iff]
  constructor
  · rintro ⟨_, ⟨source, hfirst, fault, hfault, rfl⟩, rfl⟩
    exact ⟨source, fault, hfirst, hfault, rfl⟩
  · rintro ⟨source, fault, hfirst, hfault, rfl⟩
    exact ⟨_, ⟨source, hfirst, fault, hfault, rfl⟩, rfl⟩

end Decoded

/-! ### Loading a descriptor -/

theorem ofText_eq_ok_iff {text : String} (h : Describes name privates publics text) :
    ofText text = .ok c ↔ Written name privates publics c ∧ c.validate = .ok () :=
  validated_eq_ok_iff.trans (and_congr_left fun _ => (Decoding.text h).eq_ok_iff)

/-- No path of an artifact is written, so none is resolved. -/
theorem Written.resolved (h : Written name privates publics c) (base : FilePath) :
    { c with artifacts := c.artifacts.resolvedAgainst base } = c := by
  obtain ⟨_, _, _, artifacts⟩ := c
  obtain rfl : artifacts = {} := h.artifacts
  rfl

theorem load_eq_ok_iff {text : String} {path : FilePath} {content : ByteArray}
    (h : Describes name privates publics text) (hcontent : String.fromUTF8? content = some text) :
    load path (.bytes content) = .ok c ↔ Written name privates publics c ∧ c.validate = .ok () := by
  unfold load
  dsimp only
  rw [hcontent]
  dsimp only
  rw [Outcome.bind_eq_ok_iff]
  simp only [ofText_eq_ok_iff h]
  cases path.parent? with
  | none =>
    constructor
    · rintro ⟨_, hmade, h⟩
      cases h
      exact hmade
    · exact fun hmade => ⟨c, hmade, rfl⟩
  | some base =>
    constructor
    · rintro ⟨made, hmade, h⟩
      dsimp only at h
      rw [hmade.1.resolved base] at h
      cases h
      exact hmade
    · exact fun hmade => ⟨c, hmade, congrArg Except.ok (hmade.1.resolved base)⟩

/-! ### The declared depth -/

theorem declaredDepth?_eq_some_iff {depth : Nat} : c.declaredDepth? = some depth ↔
    First (·.name = claimsProofName) c.publicSignals ⟨claimsProofName, depth⟩ := by
  rw [declaredDepth?, Option.map_eq_some_iff]
  simp only [Outcome.find?_eq_some_iff_first fun d : Declaration => decide_eq_true_iff]
  constructor
  · rintro ⟨⟨name, arity⟩, hfirst, rfl⟩
    obtain rfl : name = claimsProofName := by
      obtain ⟨_, _, _, hname, _⟩ := hfirst
      exact hname
    exact hfirst
  · exact fun h => ⟨_, h, rfl⟩

theorem Written.declaredDepth?_eq_some_iff (h : Written name privates publics c) {depth : Nat} :
    c.declaredDepth? = some depth ↔
      ∃ source,
        First (fun source => ∃ n, Writes source.toList ⟨claimsProofName, n⟩) publics source ∧
        Writes source.toList ⟨claimsProofName, depth⟩ := by
  have hname : ∀ (source : String) (d : Declaration), Writes source.toList d →
      ((∃ n, Writes source.toList ⟨claimsProofName, n⟩) ↔ d.name = claimsProofName) := by
    intro source d hwrites
    constructor
    · rintro ⟨n, hn⟩
      rw [Declaration.writes_unique hwrites hn]
    · intro hd
      rw [← hd]
      exact ⟨d.arity, hwrites⟩
  rw [Circuit.declaredDepth?_eq_some_iff]
  constructor
  · exact Outcome.exists_first_left h.publics hname
  · rintro ⟨source, hfirst, hwrites⟩
    obtain ⟨d, hd, hwrites'⟩ := Outcome.exists_first_right h.publics hname hfirst
    rwa [Declaration.writes_unique hwrites hwrites']

/-! ### Agreement -/

/-- **A circuit is made from declarations exactly as it is from their descriptor**, and a build
refuses the same decoded circuits with the same error. -/
theorem ofDeclarations_agrees (name : String) (privates publics : List String) :
    Agrees name privates publics where
  makes _ := ofDeclarations_eq_ok_iff.trans (and_congr_right fun _ => validate_eq_ok_iff)
  refuses _ := ofDeclarations_eq_error_iff
  fails := exists_error_iff
  decodes _ hx _ := ofDeclarations_eq_ok_iff.trans (and_congr_left fun _ => hx.eq_ok_iff.symm)
  decodable _ hx := (exists_congr fun _ => hx.eq_ok_iff).trans exists_written_iff
  loads _ h _ _ hcontent _ := ofDeclarations_eq_ok_iff.trans (load_eq_ok_iff h hcontent).symm
  described := ⟨_, .refl _, ofText_text name privates publics⟩
  misreads _ := decodeText_eq_error_iff
  depth _ h _ := h.declaredDepth?_eq_some_iff
  rejects r hr d hfirst := by
    have hinvalid : r.circuit.validate = .error (.arrayClaim d.text) :=
      validate_eq_error_iff.mpr ⟨d, hfirst, rfl⟩
    exact ⟨ofDeclarations_eq_error_iff.mpr (.array (hr.eq_ok_iff.mp rfl) hfirst),
      Request.build_of_invalid hinvalid⟩
  spares r _ hnone declaration h := by
    refine (Request.invalid_of_build h).resolve_left fun hinvalid => ?_
    rw [validate_eq_ok_iff.mpr hnone] at hinvalid
    cases hinvalid
  standard _ hr declaration := Request.not_relays_of_standard hr declaration

/-- A private array of a reserved name, and then an array of claims. -/
def arrayPrivates : List String :=
  ["trusteePublicKeys[4]", "birthYear", "tags[03]"]

def arrayCircuit : Circuit where
  name := "age"
  privateSignals := [⟨"trusteePublicKeys", 4⟩, ⟨"birthYear", 1⟩, ⟨"tags", 3⟩]
  publicSignals := [⟨"claimsProof", 8⟩]

/-- It is decoded, and the same declaration is named where it is made and where it is built with. -/
theorem arrayCircuit_agrees :
    Json.decodeText decoder (Json.text (.object (descriptor "age" arrayPrivates ["claimsProof[8]"]))) =
      .ok arrayCircuit ∧
    ofDeclarations "age" arrayPrivates ["claimsProof[8]"] = .error (.arrayClaim "tags[3]") ∧
    ∀ r : Request, r.circuit = arrayCircuit → r.build = ⟨.error (.arrayClaim "tags[3]"), []⟩ := by
  have hagrees := ofDeclarations_agrees "age" arrayPrivates ["claimsProof[8]"]
  have hdecode : Json.decodeText decoder
      (Json.text (.object (descriptor "age" arrayPrivates ["claimsProof[8]"]))) =
      .ok arrayCircuit := by decide +kernel
  have hdecoding : Decoding "age" arrayPrivates ["claimsProof[8]"] (.ok arrayCircuit) :=
    hdecode ▸ .text hagrees.described
  have hfirst : First IsArrayClaim arrayCircuit.privateSignals ⟨"tags", 3⟩ :=
    (Outcome.find?_eq_some_iff_first Declaration.isArrayClaim_iff).mp (by decide)
  refine ⟨hdecode, (hagrees.refuses _).mpr (.array (hdecoding.eq_ok_iff.mp rfl) hfirst), ?_⟩
  intro r hr
  rw [← hr] at hdecoding hfirst
  exact (hagrees.rejects r hdecoding _ hfirst).2

end Circuit
end Disclosure
