import Disclosure.Circuit
import Disclosure.Credential
import Disclosure.Policy
import Disclosure.Trustee
import Disclosure.Proofs.Bytes.Hex
import Disclosure.Proofs.Json.Record
import Disclosure.Proofs.Signal.Grammar

/-! Decoding the value that a record is written as.

Every record is decoded from its own value (the `decoder_toJson` of each), provided that the
declarations in it are well formed and its paths have texts, as they do in any record that was
decoded; a path without a text is refused. The value holds whole numbers only and nests no deeper
than the record does (`within_toJson`); a credential's subject is left to say so for itself. -/
namespace Disclosure
open Json (Node)
open Json.Decoder
  (list list_ofJson exists_of_list record_object record_keeps readMembers_field read_field_eq_ok_iff)

/-! ### Lists -/

theorem Json.within_array {α : Type} (write : α → Json) {as : List α} {P : Number → Prop} {depth : Nat}
    (h : ∀ a ∈ as, (Node.ofJson (write a)).Within P depth) :
    (Node.ofJson (.array (as.map write))).Within P (depth + 1) := by
  refine ⟨Nat.succ_pos depth, Node.itemsWithin_iff.mpr fun node hnode => ?_⟩
  rw [Node.ofItems_eq, List.map_map] at hnode
  obtain ⟨a, ha, rfl⟩ := List.mem_map.mp hnode
  exact h a ha

/-! ### Declarations -/

namespace Declaration

theorem decoder_toJson {d : Declaration} (h : d.WellFormed) : decoder (.ofJson d.toJson) = .ok d :=
  Outcome.mapError_eq_ok_iff.mpr (read_text h)

theorem wellFormed_of_decoder {node : Node} {d : Declaration} (h : decoder node = .ok d) : d.WellFormed := by
  obtain ⟨source, _, h⟩ := Outcome.bind_eq_ok_iff.mp h
  exact wellFormed_of_read (Outcome.mapError_eq_ok_iff.mp h)

end Declaration

/-! ### Paths -/

namespace FilePath

/-- The bytes of the path are the UTF-8 of a text. -/
def IsText (path : FilePath) : Prop :=
  ∃ text : String, path.bytes = text.toUTF8.data.toList

theorem text?_ofText (text : String) : (ofText text).text? = some text := by
  have hbytes : (ofText text).bytes.toByteArray = text.toUTF8 := by
    apply ByteArray.ext
    rw [List.data_toByteArray, ofText, Array.toArray_toList]
  rw [text?, hbytes, String.toUTF8_eq_toByteArray, String.fromUTF8?, dif_pos text.isValidUTF8]
  rfl

theorem isText_of_text? {path : FilePath} {text : String} (h : path.text? = some text) : path.IsText := by
  unfold text? String.fromUTF8? at h
  split at h
  · rename_i hvalid
    refine ⟨String.fromUTF8 path.bytes.toByteArray hvalid, ?_⟩
    exact List.toList_data_toByteArray.symm
  · cases h

theorem toJson_ofText (text : String) : (ofText text).toJson = .ok (.string text) := by
  rw [toJson, text?_ofText]

theorem toJson_of_not_isText {path : FilePath} (h : ¬path.IsText) :
    path.toJson = .error (.encoding .pathNotText) := by
  unfold toJson
  cases htext : path.text? with
  | none => rfl
  | some text => exact absurd (isText_of_text? htext) h

/-- A path that may be absent is written if it is the path of a text. -/
theorem mapM_toJson_of_isText {path : Option FilePath} (h : ∀ p ∈ path, p.IsText) :
    ∃ text : Option String, path = text.map ofText ∧ path.mapM toJson = .ok (text.map .string) := by
  cases path with
  | none => exact ⟨none, rfl, rfl⟩
  | some path =>
    obtain ⟨text, hbytes⟩ := h path rfl
    obtain rfl : path = ofText text := congrArg mk hbytes
    refine ⟨some text, rfl, ?_⟩
    rw [Option.mapM_some, toJson_ofText]
    rfl

/-- A path without a text stops the writing, whatever would have come next. -/
theorem mapM_toJson_bind_eq_error {path : Option FilePath} {next : Option Json → Except Error Json}
    (h : (∀ p ∈ path, p.IsText) → ∀ value, next value = .error (.encoding .pathNotText)) :
    path.mapM toJson >>= next = .error (.encoding .pathNotText) := by
  by_cases hpath : ∀ p ∈ path, p.IsText
  · obtain ⟨text, _, hwritten⟩ := mapM_toJson_of_isText hpath
    rw [hwritten]
    exact h hpath _
  · cases path with
    | none => exact absurd nofun hpath
    | some path =>
      have hstray : ¬path.IsText := fun htext => hpath fun p hp => Option.some.inj hp ▸ htext
      rw [Option.mapM_some, toJson_of_not_isText hstray]
      rfl

theorem isText_of_optionalDecoder {node : Node}
    {found : Option FilePath} (h : optionalDecoder node = .ok found) :
    ∀ path ∈ found, path.IsText := by
  obtain ⟨text, _, h⟩ := Outcome.bind_eq_ok_iff.mp h
  cases h
  intro path hpath
  obtain ⟨text, _, rfl⟩ := Option.map_eq_some_iff.mp hpath
  exact ⟨text, rfl⟩

end FilePath

/-! ### Circuits -/

namespace Artifacts

/-- Every path has a text. -/
structure Textual (a : Artifacts) : Prop where
  wasm : ∀ path ∈ a.wasmPath, path.IsText
  r1cs : ∀ path ∈ a.r1csPath, path.IsText
  zkey : ∀ path ∈ a.zkeyPath, path.IsText
  vkey : ∀ path ∈ a.vkeyPath, path.IsText

/-- A path that is absent is not written, and is the default of a path that is not read. -/
theorem toJson_of_textual {a : Artifacts} (h : a.Textual) : ∃ value, a.toJson = .ok value ∧
    decoder (.ofJson value) = .ok a ∧ ∀ P depth, (Node.ofJson value).Within P (depth + 1) := by
  obtain ⟨wasmPath, r1csPath, zkeyPath, vkeyPath⟩ := a
  obtain ⟨wasm, rfl, hwasm⟩ := FilePath.mapM_toJson_of_isText h.wasm
  obtain ⟨r1cs, rfl, hr1cs⟩ := FilePath.mapM_toJson_of_isText h.r1cs
  obtain ⟨zkey, rfl, hzkey⟩ := FilePath.mapM_toJson_of_isText h.zkey
  obtain ⟨vkey, rfl, hvkey⟩ := FilePath.mapM_toJson_of_isText h.vkey
  unfold toJson
  simp only [hwasm, hr1cs, hzkey, hvkey]
  refine ⟨_, rfl, ?_, fun P depth =>
    ⟨Nat.succ_pos depth, Node.membersWithin_ofMembers_iff.mpr fun m hm => ?_⟩⟩
  · cases wasm <;> cases r1cs <;> cases zkey <;> cases vkey <;> rfl
  · simp only [List.mem_append, Option.mem_toList, Option.map_eq_some_iff] at hm
    obtain ((h | h) | h) | h := hm <;>
      · obtain ⟨_, ⟨_, _, rfl⟩, rfl⟩ := h
        trivial

/-- Artifacts with a path that has no text are not written. -/
theorem toJson_of_not_textual {a : Artifacts} (h : ¬a.Textual) :
    a.toJson = .error (.encoding .pathNotText) :=
  FilePath.mapM_toJson_bind_eq_error fun hwasm _ =>
    FilePath.mapM_toJson_bind_eq_error fun hr1cs _ =>
      FilePath.mapM_toJson_bind_eq_error fun hzkey _ =>
        FilePath.mapM_toJson_bind_eq_error fun hvkey _ => absurd ⟨hwasm, hr1cs, hzkey, hvkey⟩ h

theorem textual_empty : Textual {} :=
  ⟨by rintro path ⟨⟩, by rintro path ⟨⟩, by rintro path ⟨⟩, by rintro path ⟨⟩⟩

theorem textual_of_decoder {node : Node} {a : Artifacts} (h : decoder node = .ok a) : a.Textual := by
  refine Exists.elim (record_keeps (I := Textual) textual_empty ?fields h) ?made
  case fields =>
    intro f hf part _ draft made hdraft hmade
    simp only [List.mem_cons, List.not_mem_nil, or_false] at hf
    rcases hf with rfl | rfl | rfl | rfl <;> obtain ⟨found, hfound, rfl⟩ := read_field_eq_ok_iff.mp hmade
    · exact { hdraft with wasm := FilePath.isText_of_optionalDecoder hfound }
    · exact { hdraft with r1cs := FilePath.isText_of_optionalDecoder hfound }
    · exact { hdraft with zkey := FilePath.isText_of_optionalDecoder hfound }
    · exact { hdraft with vkey := FilePath.isText_of_optionalDecoder hfound }
  case made =>
    rintro missing ⟨draft, hdraft, hfinish⟩
    cases hfinish
    exact hdraft

end Artifacts

namespace Circuit

/-- Every declaration is well formed, and every path has a text. -/
structure WellFormed (c : Circuit) : Prop where
  declarations : ∀ d ∈ c.privateSignals ++ c.publicSignals, d.WellFormed
  artifacts : c.artifacts.Textual

structure Draft.WellFormed (draft : Draft) : Prop where
  privates : ∀ d ∈ draft.privateSignals, d.WellFormed
  publics : ∀ d ∈ draft.publicSignals, d.WellFormed
  artifacts : draft.artifacts.Textual

theorem toJson_of_wellFormed {c : Circuit} (h : c.WellFormed) : ∃ value, c.toJson = .ok value ∧
    decoder (.ofJson value) = .ok c ∧ ∀ P depth, (Node.ofJson value).Within P (depth + 2) := by
  obtain ⟨artifacts, hartifacts, hdecode, hwithin⟩ := Artifacts.toJson_of_textual h.artifacts
  have hprivate := list_ofJson Declaration.toJson fun d hd =>
    Declaration.decoder_toJson (h.declarations d (List.mem_append_left c.publicSignals hd))
  have hpublic := list_ofJson Declaration.toJson fun d hd =>
    Declaration.decoder_toJson (h.declarations d (List.mem_append_right c.privateSignals hd))
  unfold toJson
  rw [hartifacts]
  refine ⟨_, rfl, ?decoded, fun P depth => ?fits⟩
  case decoded =>
    exact record_object
      (readMembers_field rfl (by decide) rfl <|
        readMembers_field rfl (by decide) hprivate <|
        readMembers_field rfl (by decide) hpublic <|
        readMembers_field rfl (by decide) hdecode rfl)
      rfl
  case fits =>
    exact ⟨Nat.succ_pos _, trivial, Json.within_array Declaration.toJson fun _ _ => trivial,
      Json.within_array Declaration.toJson fun _ _ => trivial, hwithin P depth, trivial⟩

theorem toJson_of_not_textual {c : Circuit} (h : ¬c.artifacts.Textual) :
    c.toJson = .error (.encoding .pathNotText) := by
  rw [toJson, Artifacts.toJson_of_not_textual h]
  rfl

/-- **A circuit that was decoded is well formed**, as no field of it takes another declaration
or a path that has no text. -/
theorem wellFormed_of_decoder {node : Node} {c : Circuit} (h : decoder node = .ok c) : c.WellFormed := by
  have hlist : ∀ {node ds}, list Declaration.decoder node = .ok ds → ∀ d ∈ ds, d.WellFormed := by
    intro node ds hds d hd
    obtain ⟨item, hitem⟩ := exists_of_list hds d hd
    exact Declaration.wellFormed_of_decoder hitem
  have hempty : Draft.WellFormed {} := ⟨by rintro d ⟨⟩, by rintro d ⟨⟩, Artifacts.textual_empty⟩
  refine Exists.elim (record_keeps (I := Draft.WellFormed) hempty ?fields h) ?made
  case fields =>
    intro f hf part _ draft made hdraft hmade
    simp only [List.mem_cons, List.not_mem_nil, or_false] at hf
    rcases hf with rfl | rfl | rfl | rfl <;> obtain ⟨a, ha, rfl⟩ := read_field_eq_ok_iff.mp hmade
    · exact ⟨hdraft.privates, hdraft.publics, hdraft.artifacts⟩
    · exact { hdraft with privates := hlist ha }
    · exact { hdraft with publics := hlist ha }
    · exact { hdraft with artifacts := Artifacts.textual_of_decoder ha }
  case made =>
    rintro missing ⟨draft, hdraft, hfinish⟩
    obtain ⟨name, _, hc⟩ := Outcome.bind_eq_ok_iff.mp hfinish
    cases hc
    exact ⟨List.forall_mem_append.mpr ⟨hdraft.privates, hdraft.publics⟩, hdraft.artifacts⟩

end Circuit

/-! ### Policies -/

theorem hexText_ofJson (bytes : Bytes) : hexText (.ofJson (.string (Hex.encode bytes))) = .ok bytes := by
  rw [hexText, Node.ofJson, Json.Decoder.string, Outcome.ok_bind, Hex.stripped_encode, Hex.decode_encode]
  rfl

theorem uint32_ofJson (n : UInt32) :
    Json.Decoder.uint32 (.ofJson (.number (.natural n.toUInt64))) = .ok n := by
  have hlt : n.toUInt64.toNat < UInt32.size := by
    rw [UInt32.toNat_toUInt64]
    exact n.toNat_lt
  rw [Node.ofJson, Json.Decoder.uint32, if_pos hlt, UInt32.toUInt32_toUInt64]

namespace Rule

theorem decoder_toJson (r : Rule) : decoder (.ofJson r.toJson) = .ok r :=
  record_object
    (readMembers_field rfl (by decide) (uint32_ofJson r.index) <|
      readMembers_field rfl (by decide) rfl <|
      readMembers_field rfl (by decide) rfl <|
      readMembers_field rfl (by decide) (hexText_ofJson r.value) rfl)
    rfl

theorem within_toJson (r : Rule) (depth : Nat) : (Node.ofJson r.toJson).Within Number.Whole (depth + 1) :=
  ⟨Nat.succ_pos depth, trivial, trivial, trivial, trivial, trivial⟩

end Rule

namespace Policy

theorem decoder_toJson (p : Policy) : decoder (.ofJson p.toJson) = .ok p :=
  have hrules := list_ofJson Rule.toJson fun r (_ : r ∈ p.rules) => r.decoder_toJson
  record_object
    (readMembers_field rfl (by decide) rfl <|
      readMembers_field rfl (by decide) rfl <|
      readMembers_field rfl (by decide) hrules rfl)
    rfl

theorem within_toJson (p : Policy) (depth : Nat) : (Node.ofJson p.toJson).Within Number.Whole (depth + 3) :=
  ⟨Nat.succ_pos _, trivial, trivial,
    Json.within_array Rule.toJson fun r _ => r.within_toJson depth, trivial⟩

end Policy

/-! ### Trustees -/

namespace WideNumber

theorem ofDigits_digits (n : Nat) : ofDigits (digits n) = n := by
  induction n using digits.induct with
  | case1 =>
    rw [digits]
    rfl
  | case2 n hn ih =>
    have hdigit : (UInt32.ofNat n).toNat = n % UInt32.size := UInt32.toNat_ofNat'
    rw [digits, if_neg hn, ofDigits, ih, hdigit, Nat.mod_add_div]

theorem decoder_toJson (n : Nat) : decoder (.ofJson (toJson n)) = .ok n := by
  have hdigits := list_ofJson (fun d : UInt32 => .number (.natural d.toUInt64))
    fun d (_ : d ∈ digits n) => uint32_ofJson d
  rw [decoder, toJson, hdigits]
  exact congrArg Except.ok (ofDigits_digits n)

theorem within_toJson (n depth : Nat) : (Node.ofJson (toJson n)).Within Number.Whole (depth + 1) :=
  Json.within_array _ fun _ _ => trivial

end WideNumber

namespace TrusteeKey

theorem decoder_toJson (key : TrusteeKey) : decoder (.ofJson key.toJson) = .ok key := by
  have hpair : Json.Decoder.pair WideNumber.decoder WideNumber.decoder
      (.ofJson key.toJson) = .ok (key.x, key.y) := by
    rw [toJson, Node.ofJson, Node.ofItems, Node.ofItems, Node.ofItems, Json.Decoder.pair]
    dsimp only
    rw [WideNumber.decoder_toJson, WideNumber.decoder_toJson]
    rfl
  rw [decoder, hpair]
  rfl

theorem within_toJson (key : TrusteeKey) (depth : Nat) :
    (Node.ofJson key.toJson).Within Number.Whole (depth + 2) :=
  ⟨Nat.succ_pos _, WideNumber.within_toJson key.x depth, WideNumber.within_toJson key.y depth, trivial⟩

end TrusteeKey

namespace Trustee

theorem decoder_toJson (t : Trustee) : decoder (.ofJson t.toJson) = .ok t :=
  record_object
    (readMembers_field rfl (by decide) rfl <|
      readMembers_field rfl (by decide) t.publicKey.decoder_toJson rfl)
    rfl

theorem within_toJson (t : Trustee) (depth : Nat) : (Node.ofJson t.toJson).Within Number.Whole (depth + 3) :=
  ⟨Nat.succ_pos _, trivial, t.publicKey.within_toJson depth, trivial⟩

end Trustee

/-! ### Credentials -/

namespace IssuerProof

theorem decoder_toJson (p : IssuerProof) : decoder (.ofJson p.toJson) = .ok p := rfl

theorem within_toJson (p : IssuerProof) (P : Number → Prop) (depth : Nat) :
    (Node.ofJson p.toJson).Within P (depth + 1) :=
  ⟨Nat.succ_pos depth, trivial, trivial, trivial⟩

end IssuerProof

namespace Credential

theorem decoder_toJson (c : Credential) : decoder (.ofJson c.toJson) = .ok c :=
  record_object
    (readMembers_field rfl (by decide) rfl <|
      readMembers_field rfl (by decide) rfl <|
      readMembers_field rfl (by decide) (Json.Decoder.object_ofJson c.subject) <|
      readMembers_field rfl (by decide) c.proof.decoder_toJson rfl)
    rfl

theorem within_toJson {c : Credential} {P : Number → Prop} {depth : Nat}
    (h : (Node.ofJson (.object c.subject.members)).Within P depth) :
    (Node.ofJson c.toJson).Within P (depth + 1) := by
  obtain ⟨less, rfl⟩ : ∃ less, depth = less + 1 := ⟨depth - 1, (Nat.sub_add_cancel h.1).symm⟩
  exact ⟨Nat.succ_pos _, trivial, trivial, h, c.proof.within_toJson P less, trivial⟩

/-- The subject that is read, if any was, keeps to the limits. -/
def Draft.Within (P : Number → Prop) (depth : Nat) (draft : Draft) : Prop :=
  ∀ subject ∈ draft.subject, (Node.ofJson (.object subject.members)).Within P depth

/-- **A decoded subject nests one level less than its document.** -/
theorem within_of_decoder {P : Number → Prop} {depth : Nat}
    {node : Node} {c : Credential} (h : decoder node = .ok c)
    (hnode : node.Within P depth) : (Node.ofJson (.object c.subject.members)).Within P (depth - 1) := by
  refine Exists.elim (record_keeps (I := Draft.Within P (depth - 1)) (by rintro _ ⟨⟩) ?fields h) ?made
  case fields =>
    intro f hf part hpart draft made hdraft hmade
    simp only [List.mem_cons, List.not_mem_nil, or_false] at hf
    rcases hf with rfl | rfl | rfl | rfl <;> obtain ⟨a, ha, rfl⟩ := read_field_eq_ok_iff.mp hmade
    · exact hdraft
    · exact hdraft
    · rintro subject ⟨⟩
      exact Node.within_of_value part (Json.Decoder.value_of_object ha) (hnode.part hpart)
    · exact hdraft
  case made =>
    rintro missing ⟨draft, hdraft, hfinish⟩
    obtain ⟨subject, hsubject, hfinish⟩ := Outcome.bind_eq_ok_iff.mp hfinish
    obtain ⟨proof, _, hc⟩ := Outcome.bind_eq_ok_iff.mp hfinish
    cases hc
    cases hsome : draft.subject with
    | none =>
      rw [hsome] at hsubject
      cases hsubject
    | some found =>
      rw [hsome] at hsubject
      cases hsubject
      exact hdraft subject hsome

end Credential

end Disclosure
