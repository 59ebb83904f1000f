import Disclosure.Proofs.FileForm.Decoding
import Disclosure.Proofs.Json.Printed

/-! Records survive their file form.

A text can write a record in many ways: as an array, with members in any order or unknown,
with defaults left out, with prefixes and capitals in hexadecimal, zeros before an arity and
above a number. A record is written in one way only, or not at all when it holds a path that is
no text. What is written is read as the very record, so reading and writing a text once settles
it (`records_survive`). Each form owes two facts for that (`FileForm.Lawful`); only doubles are
left out, as rounding them is another matter. -/
namespace Disclosure
open Json (Node)

/-- How a kind of record is decoded, and which value it is written as or why it is not. -/
structure FileForm (α : Type) where
  decoder : Json.Decoder α
  toJson : α → Except Error Json

namespace FileForm
variable {α : Type} {form : FileForm α} {Kept Valid : α → Prop}

/-- A form that writes every record. -/
def total (decoder : Json.Decoder α) (toJson : α → Json) : FileForm α :=
  ⟨decoder, fun a => .ok (toJson a)⟩

def read (form : FileForm α) (text : String) : Except Error α :=
  Json.decodeText form.decoder text

def write (form : FileForm α) (a : α) : Except Error String :=
  (form.toJson a).map Json.text

/-- A text that is read and written again. -/
def rewrite (form : FileForm α) (text : String) : Except Error String :=
  form.read text >>= form.write

/-- The record is written, and what is written is read as the record. -/
def Recovers (form : FileForm α) (a : α) : Prop :=
  ∃ written, form.write a = .ok written ∧ form.read written = .ok a

/-- What was read and is to be kept survives being written, and so does what is valid. -/
structure Survives (form : FileForm α) (Kept Valid : α → Prop) : Prop where
  again : ∀ text a, form.read text = .ok a → Kept a → form.Recovers a
  idempotent : ∀ text written, form.rewrite text = .ok written →
    (∀ a, form.read text = .ok a → Kept a) → form.rewrite written = .ok written
  recovered : ∀ a, Valid a → form.Recovers a

/-- What a form owes: it decodes valid records only, and writes those as values that fit a
document and that it decodes. -/
structure Lawful (form : FileForm α) (Kept Valid : α → Prop) : Prop where
  valid : ∀ node a, node.Within Number.InRange Json.Reader.maxDepth →
    form.decoder node = .ok a → Kept a → Valid a
  writes : ∀ a, Valid a → ∃ value, form.toJson a = .ok value ∧
    form.decoder (.ofJson value) = .ok a ∧
    (Node.ofJson value).Within Number.Whole Json.Reader.maxDepth

theorem Lawful.recovers (h : form.Lawful Kept Valid) {a : α} (ha : Valid a) : form.Recovers a := by
  obtain ⟨value, hvalue, hdecode, hfits⟩ := h.writes a ha
  refine ⟨value.text, ?_, ?_⟩
  · rw [write, hvalue]
    rfl
  · rw [read, Json.decodeText, Json.text, String.toList_ofList, Json.Document.ofText_chars hfits,
      Json.Document.decode, hdecode]
    rfl

/-- A record that is read is decoded from a node that keeps to the limits of the reader. -/
theorem exists_of_read {text : String} {a : α} (h : form.read text = .ok a) :
    ∃ node : Node, node.Within Number.InRange Json.Reader.maxDepth ∧ form.decoder node = .ok a := by
  obtain ⟨a', ha, hdecode⟩ := Outcome.bind_eq_ok_iff.mp (Outcome.mapError_eq_ok_iff.mp h)
  split at hdecode
  · cases hdecode
  · cases hdecode
    exact ⟨_, Json.Document.within_ofText text.toList, ha⟩

theorem Lawful.survives (h : form.Lawful Kept Valid) : form.Survives Kept Valid := by
  have hagain : ∀ text a, form.read text = .ok a → Kept a → form.Recovers a := by
    intro text a hread hkept
    obtain ⟨node, hnode, ha⟩ := exists_of_read hread
    exact h.recovers (h.valid node a hnode ha hkept)
  refine ⟨hagain, fun text written hrewrite hkept => ?_, fun a => h.recovers⟩
  obtain ⟨a, hread, hwrite⟩ := Outcome.bind_eq_ok_iff.mp hrewrite
  obtain ⟨written', hwrite', hread'⟩ := hagain text a hread (hkept a hread)
  obtain rfl : written' = written := Except.ok.inj (hwrite'.symm.trans hwrite)
  exact Outcome.bind_eq_ok_iff.mpr ⟨a, hread', hwrite⟩

theorem write_of_toJson {a : α} {e : Error} (h : form.toJson a = .error e) : form.write a = .error e := by
  rw [write, h]
  rfl

/-- A record that is not written is not recovered. -/
theorem not_recovers_of_write {a : α} {e : Error} (h : form.write a = .error e) : ¬form.Recovers a := by
  rintro ⟨written, hwritten, _⟩
  rw [h] at hwritten
  cases hwritten

end FileForm

/-! ### The forms -/

/-- Any record of a kind. -/
abbrev Any {α : Type} : α → Prop :=
  fun _ => True

namespace Declaration

def form : FileForm Declaration :=
  .total decoder toJson

theorem form_lawful : form.Lawful Any WellFormed where
  valid _ _ _ h _ := wellFormed_of_decoder h
  writes _ h := ⟨_, rfl, decoder_toJson h, trivial⟩

end Declaration

namespace Artifacts

def form : FileForm Artifacts :=
  ⟨decoder, toJson⟩

theorem form_lawful : form.Lawful Any Textual where
  valid _ _ _ h _ := textual_of_decoder h
  writes _ h := by
    obtain ⟨value, hvalue, hdecode, hwithin⟩ := toJson_of_textual h
    exact ⟨value, hvalue, hdecode, hwithin _ _⟩

end Artifacts

namespace Circuit

def form : FileForm Circuit :=
  ⟨decoder, toJson⟩

theorem form_lawful : form.Lawful Any WellFormed where
  valid _ _ _ h _ := wellFormed_of_decoder h
  writes _ h := by
    obtain ⟨value, hvalue, hdecode, hwithin⟩ := toJson_of_wellFormed h
    exact ⟨value, hvalue, hdecode, hwithin _ _⟩

end Circuit

namespace Rule

def form : FileForm Rule :=
  .total decoder toJson

theorem form_lawful : form.Lawful Any Any where
  valid _ _ _ _ _ := trivial
  writes r _ := ⟨_, rfl, r.decoder_toJson, r.within_toJson _⟩

end Rule

namespace Policy

def form : FileForm Policy :=
  .total decoder toJson

theorem form_lawful : form.Lawful Any Any where
  valid _ _ _ _ _ := trivial
  writes p _ := ⟨_, rfl, p.decoder_toJson, p.within_toJson _⟩

end Policy

namespace TrusteeKey

def form : FileForm TrusteeKey :=
  .total decoder toJson

theorem form_lawful : form.Lawful Any Any where
  valid _ _ _ _ _ := trivial
  writes key _ := ⟨_, rfl, key.decoder_toJson, key.within_toJson _⟩

end TrusteeKey

namespace Trustee

def form : FileForm Trustee :=
  .total decoder toJson

theorem form_lawful : form.Lawful Any Any where
  valid _ _ _ _ _ := trivial
  writes t _ := ⟨_, rfl, t.decoder_toJson, t.within_toJson _⟩

end Trustee

namespace IssuerProof

def form : FileForm IssuerProof :=
  .total decoder toJson

theorem form_lawful : form.Lawful Any Any where
  valid _ _ _ _ _ := trivial
  writes p _ := ⟨_, rfl, p.decoder_toJson, p.within_toJson _ _⟩

end IssuerProof

namespace Credential

def form : FileForm Credential :=
  .total decoder toJson

/-- No number of the subject is a double. -/
def DoubleFree (c : Credential) : Prop :=
  ∀ place x, (Json.object c.subject.members).valueAt? place ≠ some (.number (.double x))

/-- The subject's numbers are whole, and a document holds it as a member. -/
def Fits (c : Credential) : Prop :=
  (Node.ofJson (.object c.subject.members)).Within Number.Whole (Json.Reader.maxDepth - 1)

theorem form_lawful : form.Lawful DoubleFree Fits where
  valid node c hnode h hfree := by
    have hordered : (Json.object c.subject.members).Ordered := c.subject.ordered
    refine Json.whole_of_doubleFree _ (within_of_decoder h hnode) fun leaf hleaf x hx => ?_
    exact hfree leaf.1 x (hx ▸ ((Json.mem_leaves hordered).mp hleaf).1)
  writes c h := ⟨_, rfl, c.decoder_toJson, within_toJson h⟩

end Credential

/-- Every kind of record survives, a credential as far as its subject is free of doubles. Only
artifacts with a path that has no text, and circuits with such artifacts, are not written. -/
structure RecordsSurvive : Prop where
  circuit : Circuit.form.Survives Any Circuit.WellFormed
  circuitRefused : ∀ c : Circuit, ¬c.artifacts.Textual →
    Circuit.form.write c = .error (.encoding .pathNotText)
  artifacts : Artifacts.form.Survives Any Artifacts.Textual
  artifactsRefused : ∀ a : Artifacts, ¬a.Textual →
    Artifacts.form.write a = .error (.encoding .pathNotText)
  declaration : Declaration.form.Survives Any Declaration.WellFormed
  policy : Policy.form.Survives Any Any
  rule : Rule.form.Survives Any Any
  issuerProof : IssuerProof.form.Survives Any Any
  trusteeKey : TrusteeKey.form.Survives Any Any
  trustee : Trustee.form.Survives Any Any
  credential : Credential.form.Survives Credential.DoubleFree Credential.Fits

/-- **Records survive their file form.** -/
theorem records_survive : RecordsSurvive where
  circuit := Circuit.form_lawful.survives
  circuitRefused _ h := FileForm.write_of_toJson (Circuit.toJson_of_not_textual h)
  artifacts := Artifacts.form_lawful.survives
  artifactsRefused _ h := FileForm.write_of_toJson (Artifacts.toJson_of_not_textual h)
  declaration := Declaration.form_lawful.survives
  policy := Policy.form_lawful.survives
  rule := Rule.form_lawful.survives
  issuerProof := IssuerProof.form_lawful.survives
  trusteeKey := TrusteeKey.form_lawful.survives
  trustee := Trustee.form_lawful.survives
  credential := Credential.form_lawful.survives

/-- A policy as an array, one rule as an array too and one with a member that nothing reads. -/
def arrayPolicyText : String :=
  "[\"shop\",\"age\",[[7,\"\",\"min\",\"0x0x0AfF\"]," ++
    "\x7b\"key\":\"max\",\"note\":[1.5],\"value\":\"\",\"index\":0\x7d]]"

def arrayPolicy : Policy :=
  ⟨"shop", "age", [⟨7, "", "min", [10, 255]⟩, ⟨0, "", "max", []⟩]⟩

/-- The policy is written in another way than it was read, and is read again. -/
theorem arrayPolicy_survives : Policy.form.read arrayPolicyText = .ok arrayPolicy ∧
    Policy.form.write arrayPolicy ≠ .ok arrayPolicyText ∧ Policy.form.Recovers arrayPolicy := by
  have hread : Policy.form.read arrayPolicyText = .ok arrayPolicy := by decide +kernel
  exact ⟨hread, by decide +kernel, records_survive.policy.again arrayPolicyText arrayPolicy hread trivial⟩

/-- A directory whose name is one byte that no text has. -/
def strayDirectory : FilePath :=
  ⟨[0xff]⟩

def ageDescriptor : String :=
  "\x7b\"name\":\"age\",\"artifacts\":\x7b\"wasmPath\":\"age.wasm\"\x7d\x7d"

/-- What the descriptor makes when it lies in that directory. -/
def strayCircuit : Circuit :=
  { name := "age", artifacts := { wasmPath := some (strayDirectory.join (.ofText "age.wasm")) } }

/-- A circuit that was loaded and has declarations in good order need not have a file form. -/
theorem strayCircuit_not_recovered :
    Circuit.load (strayDirectory.join (.ofText "age.json"))
      (.bytes ageDescriptor.toUTF8) = .ok strayCircuit ∧
    (∀ d ∈ strayCircuit.privateSignals ++ strayCircuit.publicSignals, d.WellFormed) ∧
    Circuit.form.write strayCircuit = .error (.encoding .pathNotText) ∧
    ¬Circuit.form.Recovers strayCircuit ∧ ¬Artifacts.form.Recovers strayCircuit.artifacts := by
  have hcircuit : Circuit.form.write strayCircuit = .error (.encoding .pathNotText) := by
    decide +kernel
  have hartifacts : Artifacts.form.write strayCircuit.artifacts = .error (.encoding .pathNotText) := by
    decide +kernel
  exact ⟨by decide +kernel, by rintro d ⟨⟩, hcircuit, FileForm.not_recovers_of_write hcircuit,
    FileForm.not_recovers_of_write hartifacts⟩

end Disclosure
