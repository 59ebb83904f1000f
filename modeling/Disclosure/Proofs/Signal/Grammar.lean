import Disclosure.Signal
import Disclosure.Proofs.Text.Numeral
import Disclosure.Proofs.Text.Characters

/-! The grammar of declarations.

A well-formed declaration is read back from its own text (`read_text`).

`Writes` says which texts write which declaration, and reads none of them: a name alone, or a
name with its arity in brackets. Reading takes exactly these texts (`parse_keepsGrammar`), and
of the texts that write one declaration its own is the only shortest. -/
namespace Disclosure.Declaration
open Text (IsDigit number)

/-- A name that can be declared and an arity that can be read. -/
structure WellFormed (d : Declaration) : Prop where
  identifier : isIdentifier d.name.toList = true
  arity_pos : 0 < d.arity
  arity_lt : d.arity < UInt64.size

/-! ### The text of a declaration -/

variable {d : Declaration}

/-- No bracket stands in a name. -/
theorem not_bracket_of_mem {cs : List Char} (h : isIdentifier cs = true) {c : Char} (hc : c ∈ cs) :
    c ≠ '[' ∧ c ≠ ']' := by
  have hcontinues : continuesName c = true := by
    cases cs with
    | nil => cases hc
    | cons first rest =>
      obtain ⟨hstart, hrest⟩ := Bool.and_eq_true_iff.mp h
      rcases List.mem_cons.mp hc with rfl | hc
      · unfold startsName at hstart
        unfold continuesName Char.isAlphanum
        rcases Bool.or_eq_true_iff.mp hstart with halpha | hscore
        · rw [halpha]
          rfl
        · rw [hscore, Bool.or_true]
      · exact List.all_eq_true.mp hrest c hc
  constructor <;> rintro rfl <;> exact absurd hcontinues (by decide)

theorem span_name {name : List Char} (h : isIdentifier name = true) (inner : List Char) :
    (name ++ '[' :: inner).span (· ≠ '[') = (name, '[' :: inner) :=
  Text.span_append_cons (fun hmem => (not_bracket_of_mem h hmem).1 rfl) inner

theorem span_name_only {name : List Char} (h : isIdentifier name = true) :
    name.span (· ≠ '[') = (name, []) :=
  Text.span_of_not_mem fun hmem => (not_bracket_of_mem h hmem).1 rfl

theorem readArity_write {arity : Nat} (hpos : 0 < arity) (hlt : arity < UInt64.size) :
    readArity (Decimal.write arity).toList = .ok arity := by
  have hdigits : ¬((Decimal.write arity).toList = [] ∨
      ¬(Decimal.write arity).toList.all Char.isDigit) := by
    rw [not_or, not_not, List.all_eq_true]
    exact ⟨Decimal.write_ne_nil arity, fun c hc => Decimal.isDigit_of_mem_write hc⟩
  unfold readArity
  rw [if_neg hdigits, Decimal.ofDigits_write]
  dsimp only
  rw [if_neg (by omega), if_neg (by omega)]

theorem split_text (h : d.WellFormed) : split d.text.toList = .ok (d.name.toList, d.arity) := by
  unfold text split
  by_cases harity : d.arity = 1
  · have hscalar : d.isScalar = true := beq_iff_eq.mpr harity
    have hbracket : ']' ∉ d.name.toList := fun hmem => (not_bracket_of_mem h.identifier hmem).2 rfl
    rw [if_pos hscalar, span_name_only h.identifier]
    dsimp only
    rw [if_neg hbracket, harity]
  · have hscalar : d.isScalar ≠ true := fun hscalar => harity (beq_iff_eq.mp hscalar)
    have htext : (d.name ++ "[" ++ Decimal.write d.arity ++ "]").toList =
        d.name.toList ++ '[' :: ((Decimal.write d.arity).toList ++ [']']) := by
      simp
    have hclosing : closing? ((Decimal.write d.arity).toList ++ [']']) =
        some (Decimal.write d.arity).toList := by
      rw [closing?, if_pos List.getLast?_concat, List.dropLast_concat]
    rw [if_neg hscalar, htext, span_name h.identifier]
    dsimp only
    rw [hclosing]
    dsimp only
    rw [readArity_write h.arity_pos h.arity_lt]
    rfl

/-- **A well-formed declaration is read back from its text.** -/
theorem read_text (h : d.WellFormed) : read d.text.toList = .ok d := by
  unfold read
  rw [split_text h]
  show (if isIdentifier d.name.toList then _ else _) = _
  rw [if_pos h.identifier, String.ofList_toList]

/-! ### The grammar -/

def IsLetter (c : Char) : Prop :=
  'A' ≤ c ∧ c ≤ 'Z' ∨ 'a' ≤ c ∧ c ≤ 'z'

/-- A letter or an underscore, and then letters, digits and underscores. -/
inductive IsName : List Char → Prop
  | intro {c : Char} {rest : List Char} (first : IsLetter c ∨ c = '_')
      (others : ∀ c ∈ rest, IsLetter c ∨ IsDigit c ∨ c = '_') : IsName (c :: rest)

/-- The texts that write a declaration. An arity of one may be left out, and any arity may
have zeros before it. -/
inductive Writes : List Char → Declaration → Prop
  | scalar {name : List Char} (hname : IsName name) : Writes name ⟨String.ofList name, 1⟩
  | array {name digits : List Char} (hname : IsName name)
      (hne : digits ≠ []) (hdigits : ∀ c ∈ digits, IsDigit c)
      (hpos : 1 ≤ number 10 digits) (hle : number 10 digits ≤ 2 ^ 64 - 1) :
      Writes (name ++ '[' :: (digits ++ [']'])) ⟨String.ofList name, number 10 digits⟩

/-- Reading and writing declarations keep to the grammar. -/
structure KeepsGrammar (parse : String → Except Error Declaration)
    (text : Declaration → String) : Prop where
  accepts : ∀ source d, parse source = .ok d ↔ Writes source.toList d
  refuses : ∀ source, (∀ d, ¬Writes source.toList d) →
    ∃ fault, parse source = .error (.invalidDeclaration source fault)
  recovers : ∀ d : Declaration, IsName d.name.toList →
    1 ≤ d.arity → d.arity ≤ 2 ^ 64 - 1 → parse (text d) = .ok d
  shortest : ∀ source d, parse source = .ok d → parse (text d) = .ok d ∧
    ∀ other, parse other = .ok d → other ≠ text d → (text d).length < other.length

variable {cs name digits : List Char}

/-! ### The parts -/

theorem isAlpha_iff {c : Char} : c.isAlpha = true ↔ IsLetter c := by
  have hupper : c.isUpper = true ↔ 'A' ≤ c ∧ c ≤ 'Z' := decide_eq_true_iff
  have hlower : c.isLower = true ↔ 'a' ≤ c ∧ c ≤ 'z' := by
    show (decide ('a'.val ≤ c.val) && decide (c.val ≤ 'z'.val)) = true ↔ _
    rw [Bool.and_eq_true, decide_eq_true_iff, decide_eq_true_iff]
    rfl
  exact Bool.or_eq_true_iff.trans (or_congr hupper hlower)

instance (c : Char) : Decidable (IsLetter c) :=
  decidable_of_iff (c.isAlpha = true) isAlpha_iff

theorem startsName_iff {c : Char} : startsName c = true ↔ IsLetter c ∨ c = '_' := by
  rw [startsName, Bool.or_eq_true, isAlpha_iff, beq_iff_eq]

theorem continuesName_iff {c : Char} : continuesName c = true ↔ IsLetter c ∨ IsDigit c ∨ c = '_' := by
  rw [continuesName, Char.isAlphanum, Bool.or_eq_true,
    Bool.or_eq_true, isAlpha_iff, Text.isDigit_iff, beq_iff_eq,
    or_assoc]

theorem isIdentifier_iff : isIdentifier name = true ↔ IsName name := by
  cases name with
  | nil => exact ⟨nofun, nofun⟩
  | cons c rest =>
    rw [isIdentifier, Bool.and_eq_true, startsName_iff, List.all_eq_true]
    constructor
    · exact fun h => ⟨h.1, fun c hc => continuesName_iff.mp (h.2 c hc)⟩
    · intro h
      cases h with
      | intro first others => exact ⟨first, fun c hc => continuesName_iff.mpr (others c hc)⟩

theorem readArity_eq_ok_iff {arity : Nat} : readArity digits = .ok arity ↔
    digits ≠ [] ∧ (∀ c ∈ digits, IsDigit c) ∧
    number 10 digits = arity ∧ 1 ≤ arity ∧ arity ≤ 2 ^ 64 - 1 := by
  unfold readArity
  by_cases hdigits : digits = [] ∨ ¬ digits.all Char.isDigit
  · rw [if_pos hdigits]
    refine ⟨nofun, fun ⟨hne, hall, _⟩ => absurd hdigits ?_⟩
    simpa [hne] using fun c hc => Text.isDigit_iff.mpr (hall c hc)
  · rw [if_neg hdigits]
    simp only [not_or, not_not, List.all_eq_true] at hdigits
    obtain ⟨hne, hall⟩ := hdigits
    have hall : ∀ c ∈ digits, IsDigit c := fun c hc => Text.isDigit_iff.mp (hall c hc)
    have hsize : UInt64.size = 2 ^ 64 := rfl
    rw [Text.ofDigits_eq_number hall]
    dsimp only
    by_cases hzero : number 10 digits = 0
    · rw [if_pos hzero]
      exact ⟨nofun, fun h => by omega⟩
    · rw [if_neg hzero]
      by_cases hlarge : UInt64.size ≤ number 10 digits
      · rw [if_pos hlarge]
        exact ⟨nofun, fun h => by omega⟩
      · rw [if_neg hlarge]
        constructor
        · intro h
          cases h
          exact ⟨hne, hall, rfl, by omega, by omega⟩
        · intro h
          rw [h.2.2.1]

theorem closing?_eq_some_iff : closing? cs = some digits ↔ cs = digits ++ [']'] := by
  unfold closing?
  split
  · rename_i hlast
    obtain ⟨init, rfl⟩ := List.getLast?_eq_some_iff.mp hlast
    simp
  · rename_i hlast
    refine ⟨nofun, fun h => ?_⟩
    rw [h] at hlast
    exact absurd List.getLast?_concat hlast

/-! ### Reading -/

theorem split_eq_ok {arity : Nat} (h : split cs = .ok (name, arity)) :
    cs = name ∧ arity = 1 ∨
      ∃ digits, cs = name ++ '[' :: (digits ++ [']']) ∧ readArity digits = .ok arity := by
  unfold split at h
  split at h
  case h_1 hspan =>
    split at h
    · cases h
    · cases h
      exact .inl ⟨(Text.span_eq_nil_iff.mp hspan).1, rfl⟩
  case h_2 bracket inner hspan =>
    split at h
    · cases h
    · rename_i digits hclosing
      obtain ⟨arity, harity, h⟩ := Outcome.bind_eq_ok_iff.mp h
      cases h
      obtain ⟨_, hcut, _⟩ := Text.span_eq_cons_iff.mp hspan
      rw [closing?_eq_some_iff.mp hclosing] at hcut
      exact .inr ⟨digits, hcut, harity⟩

theorem writes_of_read (h : read cs = .ok d) : Writes cs d := by
  obtain ⟨⟨name, arity⟩, hsplit, h⟩ := Outcome.bind_eq_ok_iff.mp h
  dsimp only at h
  split at h
  case isFalse => cases h
  case isTrue hname =>
    cases h
    have hname := isIdentifier_iff.mp hname
    obtain ⟨rfl, rfl⟩ | ⟨digits, rfl, harity⟩ := split_eq_ok hsplit
    · exact .scalar hname
    · obtain ⟨hne, hdigits, rfl, hpos, hle⟩ := readArity_eq_ok_iff.mp harity
      exact .array hname hne hdigits hpos hle

theorem wellFormed_iff : d.WellFormed ↔
    IsName d.name.toList ∧ 1 ≤ d.arity ∧ d.arity ≤ 2 ^ 64 - 1 := by
  have hsize : UInt64.size = 2 ^ 64 := rfl
  constructor
  · exact fun h => ⟨isIdentifier_iff.mp h.identifier, h.arity_pos, by have := h.arity_lt; omega⟩
  · exact fun h => ⟨isIdentifier_iff.mpr h.1, h.2.1, by omega⟩

/-- What is read is well formed, whatever the text looked like. -/
theorem wellFormed_of_read (h : read cs = .ok d) : d.WellFormed := by
  rw [wellFormed_iff]
  cases writes_of_read h with
  | scalar hname => exact ⟨by rwa [String.toList_ofList], Nat.le_refl 1, show 1 ≤ 2 ^ 64 - 1 by decide⟩
  | array hname _ _ hpos hle => exact ⟨by rwa [String.toList_ofList], hpos, hle⟩

theorem read_of_writes (h : Writes cs d) : read cs = .ok d := by
  cases h with
  | @scalar name hname =>
    have hname := isIdentifier_iff.mpr hname
    have hbracket : ']' ∉ cs := fun hmem => (not_bracket_of_mem hname hmem).2 rfl
    unfold read split
    rw [span_name_only hname]
    dsimp only
    rw [if_neg hbracket, Outcome.ok_bind, if_pos hname]
  | @array name digits hname hne hdigits hpos hle =>
    have hname := isIdentifier_iff.mpr hname
    have harity : readArity digits = .ok (number 10 digits) :=
      readArity_eq_ok_iff.mpr ⟨hne, hdigits, rfl, hpos, hle⟩
    unfold read split
    rw [span_name hname]
    dsimp only
    rw [closing?_eq_some_iff.mpr rfl]
    dsimp only
    rw [harity]
    show (if isIdentifier name then _ else _) = _
    rw [if_pos hname]

theorem read_eq_ok_iff : read cs = .ok d ↔ Writes cs d :=
  ⟨writes_of_read, read_of_writes⟩

theorem parse_eq_ok_iff {source : String} : parse source = .ok d ↔ Writes source.toList d :=
  Outcome.mapError_eq_ok_iff.trans read_eq_ok_iff

theorem exists_fault_of_parse {source : String} (h : ∀ d, ¬Writes source.toList d) :
    ∃ fault, parse source = .error (.invalidDeclaration source fault) := by
  unfold parse
  cases hread : read source.toList with
  | ok d => exact absurd (read_eq_ok_iff.mp hread) (h d)
  | error fault => exact ⟨fault, rfl⟩

/-! ### The shortest text -/

/-- Any other text of a declaration is longer than its own: it has an arity that may be left
out, or zeros before one. -/
theorem length_text_lt (h : Writes cs d) (hne : cs ≠ d.text.toList) : d.text.toList.length < cs.length := by
  cases h with
  | @scalar name hname =>
    refine absurd ?_ hne
    simp [text, isScalar]
  | @array name digits hname hnil hdigits hpos hle =>
    by_cases harity : number 10 digits = 1
    · simp [text, isScalar, harity]
    · obtain ⟨count, hcount⟩ := Text.exists_zeros hnil hdigits
      have htext : (text ⟨String.ofList name, number 10 digits⟩).toList =
          name ++ '[' :: ((Decimal.write (number 10 digits)).toList ++ [']']) := by
        simp [text, isScalar, harity]
      have hzeros : count ≠ 0 := by
        intro hzero
        rw [hzero, List.replicate_zero, List.nil_append] at hcount
        rw [htext, ← hcount] at hne
        exact hne rfl
      have hlength := congrArg List.length hcount
      simp only [List.length_append, List.length_replicate] at hlength
      simp only [htext, List.length_append, List.length_cons, List.length_nil]
      omega

/-- **Declarations are read and written by one grammar.** -/
theorem parse_keepsGrammar : KeepsGrammar parse text where
  accepts _ _ := parse_eq_ok_iff
  refuses _ h := exists_fault_of_parse h
  recovers _ hname hpos hle :=
    Outcome.mapError_eq_ok_iff.mpr (read_text (wellFormed_iff.mpr ⟨hname, hpos, hle⟩))
  shortest source d h := by
    have hread := Outcome.mapError_eq_ok_iff.mp h
    refine ⟨Outcome.mapError_eq_ok_iff.mpr
      (read_text (wellFormed_of_read hread)), fun other hother hne => ?_⟩
    have hlength := length_text_lt (parse_eq_ok_iff.mp hother) fun heq => hne (String.toList_inj.mp heq)
    rwa [String.length_toList, String.length_toList] at hlength

/-- A text with zeros before its arity is longer than the one it is written as. -/
theorem paddedArity_keepsGrammar : parse "issuerPk[0002]" = .ok ⟨"issuerPk", 2⟩ ∧
    text ⟨"issuerPk", 2⟩ = "issuerPk[2]" ∧ parse "issuerPk[2]" = .ok ⟨"issuerPk", 2⟩ ∧
    "issuerPk[2]".length < "issuerPk[0002]".length := by
  have hread : parse "issuerPk[0002]" = .ok ⟨"issuerPk", 2⟩ := by decide +kernel
  obtain ⟨hagain, hshortest⟩ := parse_keepsGrammar.shortest "issuerPk[0002]" _ hread
  exact ⟨hread, rfl, hagain, hshortest _ hread (by decide +kernel)⟩

end Disclosure.Declaration
