import Disclosure.Json.Decoder
import Disclosure.Proofs.Json.Within
import Disclosure.Proofs.Keyed
import Disclosure.Proofs.Outcome

/-! Decoders and the values they are given.

A value that is taken whole comes back as it is (`Node.value_ofJson`), a list is read item by
item, and a record member by member (`Decoder.Reads`). Going the other way, what every field
keeps is true of any record that was read (`Decoder.record_keeps`). The members of a record may
come in any order (`Decoder.readMembers_perm`). -/
namespace Disclosure

namespace Json

/-! ### Whole values -/

theorem Node.ofItems_eq (items : List Json) : ofItems items = items.map ofJson := by
  induction items with
  | nil => rfl
  | cons item rest ih => rw [ofItems, ih, List.map_cons]

theorem Node.ofMembers_eq (members : List (String × Json)) :
    ofMembers members = members.map fun m => (.ok m.1, ofJson m.2) := by
  induction members with
  | nil => rfl
  | cons m rest ih => rw [ofMembers, ih, List.map_cons]

mutual

theorem Node.value_ofJson : (v : Json) → v.Ordered → (ofJson v).value = .ok v
  | .null, _ => rfl
  | .bool _, _ => rfl
  | .number _, _ => rfl
  | .string _, _ => rfl
  | .array items, h => by
    rw [ofJson, value, itemValues_ofItems items h]
    rfl
  | .object members, h => by
    rw [ofJson, value, memberValues_ofMembers members h.2]
    show Except.ok (Json.object (Keyed.ofList members)) = _
    rw [Keyed.ofList_of_ordered h.1]

theorem Node.itemValues_ofItems : (items : List Json) → OrderedItems items →
    itemValues (ofItems items) = .ok items
  | [], _ => rfl
  | item :: rest, h => by
    rw [ofItems, itemValues, value_ofJson item h.1, itemValues_ofItems rest h.2]
    rfl

theorem Node.memberValues_ofMembers : (members : List (String × Json)) → OrderedMembers members →
    memberValues (ofMembers members) = .ok members
  | [], _ => rfl
  | (key, member) :: rest, h => by
    rw [ofMembers, memberValues, value_ofJson member h.1, memberValues_ofMembers rest h.2]
    rfl

end

namespace Decoder
variable {α β σ : Type}

/-- An object comes back as it is. -/
theorem object_ofJson (o : Object) : object (.ofJson (.object o.members)) = .ok o := by
  have hmembers := Node.memberValues_ofMembers o.members o.ordered.2
  rw [Node.ofJson, object]
  split
  · rename_i hvalues
    rw [hmembers] at hvalues
    cases hvalues
  · rename_i values hvalues
    rw [hmembers] at hvalues
    cases hvalues
    show Except.ok (Object.mk (Keyed.ofList o.members) _) = _
    congr
    exact Keyed.ofList_of_ordered o.ordered.1

/-- An object that was read is the value of its node. -/
theorem value_of_object {node : Node} {o : Object} (h : object node = .ok o) :
    node.value = .ok (.object o.members) := by
  cases node with
  | object members ending =>
    rw [object] at h
    split at h
    · cases h
    · rename_i values hvalues
      rw [Node.value, hvalues]
      cases ending with
      | some fault => cases h
      | none =>
        cases h
        rfl
  | _ => cases h

/-! ### Lists -/

theorem list_ofJson {decode : Decoder α} (write : α → Json) {as : List α}
    (h : ∀ a ∈ as, decode (.ofJson (write a)) = .ok a) :
    list decode (.ofJson (.array (as.map write))) = .ok as := by
  have hitems : (as.map fun a => Node.ofJson (write a)).mapM decode = .ok as := by
    rw [Outcome.mapM_eq_ok_iff, List.forall₂_map_left_iff, List.forall₂_same]
    exact h
  rw [Node.ofJson, Node.ofItems_eq, List.map_map, list]
  show (List.mapM decode (as.map fun a => Node.ofJson (write a)) >>= _) = _
  rw [hitems]
  rfl

/-- Every member of a list was read from an item. -/
theorem exists_of_list {decode : Decoder α} {node : Node} {as : List α} (h : list decode node = .ok as) :
    ∀ a ∈ as, ∃ item, decode item = .ok a := by
  cases node with
  | array items ending =>
    obtain ⟨values, hvalues, h⟩ := Outcome.bind_eq_ok_iff.mp h
    obtain ⟨_, _, h⟩ := Outcome.bind_eq_ok_iff.mp h
    cases h
    intro a ha
    obtain ⟨item, _, hitem⟩ := Outcome.exists_left (Outcome.mapM_eq_ok_iff.mp hvalues) ha
    exact ⟨item, hitem⟩
  | _ => cases h

/-! ### Records -/

theorem read_field_eq_ok_iff {name : String} {decode : Decoder α}
    {set : α → σ → σ} {node : Node} {draft made : σ} :
    (field name decode set).read node draft = .ok made ↔
    ∃ a, decode node = .ok a ∧ made = set a draft := by
  show (decode node >>= fun a => .ok (set a draft)) = _ ↔ _
  rw [Outcome.bind_eq_ok_iff]
  simp [eq_comm]

section Members
variable {fields : List (Field σ)} {ending : Option Fault} {seen : List String}
  {draft made : σ} {m : Key × Node} {rest : List (Key × Node)}

/-- A member that is read, or skipped: what was seen and the draft, before it and after. -/
inductive Reads (fields : List (Field σ)) (seen : List String) (draft : σ) :
    Key × Node → List String → σ → Prop
  | skipped {key : String} {node : Node}
      (hfind : fields.find? (·.name = key) = none) (hskip : node.skip = none) :
      Reads fields seen draft (.ok key, node) seen draft
  | read {key : String} {node : Node} {f : Field σ} {next : σ}
      (hfind : fields.find? (·.name = key) = some f)
      (hnew : key ∉ seen) (hread : f.read node draft = .ok next) :
      Reads fields seen draft (.ok key, node) (key :: seen) next

theorem readMembers_cons_eq_ok_iff : readMembers fields ending seen draft (m :: rest) = .ok made ↔
    ∃ seen' next, Reads fields seen draft m seen' next ∧
      readMembers fields ending seen' next rest = .ok made := by
  obtain ⟨flaw | key, node⟩ := m
  · exact ⟨nofun, nofun⟩
  · rw [readMembers]
    constructor
    · intro h
      cases hfind : fields.find? (·.name = key) with
      | none =>
        rw [hfind] at h
        cases hskip : node.skip with
        | some fault => simp only [hskip] at h; cases h
        | none => simp only [hskip] at h; exact ⟨_, _, .skipped hfind hskip, h⟩
      | some f =>
        rw [hfind] at h
        dsimp only at h
        split at h
        · cases h
        · rename_i hnew
          obtain ⟨next, hread, h⟩ := Outcome.bind_eq_ok_iff.mp h
          exact ⟨_, _, .read hfind hnew hread, h⟩
    · rintro ⟨_, _, hreads, h⟩
      cases hreads with
      | skipped hfind hskip =>
        rw [hfind]
        dsimp only
        rw [hskip]
        exact h
      | read hfind hnew hread =>
        rw [hfind]
        dsimp only
        rw [if_neg hnew, hread]
        exact h

/-- One member of a record, and the members after it. -/
theorem readMembers_field {name : String} {decode : Decoder α}
    {set : α → σ → σ} {node : Node} {a : α}
    (hfind : fields.find? (·.name = name) = some (field name decode set)) (hnew : name ∉ seen)
    (hread : decode node = .ok a)
    (hrest : readMembers fields ending (name :: seen) (set a draft) rest = .ok made) :
    readMembers fields ending seen draft ((.ok name, node) :: rest) = .ok made :=
  readMembers_cons_eq_ok_iff.mpr
    ⟨_, _, .read hfind hnew (read_field_eq_ok_iff.mpr ⟨a, hread, rfl⟩), hrest⟩

/-- A member is read before any later one fails. -/
theorem readMembers_field_eq {name : String} {decode : Decoder α} {set : α → σ → σ}
    (hfind : fields.find? (·.name = name) = some (field name decode set))
    (hnew : name ∉ seen) (node : Node) :
    readMembers fields ending seen draft ((.ok name, node) :: rest) =
      decode node >>= fun a => readMembers fields ending (name :: seen) (set a draft) rest := by
  rw [readMembers, hfind]
  dsimp only
  rw [if_neg hnew]
  exact bind_assoc (decode node) _ _

end Members

theorem record_object {r : Record σ α} {members : List (Key × Node)} {draft : σ} {a : α}
    (hread : readMembers r.fields none [] r.empty members = .ok draft)
    (hfinish : r.finish .missingField draft = .ok a) : record r (.object members none) = .ok a := by
  show (readMembers r.fields none [] r.empty members >>= _) = _
  rw [hread]
  exact hfinish

section Keeps
variable {I : σ → Prop} {fields : List (Field σ)} {ending : Option Fault}

theorem readMembers_keeps {members : List (Key × Node)}
    (hread : ∀ f ∈ fields, ∀ m ∈ members, ∀ draft made, I draft →
      f.read m.2 draft = .ok made → I made)
    {seen : List String} {draft made : σ} (hdraft : I draft)
    (h : readMembers fields ending seen draft members = .ok made) : I made := by
  induction members generalizing seen draft with
  | nil =>
    obtain ⟨_, _, h⟩ := Outcome.bind_eq_ok_iff.mp h
    cases h
    exact hdraft
  | cons m rest ih =>
    have hrest := fun f hf n hn => hread f hf n (List.mem_cons_of_mem m hn)
    obtain ⟨_, next, hreads, h⟩ := readMembers_cons_eq_ok_iff.mp h
    refine ih hrest ?_ h
    cases hreads with
    | skipped => exact hdraft
    | @read _ _ f _ hfind _ hnext =>
      exact hread f (List.mem_of_find?_eq_some hfind) _ List.mem_cons_self draft next hdraft hnext

theorem readItems_keeps {items : List Node}
    (hread : ∀ f ∈ fields, ∀ node ∈ items, ∀ draft made, I draft →
      f.read node draft = .ok made → I made)
    {draft made : σ} (hdraft : I draft) (h : readItems ending fields items draft = .ok made) : I made := by
  induction items generalizing fields draft with
  | nil =>
    rw [readItems] at h
    obtain ⟨_, _, h⟩ := Outcome.bind_eq_ok_iff.mp h
    cases h
    exact hdraft
  | cons node rest ih =>
    cases fields with
    | nil => cases h
    | cons f others =>
      obtain ⟨next, hnext, h⟩ := Outcome.bind_eq_ok_iff.mp h
      refine ih (fun g hg n hn => ?_) (hread f List.mem_cons_self _ List.mem_cons_self _ _ hdraft hnext) h
      exact hread g (List.mem_cons_of_mem f hg) n (List.mem_cons_of_mem node hn)

end Keeps

/-- **What every field keeps holds of the draft that a record is made from.** -/
theorem record_keeps {r : Record σ α} {I : σ → Prop} {node : Node} {a : α} (hempty : I r.empty)
    (hread : ∀ f ∈ r.fields, ∀ part ∈ node.parts, ∀ draft made, I draft →
      f.read part draft = .ok made → I made)
    (h : record r node = .ok a) : ∃ missing draft, I draft ∧ r.finish missing draft = .ok a := by
  cases node with
  | object members ending =>
    obtain ⟨draft, hdraft, h⟩ := Outcome.bind_eq_ok_iff.mp h
    refine ⟨_, draft, readMembers_keeps (fun f hf m hm => ?_) hempty hdraft, h⟩
    exact hread f hf m.2 (List.mem_map_of_mem hm)
  | array items ending =>
    obtain ⟨draft, hdraft, h⟩ := Outcome.bind_eq_ok_iff.mp h
    exact ⟨_, draft, readItems_keeps hread hempty hdraft, h⟩
  | _ => cases h

/-! ### Members in any order -/

/-- Either field may be read before the other. -/
def Field.Commutes (f g : Field σ) : Prop :=
  ∀ m n draft made, (f.read m draft >>= g.read n) = .ok made → (g.read n draft >>= f.read m) = .ok made

theorem commutes_field {name other : String} {decode : Decoder α}
    {decode' : Decoder β} {set : α → σ → σ}
    {set' : β → σ → σ} (h : ∀ a b draft, set' b (set a draft) = set a (set' b draft)) :
    (field name decode set).Commutes (field other decode' set') := by
  intro m n draft made hread
  obtain ⟨_, hfirst, hsecond⟩ := Outcome.bind_eq_ok_iff.mp hread
  obtain ⟨a, ha, rfl⟩ := read_field_eq_ok_iff.mp hfirst
  obtain ⟨b, hb, rfl⟩ := read_field_eq_ok_iff.mp hsecond
  refine Outcome.bind_eq_ok_iff.mpr ⟨_, read_field_eq_ok_iff.mpr ⟨b, hb, rfl⟩, ?_⟩
  exact read_field_eq_ok_iff.mpr ⟨a, ha, h a b draft⟩

section Order
variable {fields : List (Field σ)} {ending : Option Fault}

/-- It does not matter in which order names were seen. -/
theorem readMembers_seen {seen seen' : List String}
    (h : ∀ key, key ∈ seen ↔ key ∈ seen') {draft made : σ}
    {members : List (Key × Node)} (hread : readMembers fields ending seen draft members = .ok made) :
    readMembers fields ending seen' draft members = .ok made := by
  induction members generalizing seen seen' draft with
  | nil => exact hread
  | cons m rest ih =>
    obtain ⟨_, _, hreads, hrest⟩ := readMembers_cons_eq_ok_iff.mp hread
    refine readMembers_cons_eq_ok_iff.mpr ?_
    cases hreads with
    | skipped hfind hskip => exact ⟨_, _, .skipped hfind hskip, ih h hrest⟩
    | @read key _ _ _ hfind hnew hnext =>
      refine ⟨_, _, .read hfind (fun hmem => hnew ((h key).mpr hmem)) hnext, ih (fun other => ?_) hrest⟩
      rw [List.mem_cons, List.mem_cons, h other]

/-- Two members one after the other, and the same two the other way round. -/
theorem reads_swap (hcomm : ∀ f ∈ fields, ∀ g ∈ fields,
    f.name ≠ g.name → f.Commutes g) {m n : Key × Node}
    {seen seen₁ seen₂ : List String} {draft draft₁ draft₂ : σ}
    (hm : Reads fields seen draft m seen₁ draft₁)
    (hn : Reads fields seen₁ draft₁ n seen₂ draft₂) :
    ∃ seen₁' draft₁' seen₂', Reads fields seen draft n seen₁' draft₁' ∧
      Reads fields seen₁' draft₁' m seen₂' draft₂ ∧
        ∀ key, key ∈ seen₂' ↔ key ∈ seen₂ := by
  cases hm with
  | skipped hfind hskip => exact ⟨_, _, _, hn, .skipped hfind hskip, fun _ => Iff.rfl⟩
  | @read key _ f _ hfind hnew hread =>
    cases hn with
    | skipped hfind' hskip =>
      exact ⟨_, _, _, .skipped hfind' hskip, .read hfind hnew hread, fun _ => Iff.rfl⟩
    | @read key' _ g _ hfind' hnew' hread' =>
      rw [List.mem_cons, not_or] at hnew'
      have hname : f.name = key :=
        of_decide_eq_true (List.find?_some (p := fun f : Field σ => f.name = key) hfind)
      have hname' : g.name = key' :=
        of_decide_eq_true (List.find?_some (p := fun f : Field σ => f.name = key') hfind')
      have hfg : f.Commutes g := by
        refine hcomm f (List.mem_of_find?_eq_some hfind) g (List.mem_of_find?_eq_some hfind') ?_
        rw [hname, hname']
        exact Ne.symm hnew'.1
      obtain ⟨_, hfirst, hsecond⟩ := Outcome.bind_eq_ok_iff.mp
        (hfg _ _ _ _ (Outcome.bind_eq_ok_iff.mpr ⟨_, hread, hread'⟩))
      refine ⟨_, _, _, .read hfind' hnew'.2 hfirst, .read hfind ?_ hsecond, fun other => ?_⟩
      · rw [List.mem_cons, not_or]
        exact ⟨Ne.symm hnew'.1, hnew⟩
      · simp only [List.mem_cons]
        exact or_left_comm

/-- **The members of a record may come in any order**, when none of its fields looks at another. -/
theorem readMembers_perm (hcomm : ∀ f ∈ fields, ∀ g ∈ fields, f.name ≠ g.name → f.Commutes g)
    {members others : List (Key × Node)} (h : members.Perm others) {seen : List String} {draft made : σ}
    (hread : readMembers fields ending seen draft members = .ok made) :
    readMembers fields ending seen draft others = .ok made := by
  induction h generalizing seen draft with
  | nil => exact hread
  | cons m _ ih =>
    obtain ⟨_, _, hreads, hrest⟩ := readMembers_cons_eq_ok_iff.mp hread
    exact readMembers_cons_eq_ok_iff.mpr ⟨_, _, hreads, ih hrest⟩
  | swap m n rest =>
    obtain ⟨_, _, hn, hmore⟩ := readMembers_cons_eq_ok_iff.mp hread
    obtain ⟨_, _, hm, hrest⟩ := readMembers_cons_eq_ok_iff.mp hmore
    obtain ⟨_, _, _, hm', hn', hseen⟩ := reads_swap hcomm hn hm
    refine readMembers_cons_eq_ok_iff.mpr ⟨_, _, hm', readMembers_cons_eq_ok_iff.mpr ⟨_, _, hn', ?_⟩⟩
    exact readMembers_seen (fun key => (hseen key).symm) hrest
  | trans _ _ ih ih' => exact ih' (ih hread)

theorem record_perm {r : Record σ α}
    (hcomm : ∀ f ∈ r.fields, ∀ g ∈ r.fields, f.name ≠ g.name → f.Commutes g)
    {members others : List (Key × Node)} (h : members.Perm others) {a : α}
    (hread : record r (.object members ending) = .ok a) : record r (.object others ending) = .ok a := by
  obtain ⟨draft, hdraft, hfinish⟩ := Outcome.bind_eq_ok_iff.mp hread
  exact Outcome.bind_eq_ok_iff.mpr ⟨draft, readMembers_perm hcomm h hdraft, hfinish⟩

end Order

end Decoder
end Json
end Disclosure
