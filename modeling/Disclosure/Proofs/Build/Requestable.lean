import Disclosure.Proofs.Build.Inclusion
import Disclosure.Proofs.Signal.Grammar

/-! Which claims a circuit can ask for.

A signal asks for the claim at its name with dots for underscores. Names have no dots of
their own, so a name is read off its path again (`nameOf_pathOf`): a claim can be asked for
exactly when its path is made like a name, with dots for the underscores, and is not itself
a reserved name, and then under one name only. Signals of different names therefore never
share a claim, nor a leaf of the tree. -/
namespace Disclosure
open Text (IsDigit)
open Declaration (IsLetter IsName)

namespace Claim

/-- Letters, digits and a separator, with no digit in front. -/
structure Joined (separator : Char) (cs : List Char) : Prop where
  nonempty : cs ≠ []
  chars : ∀ c ∈ cs, IsLetter c ∨ IsDigit c ∨ c = separator
  first : ∀ c ∈ cs.head?, ¬IsDigit c

/-- The paths that can be asked for. -/
structure IsRequestable (path : String) : Prop where
  joined : Joined '.' path.toList
  unreserved : ∀ kind : Reserved, path ≠ kind.name

/-- A text declares a signal of its own that asks for the claim at a path. -/
structure Asks (source path : String) (d : Declaration) : Prop where
  parsed : Declaration.parse source = .ok d
  scalar : d.arity = 1
  unreserved : d.isReserved = false
  path_eq : pathOf d.name = path

/-- One character in place of another. -/
def swap (a b c : Char) : Char :=
  if c = a then b else c

/-- The signal name that asks for a claim path. -/
def nameOf (path : String) : String :=
  path.map (swap '.' '_')

variable {name path source source' : String} {d d' : Declaration} {a b c : Char} {cs : List Char}

/-! ### Separators -/

theorem not_isDigit_of_isLetter (h : IsLetter c) : ¬IsDigit c := by
  rintro ⟨_, hnine⟩
  have hnine : c.toNat ≤ 57 := hnine
  obtain ⟨hupper, _⟩ | ⟨hlower, _⟩ := h
  · have hupper : 65 ≤ c.toNat := hupper
    omega
  · have hlower : 97 ≤ c.toNat := hlower
    omega

theorem isName_iff : IsName cs ↔ Joined '_' cs := by
  constructor
  · intro h
    cases h with
    | @intro c rest first others =>
      refine ⟨List.cons_ne_nil c rest, fun x hx => ?_, fun x hx => ?_⟩
      · rcases List.mem_cons.mp hx with rfl | hx
        · exact first.imp id .inr
        · exact others x hx
      · cases hx
        obtain hletter | rfl := first
        · exact not_isDigit_of_isLetter hletter
        · decide
  · intro h
    cases cs with
    | nil => exact absurd rfl h.nonempty
    | cons c rest =>
      have hfirst : IsLetter c ∨ c = '_' :=
        (h.chars c List.mem_cons_self).imp id fun hrest => hrest.resolve_left (h.first c rfl)
      exact .intro hfirst fun x hx => h.chars x (List.mem_cons_of_mem c hx)

theorem Joined.not_mem (h : Joined a cs) (hletter : ¬IsLetter b) (hdigit : ¬IsDigit b) (hne : b ≠ a) :
    b ∉ cs := by
  intro hb
  obtain hb | hb | hb := h.chars b hb
  · exact hletter hb
  · exact hdigit hb
  · exact hne hb

/-- Another separator joins as well. -/
theorem Joined.map_swap (h : Joined a cs) (hdigit : ¬IsDigit b) : Joined b (cs.map (swap a b)) := by
  have hswap : ∀ c, ¬IsDigit c → ¬IsDigit (swap a b c) := by
    intro c hc
    unfold swap
    split
    · exact hdigit
    · exact hc
  refine ⟨fun hnil => h.nonempty (List.map_eq_nil_iff.mp hnil), fun x hx => ?_, fun x hx => ?_⟩
  · obtain ⟨c, hc, rfl⟩ := List.mem_map.mp hx
    unfold swap
    by_cases hca : c = a
    · rw [if_pos hca]
      exact .inr (.inr rfl)
    · rw [if_neg hca]
      exact (h.chars c hc).imp id fun hrest => .inl (hrest.resolve_right hca)
  · rw [List.head?_map, Option.mem_map] at hx
    obtain ⟨c, hc, rfl⟩ := hx
    exact hswap c (h.first c hc)

/-- Characters are swapped back where the new one did not stand before. -/
theorem map_swap_swap {text : String} (h : b ∉ text.toList) :
    (text.map (swap a b)).map (swap b a) = text := by
  have hback : ∀ c ∈ text.toList, swap b a (swap a b c) = c := by
    intro c hc
    unfold swap
    by_cases hca : c = a
    · rw [if_pos hca, if_pos rfl, hca]
    · rw [if_neg hca, if_neg fun hcb : c = b => h (hcb ▸ hc)]
  apply String.toList_inj.mp
  rw [String.toList_map, String.toList_map, List.map_map]
  exact (List.map_congr_left hback).trans (List.map_id _)

/-! ### Names and their paths -/

/-- A name is read off its path again. -/
theorem nameOf_pathOf (h : Joined '_' name.toList) : nameOf (pathOf name) = name :=
  map_swap_swap (h.not_mem (by decide) (by decide) (by decide))

theorem pathOf_nameOf (h : Joined '.' path.toList) : pathOf (nameOf path) = path :=
  map_swap_swap (h.not_mem (by decide) (by decide) (by decide))

theorem joined_reserved (kind : Reserved) : Joined '_' kind.name.toList := by
  refine isName_iff.mp (Declaration.isIdentifier_iff.mp ?_)
  cases kind <;> decide +kernel

/-- A reserved name is its own path. -/
theorem pathOf_reserved (kind : Reserved) : pathOf kind.name = kind.name := by
  cases kind <;> decide +kernel

theorem joined_of_parse (h : Declaration.parse source = .ok d) : Joined '_' d.name.toList :=
  isName_iff.mp (Declaration.wellFormed_iff.mp
    (Declaration.wellFormed_of_read (Outcome.mapError_eq_ok_iff.mp h))).1

theorem name_eq_of_pathOf_eq (h : Declaration.parse source = .ok d) (h' : Declaration.parse source' = .ok d')
    (hpath : pathOf d.name = pathOf d'.name) : d.name = d'.name := by
  rw [← nameOf_pathOf (joined_of_parse h), hpath, nameOf_pathOf (joined_of_parse h')]

theorem isRequestable_of_asks (h : Asks source path d) : IsRequestable path := by
  have hname := joined_of_parse h.parsed
  constructor
  · rw [← h.path_eq]
    show Joined '.' (d.name.map (swap '_' '.')).toList
    rw [String.toList_map]
    exact hname.map_swap (by decide)
  · intro kind heq
    have hback : d.name = kind.name := by
      rw [← nameOf_pathOf hname, h.path_eq, heq,
        ← pathOf_reserved kind, nameOf_pathOf (joined_reserved kind),
        pathOf_reserved]
    exact Declaration.isReserved_eq_false_iff.mp h.unreserved kind hback

theorem asks_nameOf (h : IsRequestable path) : Asks (nameOf path) path ⟨nameOf path, 1⟩ := by
  have hname : IsName (nameOf path).toList := by
    rw [nameOf, String.toList_map]
    exact isName_iff.mpr (h.joined.map_swap (by decide))
  have hwrites : Declaration.Writes (nameOf path).toList ⟨nameOf path, 1⟩ := by
    have hscalar := Declaration.Writes.scalar hname
    rwa [String.ofList_toList] at hscalar
  refine ⟨Declaration.parse_eq_ok_iff.mpr hwrites, rfl, ?_, pathOf_nameOf h.joined⟩
  refine Declaration.isReserved_eq_false_iff.mpr fun kind heq => h.unreserved kind ?_
  have hpath : pathOf (nameOf path) = pathOf kind.name := congrArg pathOf heq
  rwa [pathOf_nameOf h.joined, pathOf_reserved] at hpath

end Claim

/-! ### Signals of one request -/

/-- Two claim signals of a request read two claims, at two leaves. -/
structure Apart (r : Request) (d d' : Declaration) : Prop where
  claim : Claim.pathOf d.name ≠ Claim.pathOf d'.name
  /-- In every tree of the claims that holds both. -/
  leaf : ∀ depth lookup, Claim.Accumulator.sparse.build r.claims depth = .ok lookup →
    (lookup.get (Claim.pathOf d.name)).found = true → (lookup.get (Claim.pathOf d'.name)).found = true →
      Bytes.ofLittleEndian (lookup.get (Claim.pathOf d.name)).key ≠
        Bytes.ofLittleEndian (lookup.get (Claim.pathOf d'.name)).key
  /-- In what is emitted. -/
  slot : ∀ a i j, r.accumulator = .sparse → r.build.outcome = .ok a → r.claimSignals[i]? = some d →
    r.claimSignals[j]? = some d' → ∃ depth key, r.depth? = some depth ∧ a.claimsKey = some key ∧
      Claim.slotAt depth key i ≠ Claim.slotAt depth key j

section Request
variable {r : Request} {d d' : Declaration} {depth : Nat}

theorem keys_ne_of_paths_ne (hpath : Claim.pathOf d.name ≠ Claim.pathOf d'.name) {lookup : Claim.Lookup}
    (h : Claim.Accumulator.sparse.build r.claims depth = .ok lookup)
    (hfound : (lookup.get (Claim.pathOf d.name)).found = true)
    (hfound' : (lookup.get (Claim.pathOf d'.name)).found = true) :
    Bytes.ofLittleEndian (lookup.get (Claim.pathOf d.name)).key ≠
      Bytes.ofLittleEndian (lookup.get (Claim.pathOf d'.name)).key := by
  obtain ⟨tree, htree, rfl⟩ := Claim.sparse_eq_ok_iff.mp h
  obtain ⟨value, hc⟩ := Claim.SparseTree.mem_of_found htree hfound
  obtain ⟨value', hc'⟩ := Claim.SparseTree.mem_of_found htree hfound'
  have hkey := Claim.ofLittleEndian_key htree hc
  have hkey' := Claim.ofLittleEndian_key htree hc'
  intro heq
  have hrank := hkey.symm.trans (heq.trans hkey')
  exact hpath (congrArg Prod.fst (Claim.SparseTree.rank_inj htree hc hc' hrank))

theorem slots_ne_of_paths_ne (hpath : Claim.pathOf d.name ≠ Claim.pathOf d'.name)
    (hr : r.accumulator = .sparse)
    {a : Assignment} (h : r.build.outcome = .ok a) {i j : Nat} (hi : r.claimSignals[i]? = some d)
    (hj : r.claimSignals[j]? = some d') : ∃ depth key, r.depth? = some depth ∧ a.claimsKey = some key ∧
      Claim.slotAt depth key i ≠ Claim.slotAt depth key j := by
  rw [build_outcome] at h
  obtain ⟨parts⟩ := Plan.exists_parts h
  obtain ⟨hnil, _⟩ | ⟨hne, depth, t, hdepth, ht, htree⟩ :=
    Plan.claimsTree_cases_of_sparse hr parts.claimsTree_eq
  · rw [hnil] at hi
    cases hi
  have hdiscloses := htree ▸ parts.discloses
  obtain ⟨_, hc⟩ := Plan.claim_of_discloses ht hdiscloses (List.mem_of_getElem? hi)
  obtain ⟨_, hc'⟩ := Plan.claim_of_discloses ht hdiscloses (List.mem_of_getElem? hj)
  obtain ⟨_, _, hincluded⟩ := included_of_parts ht parts htree hi
  obtain ⟨_, _, hincluded'⟩ := included_of_parts ht parts htree hj
  refine ⟨depth, _, hdepth, parts.claimsKey_eq ht htree hne, fun heq => ?_⟩
  rw [hincluded.slot_eq, hincluded'.slot_eq] at heq
  exact hpath (congrArg Prod.fst (Claim.SparseTree.rank_inj ht hc hc' heq))

theorem apart_of_parsed {source source' : String} (h : Declaration.parse source = .ok d)
    (h' : Declaration.parse source' = .ok d') (hname : d.name ≠ d'.name) : Apart r d d' := by
  have hpath : Claim.pathOf d.name ≠ Claim.pathOf d'.name := fun heq =>
    hname (Claim.name_eq_of_pathOf_eq h h' heq)
  exact ⟨hpath, fun _ _ => keys_ne_of_paths_ne hpath, fun _ _ _ hr ha => slots_ne_of_paths_ne hpath hr ha⟩

/-- **What a circuit can ask for, and under which name.** Signals that were declared in text
and have different names never read the same claim or leaf. -/
theorem claims_requestable :
    (∀ path, (∃ source d, Claim.Asks source path d) ↔ Claim.IsRequestable path) ∧
      (∀ path source source' d d', Claim.Asks source path d → Claim.Asks source' path d' → d = d') ∧
      ∀ (r : Request) (source source' : String) (d d' : Declaration), Declaration.parse source = .ok d →
        Declaration.parse source' = .ok d' → d.name ≠ d'.name → Apart r d d' := by
  refine ⟨fun path => ⟨?_, fun h => ⟨_, _, Claim.asks_nameOf h⟩⟩, ?_, ?_⟩
  · rintro ⟨source, d, h⟩
    exact Claim.isRequestable_of_asks h
  · intro path source source' d d' h h'
    have hname := Claim.name_eq_of_pathOf_eq h.parsed h'.parsed (h.path_eq.trans h'.path_eq.symm)
    have harity := h.scalar.trans h'.scalar.symm
    cases d
    cases d'
    cases hname
    cases harity
    rfl
  · exact fun r source source' d d' h h' hname => apart_of_parsed h h' hname

/-- The two claims of the request are asked for by their names, at two leaves. -/
theorem ageRequest_apart : Claim.IsRequestable "address.city" ∧
    ∃ a key, ageRequest.build.outcome = .ok a ∧
    a.claimsKey = some key ∧ Claim.slotAt 9 key 0 ≠ Claim.slotAt 9 key 1 := by
  obtain ⟨himage, _, hapart⟩ := claims_requestable
  have hbirth : Declaration.parse "birthDate" = .ok ⟨"birthDate", 1⟩ := by decide +kernel
  have hcity : Declaration.parse "address_city" = .ok ⟨"address_city", 1⟩ := by decide +kernel
  refine ⟨(himage "address.city").mp ⟨_, _, hcity, rfl, rfl, by decide +kernel⟩, ?_⟩
  obtain ⟨a, ha⟩ := ageRequest_builds
  have hdeclared := hapart ageRequest _ _ _ _ hbirth hcity (by decide)
  obtain ⟨depth, key, hdepth, hkey, hslots⟩ := hdeclared.slot a 0 1 rfl ha rfl rfl
  cases hdepth
  exact ⟨a, key, ha, hkey, hslots⟩

end Request
end Disclosure
