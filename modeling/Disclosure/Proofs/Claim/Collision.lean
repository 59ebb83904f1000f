import Disclosure.Proofs.Claim.Flattening
import Disclosure.Proofs.Claim.Contract
import Disclosure.Proofs.Text.Numeral

/-! Which subjects keep every leaf.

A dot joins keys and indices, but a key may hold dots itself, so two leaves can ask for one
path. Flattening then drops the earlier of them, and since no path repeats in what is left,
the claims tree has no duplicate to report. A subject keeps its leaves exactly when their
paths differ (`flatten_keepsLeaves_iff`), as they do where no key holds a dot
(`apart_of_dotFree`). -/
namespace Disclosure.Claim
open Json (Place Segment LeafAt)

/-- The claims tree of the subject is refused for a repeated path. -/
def ReportsDuplicate (subject : Json.Object) (depth : Nat) : Prop :=
  ∃ path, Accumulator.sparse.build (flatten subject) depth = .error (.claimsTree (.duplicate path))

/-- No leaf of the subject is lost, unless a duplicate is reported. -/
structure KeepsLeaves (subject : Json.Object) (depth : Nat) : Prop where
  kept : ∀ place leaf n, LeafAt (root subject) place leaf → encode leaf = .ok (some n) →
    ReportsDuplicate subject depth ∨ (dotted place, n) ∈ flatten subject
  /-- Leaves at two places are not merged into one claim. -/
  unmerged : ∀ p v q w, LeafAt (root subject) p v → LeafAt (root subject) q w → p ≠ q →
    ReportsDuplicate subject depth ∨ claimOf (p, v) ≠ claimOf (q, w)

/-- Leaves at different places have different paths. -/
def Apart (subject : Json.Object) : Prop :=
  ∀ p v q w, LeafAt (root subject) p v → LeafAt (root subject) q w → dotted p = dotted q → p = q

/-- No key on the way to a leaf holds a dot. -/
def DotFree (subject : Json.Object) : Prop :=
  ∀ place leaf, LeafAt (root subject) place leaf →
    ∀ key, Segment.key key ∈ place → '.' ∉ key.toList

/-! ### Joined places -/

theorem segmentText_dotFree {segment : Segment} (h : ∀ key, segment = .key key → '.' ∉ key.toList) :
    '.' ∉ (segmentText segment).toList := by
  cases segment with
  | key key => exact h key rfl
  | index i =>
    intro hdot
    exact absurd (Decimal.isDigit_of_mem_write hdot) (by decide)

/-- Without dots in its parts a path splits into them again. -/
theorem splitOn_dotted {place : Place} (hne : place ≠ [])
    (h : ∀ key, Segment.key key ∈ place → '.' ∉ key.toList) :
    (dotted place).toList.splitOn '.' = place.map fun segment => (segmentText segment).toList := by
  rw [dotted, String.toList_intercalate, List.map_map]
  refine List.splitOn_intercalate '.' (fun part hpart => ?_) (by simpa using hne)
  obtain ⟨segment, hsegment, rfl⟩ := List.mem_map.mp hpart
  exact segmentText_dotFree fun key hkey => h key (hkey ▸ hsegment)

/-- Two ways down one value are the same when they read the same, since a container is
entered by keys or by indices alone. -/
theorem place_eq_of_texts {value v w : Json} {p q : Place} (hp : value.valueAt? p = some v)
    (hq : value.valueAt? q = some w)
    (htexts : p.map (fun s => (segmentText s).toList) = q.map fun s => (segmentText s).toList) : p = q := by
  induction p generalizing value q with
  | nil => exact (List.map_eq_nil_iff.mp htexts.symm).symm
  | cons a p ih =>
    cases q with
    | nil => cases htexts
    | cons b q =>
      rw [List.map_cons, List.map_cons, List.cons.injEq, String.toList_inj] at htexts
      obtain ⟨hfirst, hrest⟩ := htexts
      cases value with
      | array items =>
        cases a with
        | key key => cases hp
        | index i =>
          cases b with
          | key key => cases hq
          | index j =>
            obtain rfl : i = j := Decimal.write_injective hfirst
            obtain ⟨item, hitem, hp⟩ := Option.bind_eq_some_iff.mp hp
            obtain ⟨item', hitem', hq⟩ := Option.bind_eq_some_iff.mp hq
            obtain rfl := Option.some.inj (hitem.symm.trans hitem')
            rw [ih hp hq hrest]
      | object members =>
        cases a with
        | index i => cases hp
        | key key =>
          cases b with
          | index j => cases hq
          | key other =>
            obtain rfl : key = other := hfirst
            obtain ⟨member, hmember, hp⟩ := Option.bind_eq_some_iff.mp hp
            obtain ⟨member', hmember', hq⟩ := Option.bind_eq_some_iff.mp hq
            obtain rfl := Option.some.inj (hmember.symm.trans hmember')
            rw [ih hp hq hrest]
      | _ => cases a <;> cases hp

variable {subject : Json.Object} {depth : Nat}

/-- The subject itself is no leaf. -/
theorem place_ne_nil {place : Place} {leaf : Json} (h : LeafAt (root subject) place leaf) : place ≠ [] := by
  rintro rfl
  obtain ⟨hat, hleaf⟩ := h
  cases hat
  cases hleaf

/-- **Paths are apart where no key holds a dot.** -/
theorem apart_of_dotFree (h : DotFree subject) : Apart subject := by
  intro p v q w hp hq hjoin
  have hsplit := splitOn_dotted (place_ne_nil hp) (h p v hp)
  rw [hjoin, splitOn_dotted (place_ne_nil hq) (h q w hq)] at hsplit
  exact place_eq_of_texts hp.1 hq.1 hsplit.symm

/-! ### Leaves that are kept -/

/-- Flattened claims repeat no path, so the check for duplicates finds none. -/
theorem not_reportsDuplicate : ¬ ReportsDuplicate subject depth := by
  rintro ⟨path, h⟩
  cases SparseTree.refused_of_build (sparse_eq_error_iff.mp h) with
  | duplicate _ _ hrepeated => exact hrepeated.repeated.not_nodup (flatten_nodup subject)

theorem keepsLeaves_of_apart (h : Apart subject) : KeepsLeaves subject depth where
  kept place leaf n hleaf hencode := by
    refine .inr
      (mem_flatten_iff.mpr ⟨place, leaf, ⟨hleaf, rfl, fun other v hother hjoin => ?_⟩, hencode⟩)
    exact .inl (h other v place leaf hother hleaf hjoin)
  unmerged p v q w hp hq hne := .inr fun hclaim => hne (h p v q w hp hq (congrArg Prod.fst hclaim))

theorem apart_of_keepsLeaves (h : KeepsLeaves subject depth) : Apart subject := by
  intro p v q w hp hq hjoin
  by_contra hne
  have hv := (h.kept p v _ hp (encode_of_isLeaf hp.2)).resolve_left not_reportsDuplicate
  have hw := (h.kept q w _ hq (encode_of_isLeaf hq.2)).resolve_left not_reportsDuplicate
  have hnumbers : number v = number w := by
    rw [← Keyed.find?_eq_some_iff (flatten_ordered subject)] at hv hw
    rw [hjoin, hw] at hv
    exact (Option.some.inj hv).symm
  exact (h.unmerged p v q w hp hq hne).resolve_left not_reportsDuplicate (Prod.ext hjoin hnumbers)

/-- **A subject keeps every leaf exactly when their paths are apart**, and keys without dots are
enough for that. -/
theorem flatten_keepsLeaves_iff (subject : Json.Object) (depth : Nat) :
    (KeepsLeaves subject depth ↔ Apart subject) ∧ (DotFree subject → KeepsLeaves subject depth) :=
  ⟨⟨apart_of_keepsLeaves, keepsLeaves_of_apart⟩, fun h => keepsLeaves_of_apart (apart_of_dotFree h)⟩

/-- A name, and an address of two parts, the second a list. -/
def addressed : Json.Object where
  members :=
    [("address", .object
      [("city", .string "Oslo"), ("lines", .array [.string "a", .null, .string "b"])]),
     ("name", .string "Ada")]
  ordered := by
    unfold Json.OrderedObject Keyed.Ordered
    refine ⟨by decide, ⟨?_, trivial, ⟨trivial, trivial, trivial, trivial⟩, trivial⟩,
      trivial, trivial⟩
    unfold Keyed.Ordered
    decide

/-- The subject with nested keys keeps its leaves. -/
theorem addressed_keepsLeaves : DotFree addressed ∧ KeepsLeaves addressed 2 := by
  have hfree : DotFree addressed := by
    have hall : ∀ found ∈ (root addressed).leaves,
        ∀ key, Segment.key key ∈ found.1 → '.' ∉ key.toList := by
      show ∀ found ∈ [([Segment.key "address", .key "city"], Json.string "Oslo"),
        ([.key "address", .key "lines", .index 0], .string "a"),
        ([.key "address", .key "lines", .index 2], .string "b"), ([.key "name"], .string "Ada")],
        ∀ key, Segment.key key ∈ found.1 → '.' ∉ key.toList
      simp
    exact fun place leaf h => hall _ ((Json.mem_leaves (ordered_root addressed)).mpr h)
  exact ⟨hfree, (flatten_keepsLeaves_iff addressed 2).2 hfree⟩

/-- Two leaves under one path: a key with a dot, and a key under a key. -/
def dottedKey : Json.Object where
  members := [("a", .object [("b", .number (.natural 2))]), ("a.b", .number (.natural 1))]
  ordered := by
    unfold Json.OrderedObject Keyed.Ordered
    refine ⟨by decide, ⟨?_, trivial, trivial⟩, trivial, trivial⟩
    unfold Keyed.Ordered
    decide

/-- The leaf of the nested key is dropped, and at no depth is the repeated path reported. -/
theorem dottedKey_loses : flatten dottedKey = [("a.b", 1)] ∧
    LeafAt (root dottedKey) [.key "a", .key "b"] (.number (.natural 2)) ∧
    ∀ depth, ¬ ReportsDuplicate dottedKey depth ∧ ¬ KeepsLeaves dottedKey depth := by
  have hleaf : LeafAt (root dottedKey) [.key "a", .key "b"] (.number (.natural 2)) :=
    ⟨rfl, rfl⟩
  refine ⟨by decide, hleaf, fun depth => ⟨not_reportsDuplicate, fun h => ?_⟩⟩
  have hkept := (h.kept _ _ 2 hleaf rfl).resolve_left not_reportsDuplicate
  have hnot : (dotted [.key "a", .key "b"], 2) ∉ flatten dottedKey := by decide
  exact hnot hkept

end Disclosure.Claim
