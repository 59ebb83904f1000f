import Disclosure.Keyed
import Mathlib.Data.List.Nodup

/-! Looking keys up.

`find?` answers with the first entry of a key and `ofList` keeps the last one
(`find?_ofList`). Where no key repeats, both come to the one entry there is. -/
namespace Disclosure.Keyed

variable {entries : List (String × α)}

theorem find?_cons (key : String) (e : String × α) (rest : List (String × α)) :
    find? key (e :: rest) = if e.1 = key then some e.2 else find? key rest := by
  unfold find?
  by_cases h : e.1 = key <;> simp [h]

theorem find?_append (key : String) (a b : List (String × α)) :
    find? key (a ++ b) = (find? key a).or (find? key b) := by
  unfold find?
  rw [List.find?_append, Option.map_or]

/-- What is set is found, and no other key is touched. -/
theorem find?_insert (key k : String) (value : α) (entries : List (String × α)) :
    find? key (insert k value entries) = if k = key then some value else find? key entries := by
  induction entries with
  | nil => rw [insert, find?_cons]
  | cons e rest ih =>
    rw [insert]
    split
    · rw [find?_cons]
    · split
      · rename_i heq
        rw [find?_cons, find?_cons, ← heq]
        by_cases h : k = key <;> simp [h]
      · rename_i hne
        rw [find?_cons, find?_cons, ih]
        by_cases h : e.1 = key
        · rw [if_pos h, if_neg fun hk => hne (hk.trans h.symm), if_pos h]
        · rw [if_neg h, if_neg h]

theorem find?_foldl (key : String) (entries sorted : List (String × α)) :
    find? key (entries.foldl (fun sorted e => insert e.1 e.2 sorted) sorted) =
      (find? key entries.reverse).or (find? key sorted) := by
  induction entries generalizing sorted with
  | nil => rfl
  | cons e rest ih =>
    rw [List.foldl_cons, ih, find?_insert, List.reverse_cons, find?_append, Option.or_assoc, find?_cons]
    split <;> rfl

/-- **The last of repeated keys wins.** -/
theorem find?_ofList (key : String) (entries : List (String × α)) :
    find? key (ofList entries) = find? key entries.reverse := by
  rw [ofList, find?_foldl]
  exact Option.or_none

/-! ### Where no key repeats -/

theorem find?_of_mem (h : (entries.map (·.1)).Nodup)
    {key : String} {value : α} (hmem : (key, value) ∈ entries) :
    find? key entries = some value := by
  induction entries with
  | nil => cases hmem
  | cons e rest ih =>
    obtain ⟨hfirst, hrest⟩ := List.nodup_cons.mp h
    rw [find?_cons]
    rcases List.mem_cons.mp hmem with rfl | hmem
    · exact if_pos rfl
    · rw [if_neg, ih hrest hmem]
      intro heq
      exact hfirst (List.mem_map.mpr ⟨_, hmem, heq.symm⟩)

theorem find?_ofList_of_mem (h : (entries.map (·.1)).Nodup) {key : String} {value : α}
    (hmem : (key, value) ∈ entries) : find? key (ofList entries) = some value := by
  rw [find?_ofList]
  refine find?_of_mem ?_ (List.mem_reverse.mpr hmem)
  rw [List.map_reverse]
  exact List.nodup_reverse.mpr h

/-! ### Ordered entries -/

theorem nodup_of_ordered (h : Ordered entries) : (entries.map (·.1)).Nodup := by
  rw [List.nodup_iff_pairwise_ne, List.pairwise_map]
  refine h.imp fun {a b} hlt heq => ?_
  rw [heq] at hlt
  exact String.lt_irrefl b.1 hlt

theorem mem_of_find? {key : String} {value : α}
    (h : find? key entries = some value) : (key, value) ∈ entries := by
  obtain ⟨e, he, rfl⟩ := Option.map_eq_some_iff.mp h
  have hkey : e.1 = key :=
    of_decide_eq_true (List.find?_some (p := fun e : String × α => decide (e.1 = key)) he)
  exact hkey ▸ List.mem_of_find?_eq_some he

theorem find?_eq_some_iff (h : Ordered entries) {key : String} {value : α} :
    find? key entries = some value ↔ (key, value) ∈ entries :=
  ⟨mem_of_find?, find?_of_mem (nodup_of_ordered h)⟩

/-- An entry beyond all others goes to the end. -/
theorem insert_of_lt {key : String} (value : α) (h : ∀ e ∈ entries, e.1 < key) :
    insert key value entries = entries ++ [(key, value)] := by
  induction entries with
  | nil => rfl
  | cons e rest ih =>
    obtain ⟨hlt, hrest⟩ := List.forall_mem_cons.mp h
    rw [insert, if_neg (String.lt_asymm hlt), if_neg (String.ne_of_lt hlt).symm, ih hrest, List.cons_append]

theorem foldl_of_ordered {sorted : List (String × α)} (h : Ordered (sorted ++ entries)) :
    entries.foldl (fun sorted e => insert e.1 e.2 sorted) sorted = sorted ++ entries := by
  induction entries generalizing sorted with
  | nil => exact (List.append_nil sorted).symm
  | cons e rest ih =>
    have hbelow := (List.pairwise_append.mp h).2.2
    rw [List.foldl_cons, insert_of_lt e.2 fun e' he' => hbelow e' he' e List.mem_cons_self]
    rw [ih (by rwa [List.append_assoc]), List.append_assoc]
    rfl

theorem ofList_of_ordered (h : Ordered entries) : ofList entries = entries :=
  foldl_of_ordered h

end Disclosure.Keyed
