import Mathlib.Data.List.Forall2

/-! Outcomes of checks made one after the other.

A check gives a result or an error; checks in sequence stop at the first error, and `reached`
lists the members they come to.
`FirstOf` compares an outcome with a list of faults that is written down without running
anything: the outcome is the first of them, and a result when there is none. `First` is the
member at fault, and `Errs` says what errors there can be. `Alike` compares two outcomes with
each other: the same error, or results that are related. -/
namespace Disclosure.Outcome

theorem bind_eq_ok_iff {x : Except ε α} {f : α → Except ε β} {b : β} :
    x >>= f = .ok b ↔ ∃ a, x = .ok a ∧ f a = .ok b := by
  cases x with
  | error e => exact ⟨nofun, nofun⟩
  | ok a => exact ⟨fun h => ⟨a, rfl, h⟩, fun ⟨_, ha, h⟩ => by cases ha; exact h⟩

theorem bind_eq_error_iff {x : Except ε α} {f : α → Except ε β} {e : ε} :
    x >>= f = .error e ↔ x = .error e ∨ ∃ a, x = .ok a ∧ f a = .error e := by
  cases x with
  | error e' =>
    refine ⟨fun h => .inl (by cases h; rfl), ?_⟩
    rintro (h | ⟨_, ha, _⟩)
    · cases h
      rfl
    · cases ha
  | ok a =>
    refine ⟨fun h => .inr ⟨a, rfl, h⟩, ?_⟩
    rintro (h | ⟨_, ha, h⟩)
    · cases h
    · cases ha
      exact h

theorem mapError_eq_error_iff {x : Except ε α} {f : ε → ε'} {e : ε'} :
    x.mapError f = .error e ↔ ∃ e', x = .error e' ∧ f e' = e := by
  cases x with
  | ok a => exact ⟨nofun, nofun⟩
  | error e' =>
    constructor
    · intro h
      cases h
      exact ⟨e', rfl, rfl⟩
    · rintro ⟨_, he, rfl⟩
      cases he
      rfl

theorem mapError_eq_ok_iff {x : Except ε α} {f : ε → ε'} {a : α} :
    x.mapError f = .ok a ↔ x = .ok a := by
  cases x with
  | error e => exact ⟨nofun, nofun⟩
  | ok a' => exact ⟨fun h => by cases h; rfl, fun h => by cases h; rfl⟩

@[simp] theorem ok_bind (a : α) (f : α → Except ε β) : (.ok a >>= f) = f a := rfl

theorem bind_some_ne_none (x : Except ε α) (f : α → β) :
    (x >>= fun a => .ok (some (f a))) ≠ .ok none := by
  cases x <;> nofun

theorem mapM_eq_ok_iff {f : α → Except ε β} {as : List α} {bs : List β} :
    as.mapM f = .ok bs ↔ List.Forall₂ (fun a b => f a = .ok b) as bs := by
  induction as generalizing bs with
  | nil =>
    rw [List.mapM_nil, List.forall₂_nil_left_iff]
    exact ⟨fun h => by cases h; rfl, fun h => by rw [h]; rfl⟩
  | cons a rest ih =>
    rw [List.mapM_cons, bind_eq_ok_iff]
    constructor
    · rintro ⟨b, hb, h⟩
      obtain ⟨bs', hbs, h⟩ := bind_eq_ok_iff.mp h
      cases h
      exact .cons hb (ih.mp hbs)
    · intro h
      cases h with
      | cons hb hrest => exact ⟨_, hb, bind_eq_ok_iff.mpr ⟨_, ih.mpr hrest, rfl⟩⟩

theorem mapM_congr {f g : α → Except ε β} {as : List α}
    (h : ∀ a ∈ as, f a = g a) : as.mapM f = as.mapM g := by
  induction as with
  | nil => rfl
  | cons a rest ih =>
    rw [List.mapM_cons, List.mapM_cons, h a List.mem_cons_self,
      ih fun b hb => h b (List.mem_cons_of_mem a hb)]

/-! ### How far checks come -/

/-- What comes after a result; after an error nothing does. -/
def after (x : Except ε α) (next : α → List β) : List β :=
  match x with
  | .ok a => next a
  | .error _ => []

@[simp] theorem after_nil (x : Except ε α) : after x (fun _ => ([] : List β)) = [] := by
  cases x <;> rfl

theorem mem_after {x : Except ε α} {next : α → List β} {b : β} :
    b ∈ after x next ↔ ∃ a, x = .ok a ∧ b ∈ next a := by
  cases x with
  | ok a => exact ⟨fun h => ⟨a, rfl, h⟩, fun ⟨_, ha, h⟩ => by cases ha; exact h⟩
  | error e => exact ⟨nofun, nofun⟩

/-- The members up to the first one that the check refuses, and that one. -/
def reached (check : α → Except ε β) : List α → List α
  | [] => []
  | a :: rest => a :: after (check a) fun _ => reached check rest

/-! ### The first fault -/

/-- The outcome that a list of faults foretells. -/
def FirstOf (faults : List ε) : Except ε α → Prop
  | .ok _ => faults = []
  | .error e => faults.head? = some e

/-- The fault of one outcome. -/
def faultsOf : Except ε α → List ε
  | .ok _ => []
  | .error e => [e]

@[simp] theorem faultsOf_eq_nil_iff {x : Except ε α} : faultsOf x = [] ↔ ∃ a, x = .ok a := by
  cases x with
  | ok a => exact ⟨fun _ => ⟨a, rfl⟩, fun _ => rfl⟩
  | error e => exact ⟨nofun, nofun⟩

namespace FirstOf

theorem refl (x : Except ε α) : FirstOf (faultsOf x) x := by
  cases x <;> rfl

theorem ok (a : α) : FirstOf ([] : List ε) (.ok a) := rfl

theorem error (e : ε) (rest : List ε) : FirstOf (e :: rest) (.error e : Except ε α) := rfl

theorem error_iff {faults : List ε} {x : Except ε α} (h : FirstOf faults x) (e : ε) :
    x = .error e ↔ faults.head? = some e := by
  cases x with
  | ok a =>
    have hnil : faults = [] := h
    rw [hnil]
    exact ⟨nofun, nofun⟩
  | error e' =>
    have hhead : faults.head? = some e' := h
    rw [hhead]
    exact ⟨fun h => by cases h; rfl, fun h => by cases h; rfl⟩

theorem ok_iff {faults : List ε} {x : Except ε α} (h : FirstOf faults x) :
    (∃ a, x = .ok a) ↔ faults = [] := by
  cases x with
  | ok a => exact ⟨fun _ => h, fun _ => ⟨a, rfl⟩⟩
  | error e =>
    have hhead : faults.head? = some e := h
    refine ⟨nofun, fun hnil => ?_⟩
    rw [hnil] at hhead
    cases hhead

/-- The same question on both sides. -/
theorem ite {c : Prop} [Decidable c] {faults others : List ε} {x y : Except ε α}
    (hx : c → FirstOf faults x) (hy : ¬c → FirstOf others y) :
    FirstOf (if c then faults else others) (if c then x else y) := by
  by_cases h : c
  · rw [if_pos h, if_pos h]
    exact hx h
  · rw [if_neg h, if_neg h]
    exact hy h

/-- One check after another; the second is only made when the first gave a result. -/
theorem bind {faults others : List ε} {x : Except ε α} {f : α → Except ε β} (hx : FirstOf faults x)
    (hf : ∀ a, x = .ok a → FirstOf others (f a)) : FirstOf (faults ++ others) (x >>= f) := by
  cases x with
  | ok a =>
    have hnil : faults = [] := hx
    rw [hnil, List.nil_append]
    exact hf a rfl
  | error e =>
    have hhead : faults.head? = some e := hx
    show (faults ++ others).head? = some e
    rw [List.head?_append, hhead]
    rfl

theorem map {faults : List ε} {x : Except ε α} (hx : FirstOf faults x) (f : α → β) :
    FirstOf faults (x >>= fun a => .ok (f a)) := by
  have h : FirstOf (faults ++ []) (x >>= fun a => .ok (f a)) := hx.bind fun a _ => ok (f a)
  rwa [List.append_nil] at h

/-- The same check of every member, in order. -/
theorem mapM {faults : α → List ε} {f : α → Except ε β} {as : List α}
    (h : ∀ a ∈ as, FirstOf (faults a) (f a)) : FirstOf (as.flatMap faults) (as.mapM f) := by
  induction as with
  | nil => exact ok []
  | cons a rest ih =>
    rw [List.mapM_cons, List.flatMap_cons]
    refine (h a List.mem_cons_self).bind fun b _ => ?_
    exact (ih fun c hc => h c (List.mem_cons_of_mem a hc)).map (b :: ·)

end FirstOf

theorem exists_error_iff {x : Except ε α} : (∃ e, x = .error e) ↔ ¬∃ a, x = .ok a := by
  cases x with
  | ok a => exact ⟨nofun, fun h => absurd ⟨a, rfl⟩ h⟩
  | error e => exact ⟨fun _ => nofun, fun _ => ⟨e, rfl⟩⟩

/-- Members are all checked when each of them passes. -/
theorem exists_mapM_iff {f : α → Except ε β} {as : List α} :
    (∃ bs, as.mapM f = .ok bs) ↔ ∀ a ∈ as, ∃ b, f a = .ok b := by
  rw [(FirstOf.mapM fun a _ => FirstOf.refl (f a)).ok_iff, List.flatMap_eq_nil_iff]
  exact forall₂_congr fun a _ => faultsOf_eq_nil_iff

/-! ### The member at fault -/

/-- The first member of a list that has a property. -/
def First (P : α → Prop) (as : List α) (a : α) : Prop :=
  ∃ before after, as = before ++ a :: after ∧ P a ∧ ∀ b ∈ before, ¬P b

theorem first_cons_iff {P : α → Prop} {a b : α} {as : List α} :
    First P (b :: as) a ↔ (P b ∧ b = a) ∨ ¬P b ∧ First P as a := by
  constructor
  · rintro ⟨before, after, hsplit, ha, hbefore⟩
    cases before with
    | nil =>
      cases hsplit
      exact .inl ⟨ha, rfl⟩
    | cons c before =>
      cases hsplit
      obtain ⟨hb, hrest⟩ := List.forall_mem_cons.mp hbefore
      exact .inr ⟨hb, before, after, rfl, ha, hrest⟩
  · rintro (⟨hb, rfl⟩ | ⟨hb, before, after, rfl, ha, hbefore⟩)
    · exact ⟨[], as, rfl, hb, nofun⟩
    · exact ⟨b :: before, after, rfl, ha, List.forall_mem_cons.mpr ⟨hb, hbefore⟩⟩

theorem exists_first_iff {P : α → Prop} {as : List α} : (∃ a, First P as a) ↔ ∃ a ∈ as, P a := by
  constructor
  · rintro ⟨a, before, after, rfl, ha, _⟩
    exact ⟨a, List.mem_append_right before List.mem_cons_self, ha⟩
  · intro h
    induction as with
    | nil => exact absurd h nofun
    | cons b rest ih =>
      by_cases hb : P b
      · exact ⟨b, first_cons_iff.mpr (.inl ⟨hb, rfl⟩)⟩
      · obtain ⟨a, hmem, ha⟩ := h
        have hrest : a ∈ rest := (List.mem_cons.mp hmem).resolve_left fun heq => hb (heq ▸ ha)
        obtain ⟨c, hc⟩ := ih ⟨a, hrest, ha⟩
        exact ⟨c, first_cons_iff.mpr (.inr ⟨hb, hc⟩)⟩

theorem find?_eq_some_iff_first {P : α → Prop} {p : α → Bool}
    (h : ∀ a, p a = true ↔ P a) {as : List α} {a : α} :
    as.find? p = some a ↔ First P as a := by
  rw [List.find?_eq_some_iff_append]
  constructor
  · rintro ⟨ha, before, after, hsplit, hbefore⟩
    refine ⟨before, after, hsplit, (h a).mp ha, fun b hb hP => ?_⟩
    have hfalse := hbefore b hb
    rw [(h b).mpr hP] at hfalse
    cases hfalse
  · rintro ⟨before, after, hsplit, ha, hbefore⟩
    refine ⟨(h a).mpr ha, before, after, hsplit, fun b hb => ?_⟩
    rw [Bool.not_eq_true', Bool.eq_false_iff]
    exact fun hp => hbefore b hb ((h b).mp hp)

/-- Checks of all members fail with the error of the first member that is refused. -/
theorem mapM_eq_error_iff {f : α → Except ε β} {as : List α} {e : ε} :
    as.mapM f = .error e ↔ ∃ a, First (fun a => ∀ b, f a ≠ .ok b) as a ∧ f a = .error e := by
  induction as with
  | nil =>
    refine ⟨nofun, ?_⟩
    rintro ⟨a, ⟨before, after, hsplit, _⟩, _⟩
    exact absurd hsplit.symm (by simp)
  | cons a rest ih =>
    rw [List.mapM_cons, bind_eq_error_iff]
    simp only [first_cons_iff]
    cases ha : f a with
    | error e' =>
      constructor
      · rintro (h | ⟨_, hok, _⟩)
        · exact ⟨a, .inl ⟨nofun, rfl⟩, ha.trans h⟩
        · cases hok
      · rintro ⟨c, ⟨_, rfl⟩ | ⟨hpass, _⟩, hc⟩
        · exact .inl (ha.symm.trans hc)
        · exact absurd nofun hpass
    | ok b =>
      have hpass : ¬∀ b', (.ok b : Except ε β) ≠ .ok b' := fun h => h b rfl
      constructor
      · rintro (h | ⟨_, _, h⟩)
        · cases h
        · obtain h | ⟨_, _, h⟩ := bind_eq_error_iff.mp h
          · obtain ⟨c, hfirst, hc⟩ := ih.mp h
            exact ⟨c, .inr ⟨hpass, hfirst⟩, hc⟩
          · cases h
      · rintro ⟨c, ⟨hfail, _⟩ | ⟨_, hfirst⟩, hc⟩
        · exact absurd hfail hpass
        · exact .inr ⟨b, rfl, bind_eq_error_iff.mpr (.inl (ih.mpr ⟨c, hfirst, hc⟩))⟩

/-! ### What errors there can be -/

/-- The error of an outcome, if it is one, has a property. -/
def Errs (P : ε → Prop) : Except ε α → Prop
  | .ok _ => True
  | .error e => P e

namespace Errs
variable {P : ε → Prop} {x : Except ε α}

theorem of_error (h : Errs P x) {e : ε} (he : x = .error e) : P e := by
  rw [he] at h
  exact h

theorem of_forall (h : ∀ e, x = .error e → P e) : Errs P x := by
  cases x with
  | ok a => trivial
  | error e => exact h e rfl

theorem mono {Q : ε → Prop} (hx : Errs P x) (h : ∀ e, P e → Q e) : Errs Q x :=
  of_forall fun e he => h e (hx.of_error he)

theorem bind {f : α → Except ε β} (hx : Errs P x) (hf : ∀ a, Errs P (f a)) : Errs P (x >>= f) := by
  cases x with
  | ok a => exact hf a
  | error e => exact hx

theorem mapM {f : α → Except ε β} (h : ∀ a, Errs P (f a)) (as : List α) : Errs P (as.mapM f) := by
  induction as with
  | nil => trivial
  | cons a rest ih =>
    rw [List.mapM_cons]
    exact (h a).bind fun _ => ih.bind fun _ => trivial

theorem map (hx : Errs P x) (f : α → β) : Errs P (x.map f) := by
  cases x with
  | ok a => trivial
  | error e => exact hx

theorem mapError {Q : ε' → Prop} (f : ε → ε') (h : ∀ e, Q (f e)) : Errs Q (x.mapError f) := by
  cases x with
  | ok a => trivial
  | error e => exact h e

end Errs

/-! ### Two outcomes -/

/-- Both are the same error, or both are results and these are related. -/
inductive Alike (R : α → β → Prop) : Except ε α → Except ε β → Prop
  | ok {a : α} {b : β} (h : R a b) : Alike R (.ok a) (.ok b)
  | error (e : ε) : Alike R (.error e) (.error e)

namespace Alike
variable {R : α → β → Prop} {S : γ → δ → Prop} {x : Except ε α} {y : Except ε β}

theorem refl (x : Except ε α) : Alike Eq x x := by
  cases x with
  | ok a => exact .ok rfl
  | error e => exact .error e

theorem bind {f : α → Except ε γ} {g : β → Except ε δ} (h : Alike R x y)
    (hf : ∀ a b, R a b → Alike S (f a) (g b)) : Alike S (x >>= f) (y >>= g) := by
  cases h with
  | ok h => exact hf _ _ h
  | error e => exact .error e

/-- The other outcome of one that is a result. -/
theorem exists_of_ok (h : Alike R x y) {a : α} (ha : x = .ok a) : ∃ b, y = .ok b ∧ R a b := by
  cases h with
  | ok h => cases ha; exact ⟨_, rfl, h⟩
  | error e => cases ha

end Alike

/-! ### Results against what they are of -/

section Related
variable {R : α → β → Prop} {as : List α} {bs : List β}

theorem exists_right (h : List.Forall₂ R as bs) {a : α} (ha : a ∈ as) : ∃ b ∈ bs, R a b := by
  induction h with
  | nil => cases ha
  | cons hab _ ih =>
    rcases List.mem_cons.mp ha with rfl | ha
    · exact ⟨_, List.mem_cons_self, hab⟩
    · obtain ⟨b, hb, hR⟩ := ih ha
      exact ⟨b, List.mem_cons_of_mem _ hb, hR⟩

theorem exists_left (h : List.Forall₂ R as bs) {b : β} (hb : b ∈ bs) : ∃ a ∈ as, R a b :=
  exists_right (R := flip R) (List.Forall₂.flip h) hb

/-- Where a property does not change from a member to its result, the first members that have it go
together. -/
theorem exists_first_left {P : α → Prop} {Q : β → Prop} (h : List.Forall₂ R as bs)
    (hPQ : ∀ a b, R a b → (P a ↔ Q b)) {b : β} (hb : First Q bs b) :
    ∃ a, First P as a ∧ R a b := by
  induction h with
  | nil => exact absurd (exists_first_iff.mp ⟨b, hb⟩) nofun
  | @cons a c as bs hac _ ih =>
    obtain ⟨hc, rfl⟩ | ⟨hc, hb⟩ := first_cons_iff.mp hb
    · exact ⟨a, first_cons_iff.mpr (.inl ⟨(hPQ a c hac).mpr hc, rfl⟩), hac⟩
    · obtain ⟨a', hfirst, hR⟩ := ih hb
      exact ⟨a', first_cons_iff.mpr (.inr ⟨fun hP => hc ((hPQ a c hac).mp hP), hfirst⟩), hR⟩

theorem exists_first_right {P : α → Prop} {Q : β → Prop} (h : List.Forall₂ R as bs)
    (hPQ : ∀ a b, R a b → (P a ↔ Q b)) {a : α} (ha : First P as a) : ∃ b, First Q bs b ∧ R a b :=
  exists_first_left (R := flip R) (List.Forall₂.flip h) (fun b a hR => (hPQ a b hR).symm) ha

end Related
end Disclosure.Outcome
