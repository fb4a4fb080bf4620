import Mathlib.Data.List.Forall2

/-!
# `Roster.Proofs.Outcome`: when a computation that may fail succeeds, and how it fails

A sequence succeeds exactly if all its parts do. `bind_eq_ok_iff` takes it apart at one place;
`mapM_eq_ok_iff` does so for a list, where the parts pair the entries with their results, and
`exists_mapM_eq_ok_iff` where the results do not matter.

A sequence fails as the first of its parts that fails: `bind_eq_error_iff` at one place,
`mapM_eq_error_iff` for a list, where all entries before the failing one have results
(`mapM_zipIdx_eq_error_iff` if the places of the entries matter). So two sequences fail alike, with
whatever results they succeed, if their parts do (`FailsAlike.bind`, `FailsAlike.mapM`).
-/

set_option autoImplicit false

namespace Roster

variable {ε α β : Type}

/-- A sequence succeeds if its first part does, and its second with what the first gave. -/
theorem bind_eq_ok_iff {x : Except ε α} {f : α → Except ε β} {b : β} :
    x >>= f = .ok b ↔ ∃ a, x = .ok a ∧ f a = .ok b := by
  cases x with
  | error e => exact ⟨fun h => (nomatch h), fun ⟨_, h, _⟩ => (nomatch h)⟩
  | ok a =>
    constructor
    · intro h
      exact ⟨a, rfl, h⟩
    · rintro ⟨a', ha, h⟩
      cases ha
      exact h

/-- A sequence fails if its first part does, or its second with what the first gave. -/
theorem bind_eq_error_iff {x : Except ε α} {f : α → Except ε β} {e : ε} :
    x >>= f = .error e ↔ x = .error e ∨ ∃ a, x = .ok a ∧ f a = .error e := by
  cases x with
  | error e' =>
    constructor
    · intro h
      cases h
      exact .inl rfl
    · rintro (h | ⟨_, h, _⟩)
      · cases h
        rfl
      · cases h
  | ok a =>
    constructor
    · intro h
      exact .inr ⟨a, rfl, h⟩
    · rintro (h | ⟨a', ha, h⟩)
      · cases h
      · cases ha
        exact h

/-- A result that is changed afterwards is there if it was there before. -/
theorem map_eq_ok_iff {x : Except ε α} {f : α → β} {b : β} :
    x.map f = .ok b ↔ ∃ a, x = .ok a ∧ f a = b := by
  cases x <;> simp [Except.map]

/-- Changing a result leaves a failure as it is. -/
theorem map_eq_error_iff {x : Except ε α} {f : α → β} {e : ε} :
    x.map f = .error e ↔ x = .error e := by
  cases x <;> simp [Except.map]

/-- All entries of a list have results exactly if each has its own. -/
theorem mapM_eq_ok_iff {f : α → Except ε β} {xs : List α} {ys : List β} :
    xs.mapM f = .ok ys ↔ List.Forall₂ (fun x y => f x = .ok y) xs ys := by
  induction xs generalizing ys with
  | nil =>
    constructor
    · intro h
      cases h
      exact .nil
    · intro h
      cases h
      rfl
  | cons x xs ih =>
    rw [List.mapM_cons, bind_eq_ok_iff]
    constructor
    · rintro ⟨y, hy, h⟩
      obtain ⟨ys', hys, h⟩ := bind_eq_ok_iff.1 h
      cases h
      exact .cons hy (ih.1 hys)
    · intro h
      cases h with
      | cons hy hys => exact ⟨_, hy, bind_eq_ok_iff.2 ⟨_, ih.2 hys, rfl⟩⟩

/-- A list has results exactly if each of its entries has one. -/
theorem exists_mapM_eq_ok_iff {f : α → Except ε β} {xs : List α} :
    (∃ ys, xs.mapM f = .ok ys) ↔ ∀ x ∈ xs, ∃ y, f x = .ok y := by
  simp only [mapM_eq_ok_iff]
  constructor
  · rintro ⟨ys, h⟩ x hx
    induction h with
    | nil => cases hx
    | cons hy _ ih =>
      rcases List.mem_cons.1 hx with rfl | hx
      · exact ⟨_, hy⟩
      · exact ih hx
  · intro h
    induction xs with
    | nil => exact ⟨[], .nil⟩
    | cons x xs ih =>
      obtain ⟨y, hy⟩ := h x List.mem_cons_self
      obtain ⟨ys, hys⟩ := ih fun x' hx' => h x' (List.mem_cons_of_mem x hx')
      exact ⟨y :: ys, .cons hy hys⟩

/-- A list fails as its first entry that has no result. All entries before it have results, whatever
comes behind. -/
theorem mapM_eq_error_iff {f : α → Except ε β} {xs : List α} {e : ε} :
    xs.mapM f = .error e ↔ ∃ before x after, xs = before ++ x :: after ∧
      (∀ b ∈ before, ∃ y, f b = .ok y) ∧ f x = .error e := by
  induction xs with
  | nil =>
    constructor
    · intro h
      cases h
    · rintro ⟨before, x, after, hxs, -⟩
      exact absurd hxs.symm (by simp)
  | cons x xs ih =>
    rw [List.mapM_cons, bind_eq_error_iff]
    constructor
    · rintro (hx | ⟨y, hy, h⟩)
      · exact ⟨[], x, xs, rfl, by simp, hx⟩
      · -- The first entry has a result, so the failure comes from the rest.
        rcases bind_eq_error_iff.1 h with hrest | ⟨ys, -, h⟩
        · obtain ⟨before, x', after, rfl, hbefore, hx'⟩ := ih.1 hrest
          exact ⟨x :: before, x', after, rfl, List.forall_mem_cons.2 ⟨⟨y, hy⟩, hbefore⟩, hx'⟩
        · cases h
    · rintro ⟨before, x', after, hxs, hbefore, hx'⟩
      cases before with
      | nil =>
        cases hxs
        exact .inl hx'
      | cons b before =>
        cases hxs
        obtain ⟨⟨y, hy⟩, hbefore⟩ := List.forall_mem_cons.1 hbefore
        have hrest := ih.2 ⟨before, x', after, rfl, hbefore, hx'⟩
        exact .inr ⟨y, hy, bind_eq_error_iff.2 (.inl hrest)⟩

/-- A list whose entries are taken with their places fails as the first one that has no result, with
its place. -/
theorem mapM_zipIdx_eq_error_iff {f : α × Nat → Except ε β} {xs : List α} {k : Nat} {e : ε} :
    (xs.zipIdx k).mapM f = .error e ↔ ∃ before x after, xs = before ++ x :: after ∧
      (∀ entry ∈ before.zipIdx k, ∃ y, f entry = .ok y) ∧ f (x, k + before.length) = .error e := by
  rw [mapM_eq_error_iff]
  constructor
  · rintro ⟨_, _, _, hxs, hbefore, hx⟩
    obtain ⟨before, rest, rfl, rfl, hrest⟩ := List.zipIdx_eq_append_iff.1 hxs
    obtain ⟨x, after, rfl, rfl, -⟩ := List.zipIdx_eq_cons_iff.1 hrest.symm
    exact ⟨before, x, after, rfl, hbefore, hx⟩
  · rintro ⟨before, x, after, rfl, hbefore, hx⟩
    refine ⟨before.zipIdx k, (x, k + before.length), after.zipIdx (k + before.length + 1), ?_,
      hbefore, hx⟩
    rw [List.zipIdx_append, List.zipIdx_cons]

/-- Two computations fail alike: both fail for the same, or neither fails. -/
def FailsAlike (x : Except ε α) (y : Except ε β) : Prop := ∀ e, x = .error e ↔ y = .error e

namespace FailsAlike

variable {γ δ : Type} {x : Except ε α} {y : Except ε β}

/-- Everything fails as it does itself. -/
theorem refl (x : Except ε α) : FailsAlike x x := fun _ => .rfl

/-- What does not fail fails alike. -/
theorem of_ok (a : α) (b : β) : FailsAlike (.ok a : Except ε α) (.ok b : Except ε β) := by
  intro e
  simp

/-- Two outcomes that fail alike succeed together. -/
theorem exists_ok_iff (h : FailsAlike x y) : (∃ a, x = .ok a) ↔ ∃ b, y = .ok b := by
  cases x with
  | error e => simp [(h e).1 rfl]
  | ok a =>
    cases y with
    | error e => exact absurd ((h e).2 rfl) (by simp)
    | ok b => simp

/-- Sequences fail alike if their first parts do, and if what follows does wherever both of these
succeed. -/
theorem bind {f : α → Except ε γ} {g : β → Except ε δ} (h : FailsAlike x y)
    (hfg : ∀ a b, x = .ok a → y = .ok b → FailsAlike (f a) (g b)) :
    FailsAlike (x >>= f) (y >>= g) := by
  intro e
  rw [bind_eq_error_iff, bind_eq_error_iff, h e]
  refine or_congr_right ⟨?_, ?_⟩
  · rintro ⟨a, ha, hfa⟩
    obtain ⟨b, hb⟩ := h.exists_ok_iff.1 ⟨a, ha⟩
    exact ⟨b, hb, (hfg a b ha hb e).1 hfa⟩
  · rintro ⟨b, hb, hgb⟩
    obtain ⟨a, ha⟩ := h.exists_ok_iff.2 ⟨b, hb⟩
    exact ⟨a, ha, (hfg a b ha hb e).2 hgb⟩

/-- Changing the results leaves the failures as they are. -/
theorem map (h : FailsAlike x y) (f : α → γ) (g : β → δ) : FailsAlike (x.map f) (y.map g) := by
  intro e
  rw [map_eq_error_iff, map_eq_error_iff, h e]

/-- Lists fail alike if their entries do, one by one. -/
theorem mapM {f : γ → Except ε α} {g : γ → Except ε β} {xs : List γ}
    (h : ∀ x ∈ xs, FailsAlike (f x) (g x)) : FailsAlike (xs.mapM f) (xs.mapM g) := by
  intro e
  rw [mapM_eq_error_iff, mapM_eq_error_iff]
  refine exists₃_congr fun before x after => and_congr_right fun hxs => ?_
  refine and_congr (forall₂_congr fun b hb => (h b ?_).exists_ok_iff) (h x ?_ e)
  · simp [hxs, hb]
  · simp [hxs]

end FailsAlike

end Roster
