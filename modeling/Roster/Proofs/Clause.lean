import Roster.Clause
import Roster.Proofs.Outcome

/-!
# `Roster.Proofs.Clause`: the leaves and the layers of a clause

* `leavesOf_eq_flatMap`: the walk that keeps the subtrees still to be visited in a list gives,
  at every moment, the leaves of those subtrees one subtree after the other. So
  `leaves_eq_inOrder`: `Clause.leaves` is the plain recursion `Clause.inOrder`.
* `map_inOrder_mapLeaves`: replacing the leaves of a clause is replacing them as a list, so it
  fails as the leftmost leaf that has no replacement.
* `holds_of_forall` and `OrFree.holds_iff`: a clause holds if all its leaves do, and without an
  `or` only then.
* `Layered` is the shape of a clause in which `and` binds tighter than `or` and both group to
  the left. It is said of all subtrees at once, through `Within`.
* `layered_of_isDisjunction`: a clause that is built by adding leaves to a conjunction and
  conjunctions to a disjunction, each on the right, has this shape. The two inductive predicates
  follow the way such a clause is built, which is what makes the proof an induction.
-/

set_option autoImplicit false

namespace Roster.Clause

variable {α : Type}

/-! ### The leaves -/

/-- The leaves of the subtrees still to be visited are those of one subtree after the other. -/
theorem leavesOf_eq_flatMap (clauses : List (Clause α)) :
    leavesOf clauses = clauses.flatMap inOrder := by
  induction clauses using leavesOf.induct with
  | case1 => rw [leavesOf, List.flatMap_nil]
  | case2 a rest ih =>
    rw [leavesOf, ih, List.flatMap_cons]
    rfl
  | case3 left right rest ih =>
    rw [leavesOf, ih]
    simp only [List.flatMap_cons, inOrder, List.append_assoc]
  | case4 left right rest ih =>
    rw [leavesOf, ih]
    simp only [List.flatMap_cons, inOrder, List.append_assoc]

/-- The walk over one clause is the plain recursion. -/
theorem leaves_eq_inOrder (c : Clause α) : c.leaves = c.inOrder := by
  rw [leaves, leavesOf_eq_flatMap, List.flatMap_singleton]

/-- Joining two clauses puts the leaves of the left one first, whatever joins them. -/
@[simp] theorem inOrder_join (k : Connective) (left right : Clause α) :
    (join k left right).inOrder = left.inOrder ++ right.inOrder := by
  cases k <;> rfl

/-! ### Replacing the leaves -/

variable {β ε : Type} {f : α → Except ε β}

/-- Replacing the leaves of a clause is replacing its leaves as a list, one after the other. -/
theorem map_inOrder_mapLeaves (c : Clause α) :
    (c.mapLeaves f).map inOrder = c.inOrder.mapM f := by
  induction c with
  | leaf a =>
    rw [mapLeaves, inOrder, List.mapM_cons]
    cases f a <;> rfl
  | and left right hleft hright =>
    rw [mapLeaves, inOrder, List.mapM_append, ← hleft, ← hright]
    cases left.mapLeaves f with
    | error e => rfl
    | ok l => cases right.mapLeaves f <;> rfl
  | or left right hleft hright =>
    rw [mapLeaves, inOrder, List.mapM_append, ← hleft, ← hright]
    cases left.mapLeaves f with
    | error e => rfl
    | ok l => cases right.mapLeaves f <;> rfl

/-- The same for the clauses of a list, whose leaves follow one another. -/
theorem map_inOrder_mapM_mapLeaves (clauses : List (Clause α)) :
    (clauses.mapM (mapLeaves f)).map (List.flatMap inOrder)
      = (clauses.flatMap inOrder).mapM f := by
  induction clauses with
  | nil => rfl
  | cons c clauses ih =>
    rw [List.mapM_cons, List.flatMap_cons, List.mapM_append, ← ih, ← map_inOrder_mapLeaves]
    cases c.mapLeaves f with
    | error e => rfl
    | ok d => cases clauses.mapM (mapLeaves f) <;> rfl

/-- A clause has its leaves replaced exactly if each of them has a replacement. -/
theorem exists_mapLeaves_eq_ok_iff {c : Clause α} :
    (∃ d, c.mapLeaves f = .ok d) ↔ ∀ a ∈ c.inOrder, ∃ b, f a = .ok b := by
  rw [← exists_mapM_eq_ok_iff, ← map_inOrder_mapLeaves]
  cases c.mapLeaves f <;> simp [Except.map]

/-- If every leaf holds exactly when its replacement does, so do the clauses. -/
theorem holds_of_mapLeaves {p : α → Bool} {q : β → Bool} (hf : ∀ a b, f a = .ok b → q b = p a)
    {c : Clause α} {d : Clause β} (h : c.mapLeaves f = .ok d) : d.holds q = c.holds p := by
  induction c generalizing d with
  | leaf a =>
    obtain ⟨b, hb, rfl⟩ := map_eq_ok_iff.1 h
    exact hf a b hb
  | and left right hleft hright =>
    obtain ⟨l, hl, h⟩ := bind_eq_ok_iff.1 h
    obtain ⟨r, hr, h⟩ := bind_eq_ok_iff.1 h
    cases h
    rw [holds, holds, hleft hl, hright hr]
  | or left right hleft hright =>
    obtain ⟨l, hl, h⟩ := bind_eq_ok_iff.1 h
    obtain ⟨r, hr, h⟩ := bind_eq_ok_iff.1 h
    cases h
    rw [holds, holds, hleft hl, hright hr]

/-! ### Clauses without `or` -/

/-- A clause holds if all its leaves do, whatever joins them. -/
theorem holds_of_forall {p : α → Bool} {c : Clause α} (h : ∀ a ∈ c.inOrder, p a = true) :
    c.holds p = true := by
  induction c with
  | leaf a => exact h a (List.mem_singleton_self a)
  | and left right hleft hright =>
    obtain ⟨hl, hr⟩ := List.forall_mem_append.1 h
    rw [holds, hleft hl, hright hr, Bool.and_self]
  | or left right hleft hright =>
    obtain ⟨hl, -⟩ := List.forall_mem_append.1 h
    rw [holds, hleft hl, Bool.true_or]

/-- Whether no `or` stands in a clause. -/
def OrFree : Clause α → Prop
  | leaf _ => True
  | and left right => left.OrFree ∧ right.OrFree
  | or _ _ => False

/-- A clause without `or` holds only if all its leaves do. -/
theorem OrFree.holds_iff {p : α → Bool} {c : Clause α} (h : c.OrFree) :
    c.holds p = true ↔ ∀ a ∈ c.inOrder, p a = true := by
  induction c with
  | leaf a => simp [holds, inOrder]
  | and left right hleft hright =>
    rw [holds, Bool.and_eq_true, hleft h.1, hright h.2, inOrder, List.forall_mem_append]
  | or left right => exact h.elim

/-- Replacing leaves brings no `or` into a clause. -/
theorem OrFree.mapLeaves {c : Clause α} {d : Clause β} (hc : c.OrFree)
    (h : c.mapLeaves f = .ok d) : d.OrFree := by
  induction c generalizing d with
  | leaf a =>
    obtain ⟨b, -, rfl⟩ := map_eq_ok_iff.1 h
    trivial
  | and left right hleft hright =>
    obtain ⟨l, hl, h⟩ := bind_eq_ok_iff.1 h
    obtain ⟨r, hr, h⟩ := bind_eq_ok_iff.1 h
    cases h
    exact ⟨hleft hc.1 hl, hright hc.2 hr⟩
  | or left right => exact hc.elim

/-! ### Layers -/

/-- A clause is a subtree of another one, or is that clause itself. -/
inductive Within : Clause α → Clause α → Prop
  | refl (c : Clause α) : Within c c
  | andLeft {c left right : Clause α} : Within c left → Within c (.and left right)
  | andRight {c left right : Clause α} : Within c right → Within c (.and left right)
  | orLeft {c left right : Clause α} : Within c left → Within c (.or left right)
  | orRight {c left right : Clause α} : Within c right → Within c (.or left right)

/-- The shape of a clause in which `and` binds tighter than `or` and both group to the left:

- `and_right`: the right side of every `and` is a leaf;
- `no_or_in_and`: no `or` stands below an `and`;
- `or_right`: no `or` is the right side of an `or`. -/
structure Layered (c : Clause α) : Prop where
  and_right : ∀ left right, Within (.and left right) c → ∃ a, right = .leaf a
  no_or_in_and : ∀ left right, Within (.and left right) c →
    ∀ x y, ¬ Within (.or x y) (.and left right)
  or_right : ∀ left right, Within (.or left right) c → ∀ x y, right ≠ .or x y

/-- A conjunction of leaves, grouped to the left. -/
inductive IsConjunction : Clause α → Prop
  | leaf (a : α) : IsConjunction (.leaf a)
  | and {left : Clause α} (a : α) : IsConjunction left → IsConjunction (.and left (.leaf a))

/-- A disjunction of conjunctions of leaves, grouped to the left. -/
inductive IsDisjunction : Clause α → Prop
  | single {c : Clause α} : IsConjunction c → IsDisjunction c
  | or {left right : Clause α} : IsDisjunction left → IsConjunction right →
    IsDisjunction (.or left right)

namespace IsConjunction

/-- No `or` stands in a conjunction. -/
theorem no_or {c : Clause α} (h : IsConjunction c) (x y : Clause α) : ¬ Within (.or x y) c := by
  induction h with
  | leaf a =>
    intro hw
    cases hw
  | and a _ ih =>
    intro hw
    cases hw with
    | andLeft hw => exact ih hw
    | andRight hw => cases hw

/-- Each `and` of a conjunction has a leaf on its right, and is a conjunction itself. -/
theorem of_within_and {c left right : Clause α} (h : IsConjunction c)
    (hw : Within (.and left right) c) :
    IsConjunction (.and left right) ∧ ∃ a, right = .leaf a := by
  induction h with
  | leaf a => cases hw
  | and a hl ih =>
    cases hw with
    | refl => exact ⟨.and a hl, a, rfl⟩
    | andLeft hw => exact ih hw
    | andRight hw => cases hw

/-- A conjunction has its layers right. -/
theorem layered {c : Clause α} (h : IsConjunction c) : Layered c where
  and_right _ _ hw := (h.of_within_and hw).2
  no_or_in_and _ _ hw x y := (h.of_within_and hw).1.no_or x y
  or_right _ _ hw := absurd hw (h.no_or _ _)

end IsConjunction

/-- A disjunction of conjunctions has its layers right. The laws of its layers are those of its
parts, and only at the root a new `or` has to be looked at. -/
theorem layered_of_isDisjunction {c : Clause α} (h : IsDisjunction c) : Layered c := by
  induction h with
  | single hc => exact hc.layered
  | or hl hr ih =>
    refine ⟨fun _ _ hw => ?_, fun _ _ hw => ?_, fun _ _ hw => ?_⟩
    · cases hw with
      | orLeft hw => exact ih.and_right _ _ hw
      | orRight hw => exact hr.layered.and_right _ _ hw
    · cases hw with
      | orLeft hw => exact ih.no_or_in_and _ _ hw
      | orRight hw => exact hr.layered.no_or_in_and _ _ hw
    · cases hw with
      | refl =>
        -- The right side is a conjunction, and no conjunction is an `or`.
        rintro x y rfl
        exact hr.no_or x y (.refl _)
      | orLeft hw => exact ih.or_right _ _ hw
      | orRight hw => exact hr.layered.or_right _ _ hw

end Roster.Clause
