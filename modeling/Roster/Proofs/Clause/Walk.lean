import Roster.Proofs.Clause

/-!
# `Roster.Proofs.Clause.Walk`: the walk over a clause, step by step

`Clause.leaves` lists the leaves with a stack of subtrees in the place of recursive calls. Here one
turn of its loop is one step of a `Walk`: the subtree on top of the stack is taken away, and it is a
leaf, which is found, or a branch, whose right side is put on the stack before its left one.

* `visited_step`: a step keeps the leaves that are found so far, followed by those of the subtrees
  on the stack from the top down. This is what the order of the two pushes is for.
* `sizes_step`: a step takes one node off the stack, whatever the shape of the tree. So a walk ends
  after as many steps as the tree has nodes (`steps?_sizes`), neither earlier nor later.

That each leaf is listed once cannot be said by the leaves alone, since a clause may hold equal
ones. It is said by their places: `at?` follows a path from the root, and the paths to leaves, in
ascending order, lead to the leaves as they are listed. The main result is
`walk_visits_each_leaf`.
-/

set_option autoImplicit false

namespace Roster.Clause

variable {α : Type} {c left right : Clause α}

/-! ### The walk -/

/-- What the walk over a clause has come to: the leaves that it has found, and the subtrees that it
still has to visit, from the top of the stack down. -/
structure Walk (α : Type) where
  found : List α
  pending : List (Clause α)

namespace Walk

variable {w w' : Walk α} {n : ℕ}

/-- Before the first step the whole clause is on the stack. -/
def start (c : Clause α) : Walk α := { found := [], pending := [c] }

/-- Puts a subtree on the stack. -/
def push (c : Clause α) (w : Walk α) : Walk α := { w with pending := c :: w.pending }

/-- Takes the subtree on top from the stack and visits it; none if the stack is empty. -/
def step? (w : Walk α) : Option (Walk α) :=
  match w.pending with
  | [] => none
  | top :: rest =>
    let w := { w with pending := rest }
    match top with
    | .leaf a => some { w with found := w.found ++ [a] }
    | .and left right => some ((w.push right).push left)
    | .or left right => some ((w.push right).push left)

/-- What so many steps lead to; none if the walk ends before. -/
def steps? : ℕ → Walk α → Option (Walk α)
  | 0, w => some w
  | n + 1, w => w.step?.bind (steps? n)

/-- The leaves that a walk has found and those that are still on its stack. -/
def visited (w : Walk α) : List α := w.found ++ w.pending.flatMap inOrder

/-- All that a step can do. -/
theorem step?_cases (h : w.step? = some w') :
    (∃ a rest, w.pending = .leaf a :: rest ∧
      w' = { found := w.found ++ [a], pending := rest }) ∨
    ∃ k left right rest, w.pending = join k left right :: rest ∧
      w' = { w with pending := left :: right :: rest } := by
  obtain ⟨found, pending⟩ := w
  cases pending with
  | nil => cases h
  | cons top rest =>
    cases top with
    | leaf a => exact .inl ⟨a, rest, rfl, (Option.some.inj h).symm⟩
    | and left right => exact .inr ⟨.and, left, right, rest, rfl, (Option.some.inj h).symm⟩
    | or left right => exact .inr ⟨.or, left, right, rest, rfl, (Option.some.inj h).symm⟩

/-- A walk goes on as long as there is something on the stack. -/
theorem step?_eq_none_iff : w.step? = none ↔ w.pending = [] := by
  obtain ⟨found, pending⟩ := w
  cases pending with
  | nil => exact iff_of_true rfl rfl
  | cons top rest => cases top <;> exact iff_of_false nofun nofun

/-- The leaves found so far, followed by those on the stack, are the same after a step. -/
theorem visited_step (h : w.step? = some w') : w'.visited = w.visited := by
  obtain ⟨a, rest, hpending, rfl⟩ | ⟨k, left, right, rest, hpending, rfl⟩ := step?_cases h
  · rw [visited, visited, hpending, List.flatMap_cons, inOrder, List.append_assoc]
  · rw [visited, visited, hpending, List.flatMap_cons, List.flatMap_cons, List.flatMap_cons,
      inOrder_join, List.append_assoc]

/-- A step takes one node from the stack. -/
theorem sizes_step (h : w.step? = some w') : sizes w'.pending + 1 = sizes w.pending := by
  obtain ⟨a, rest, hpending, rfl⟩ | ⟨k, left, right, rest, hpending, rfl⟩ := step?_cases h
  · rw [hpending, sizes, size, Nat.add_comm]
  · rw [hpending, sizes, sizes, sizes]
    cases k <;> rw [join, size] <;> omega

/-- A walk takes as many steps as there are nodes on its stack. Then the stack is empty, and all the
leaves that were on it are found. -/
theorem steps?_sizes (w : Walk α) :
    steps? (sizes w.pending) w = some { found := w.visited, pending := [] } := by
  generalize hn : sizes w.pending = n
  induction n generalizing w with
  | zero =>
    obtain ⟨found, pending⟩ := w
    cases pending with
    | nil => simp [steps?, visited]
    | cons top rest => cases top <;> simp [sizes, size] at hn
  | succ n ih =>
    have hsome : w.step? ≠ none := by
      rw [ne_eq, step?_eq_none_iff]
      intro hnil
      rw [hnil] at hn
      cases hn
    -- The step takes the node that the induction counts, and keeps what the walk has visited.
    obtain ⟨w', hw'⟩ := Option.ne_none_iff_exists'.1 hsome
    have hless := sizes_step hw'
    rw [steps?, hw', Option.bind_some, ih w' (by omega), visited_step hw']

end Walk

/-! ### Places of leaves -/

/-- The leaf at the end of a path from the root, where `false` goes to the left and `true` to the
right; none if the path ends at a branch or leads beyond a leaf. -/
def at? : Clause α → List Bool → Option α
  | leaf a, [] => some a
  | leaf _, _ :: _ => none
  | and _ _, [] => none
  | and left right, turn :: path => if turn then right.at? path else left.at? path
  | or _ _, [] => none
  | or left right, turn :: path => if turn then right.at? path else left.at? path

/-- The paths to the leaves, from left to right. -/
def paths : Clause α → List (List Bool)
  | leaf _ => [[]]
  | and left right => left.paths.map (false :: ·) ++ right.paths.map (true :: ·)
  | or left right => left.paths.map (false :: ·) ++ right.paths.map (true :: ·)

/-- A path into a branch goes on in the side that its first turn takes. -/
theorem at?_join (k : Connective) (turn : Bool) (path : List Bool) :
    (join k left right).at? (turn :: path) = if turn then right.at? path else left.at? path := by
  cases k <;> rfl

/-- No leaf stands at a branch itself. -/
theorem at?_join_nil (k : Connective) : (join k left right).at? [] = none := by
  cases k <;> rfl

/-- The paths of a branch are those of its sides, each with one turn more. -/
theorem paths_join (k : Connective) (left right : Clause α) :
    (join k left right).paths = left.paths.map (false :: ·) ++ right.paths.map (true :: ·) := by
  cases k <;> rfl

/-- Induction over clauses that does not tell the connectives apart. -/
theorem induction_join {p : Clause α → Prop} (leaf : ∀ a, p (leaf a))
    (join : ∀ k left right, p left → p right → p (join k left right)) (c : Clause α) : p c := by
  induction c with
  | leaf a => exact leaf a
  | and left right hleft hright => exact join .and left right hleft hright
  | or left right hleft hright => exact join .or left right hleft hright

/-- The paths are those that lead to a leaf. -/
theorem mem_paths_iff {path : List Bool} : path ∈ c.paths ↔ (c.at? path).isSome = true := by
  induction c using induction_join generalizing path with
  | leaf a => cases path <;> simp [paths, at?]
  | join k left right hleft hright =>
    rw [paths_join]
    cases path with
    | nil => simp [at?_join_nil]
    | cons turn path => cases turn <;> simp [at?_join, hleft, hright]

/-- Paths to leaves further to the left are smaller. -/
theorem pairwise_paths (c : Clause α) : c.paths.Pairwise (· < ·) := by
  induction c using induction_join with
  | leaf a => exact List.pairwise_singleton _ _
  | join k left right hleft hright =>
    have hturn (turn : Bool) {ps : List (List Bool)} (h : ps.Pairwise (· < ·)) :
        (ps.map (turn :: ·)).Pairwise (· < ·) :=
      List.Pairwise.map _ (fun _ _ hlt => List.cons_lt_cons_iff.2 (.inr ⟨rfl, hlt⟩)) h
    rw [paths_join]
    -- Two paths that part at the root differ in their first turn.
    refine List.pairwise_append.2 ⟨hturn false hleft, hturn true hright, ?_⟩
    intro p hp q hq
    obtain ⟨p, -, rfl⟩ := List.mem_map.1 hp
    obtain ⟨q, -, rfl⟩ := List.mem_map.1 hq
    exact List.cons_lt_cons_iff.2 (.inl rfl)

/-- Along the paths the leaves stand in order. -/
theorem map_at?_paths (c : Clause α) : c.paths.map c.at? = c.inOrder.map some := by
  induction c using induction_join with
  | leaf a => rfl
  | join k left right hleft hright =>
    have hl : (fun path => (join k left right).at? (false :: path)) = left.at? :=
      funext fun path => at?_join k false path
    have hr : (fun path => (join k left right).at? (true :: path)) = right.at? :=
      funext fun path => at?_join k true path
    rw [paths_join, inOrder_join, List.map_append, List.map_append, ← hleft, ← hright,
      List.map_map, List.map_map]
    exact congrArg₂ _ (by rw [← hl]; rfl) (by rw [← hr]; rfl)

/-! ### The main result -/

/-- The walk over a clause, whatever its shape, ends after as many steps as it has nodes. It has
then found the leaves of the left side, followed by those of the right side, and each leaf once. -/
theorem walk_visits_each_leaf (c : Clause α) :
    c.leaves = c.inOrder ∧
      Walk.steps? c.size (.start c) = some { found := c.leaves, pending := [] } ∧
      ∃ paths : List (List Bool), paths.Pairwise (· < ·) ∧
        (∀ path, path ∈ paths ↔ (c.at? path).isSome = true) ∧
        paths.map c.at? = c.leaves.map some := by
  rw [leaves_eq_inOrder]
  refine ⟨rfl, ?_, c.paths, pairwise_paths c, fun path => mem_paths_iff, map_at?_paths c⟩
  have hwalk := Walk.steps?_sizes (.start c)
  have hsize : sizes (Walk.start c).pending = c.size := Nat.add_zero _
  have hvisited : (Walk.start c).visited = c.inOrder := List.flatMap_singleton _ _
  rwa [hsize, hvisited] at hwalk

end Roster.Clause
