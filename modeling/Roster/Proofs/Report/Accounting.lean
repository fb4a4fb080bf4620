import Roster.Proofs.Json.Printing
import Roster.Proofs.Shell.Console
import Roster.Proofs.Shell.Sections

/-!
# `Roster.Proofs.Report.Accounting`: a report accounts for every row

A report shows the first rows and counts the others. Two guards decide independently of each other
what is there: rows are listed if there are rows and a preview, and a line counts the rows that are
left if the preview is smaller than their number. `render_accounts` says that the two agree for
every preview, zero and the number of rows included: the rows that are listed and those that are
counted make up all rows.

The listing can be read line by line. A row is shown as a document without blanks, in which line
feeds are escaped (`Json.lineFeed_notMem_compact`), so what is in a cell or in the name of a column
starts no new line, and the lines of the listing are the rows (`linesOf_textOf`). An aggregate has a
text and not always a line, because the name of its column is written as it is.
-/

set_option autoImplicit false

namespace Roster.Report

open Shell

/-! ### The listing -/

/-- The line of a row that stands behind `above` others. -/
def rowLine (columns : List String) (above : Nat) (cells : Row) : String :=
  s!"{above + 1}. {(row columns cells).compact}"

/-- What is written for rows is their lines, numbered on. -/
theorem rowLines_eq (columns : List String) (above : Nat) (rows : List Row) :
    rowLines columns above rows
      = Console.textOf (rows.mapIdx fun i cells => rowLine columns (above + i) cells) := by
  induction rows generalizing above with
  | nil => rfl
  | cons cells rows ih =>
    have hnumbers : ∀ i, above + 1 + i = above + (i + 1) := fun i => by omega
    rw [rowLines, ih, List.mapIdx_cons, Console.textOf, Console.textOf, List.map_cons,
      String.join_cons]
    simp only [hnumbers]
    rfl

/-- Nothing in a row starts a new line. -/
theorem lineFeed_notMem_rowLine (columns : List String) (above : Nat) (cells : Row) :
    '\n' ∉ (rowLine columns above cells).toList := by
  have hnumber : '\n' ∉ (toString (above + 1)).toList := by
    intro h
    have hdigit := isAsciiDigit_of_mem_decimalDigits (n := above + 1) (Nat.toList_repr ▸ h)
    exact absurd hdigit (by decide)
  have hline : (rowLine columns above cells).toList
      = (toString (above + 1)).toList ++ (". ".toList ++ (row columns cells).compact.toList) := by
    show (toString (above + 1) ++ ". " ++ (row columns cells).compact).toList = _
    rw [String.toList_append, String.toList_append, List.append_assoc]
  rw [hline, List.mem_append, List.mem_append]
  rintro (h | h | h)
  · exact hnumber h
  · exact absurd h (by decide)
  · exact Json.lineFeed_notMem_compact _ h

/-- Texts without line feeds are the lines of the text they make up. -/
theorem linesOf_textOf {lines : List String} (h : ∀ line ∈ lines, '\n' ∉ line.toList) :
    linesOf (Console.textOf lines).toList = lines.map String.toList ++ [[]] := by
  induction lines with
  | nil => rfl
  | cons line lines ih =>
    obtain ⟨hline, hlines⟩ := List.forall_mem_cons.1 h
    have htext : (Console.textOf (line :: lines)).toList
        = line.toList ++ '\n' :: (Console.textOf lines).toList := by
      simp [Console.textOf]
    rw [htext, linesOf_append_lineFeed, linesOf_of_notMem hline, ih hlines]
    rfl

/-! ### The report -/

/-- A part of a report: a heading and lines, or nothing if there are no lines. -/
def part (heading : String) (lines : List String) : String :=
  if lines = [] then "" else heading ++ Console.textOf lines

/-- The report of a number of rows, with texts for aggregates, lines for rows, and a number of rows
that are left. -/
def layOut (title : String) (rowCount preview : Nat) (texts lines : List String) (left : Nat) :
    String :=
  s!"\n{rule}\nRunning: {title}\n{rule}\n"
    ++ s!"Records found: {rowCount}\n"
    ++ part "\nAggregations:\n" texts
    ++ part s!"\nFirst {preview} records:\n" lines
    ++ (if left = 0 then "" else s!"... and {left} more records.\n")
    ++ rule ++ "\n"

/-- Whether texts for aggregates, lines for rows and a number of rows that are left account for an
answer. -/
structure Accounts (a : Answer) (preview : Nat) (texts lines : List String) (left : Nat) :
    Prop where
  /-- Each aggregate has its text, one that is asked for again once more. -/
  texts : List.Forall₂ (fun entry text => text = aggregateLine entry.1 entry.2) a.aggregates texts
  length_lines : lines.length = min preview a.rowCount
  /-- The lines are the first rows in their order, numbered from one. -/
  line : ∀ i (hi : i < lines.length), ∃ cells, a.rows[i]? = some cells ∧
    lines[i] = s!"{i + 1}. {(row a.columns cells).compact}"
  /-- Read line by line, the listing is these lines. -/
  linesOf : Shell.linesOf (Console.textOf lines).toList = lines.map String.toList ++ [[]]
  /-- No row is left out of both. -/
  total : left + lines.length = a.rowCount
  left_ne_zero_iff : left ≠ 0 ↔ preview < a.rowCount
  /-- The rows that are left are counted by a difference that is not cut off at zero. -/
  left_eq : left ≠ 0 → (left : ℤ) = a.rowCount - preview

/-- The aggregates have a headline and a line each, or nothing at all. -/
theorem aggregateSection_eq (aggregates : List (String × Double)) :
    aggregateSection aggregates
      = part "\nAggregations:\n" (aggregates.map fun (name, x) => aggregateLine name x) := by
  rw [aggregateSection, part, Console.textOf, List.map_map]
  cases aggregates <;> rfl

/-- The rows that are previewed have a headline and a line each, or nothing at all. -/
theorem rowSection_eq {a : Answer} (h : a.rowCount = a.rows.length) (preview : Nat) :
    rowSection a preview
      = part s!"\nFirst {preview} records:\n" ((a.rows.take preview).mapIdx (rowLine a.columns)) := by
  have hnone : (0 < a.rowCount ∧ 0 < preview)
      ↔ ¬(a.rows.take preview).mapIdx (rowLine a.columns) = [] := by
    rw [List.mapIdx_eq_nil_iff, List.take_eq_nil_iff, h, List.length_pos_iff, Nat.pos_iff_ne_zero]
    tauto
  rw [rowSection, part, rowLines_eq]
  simp only [hnone, Nat.zero_add, ite_not]

/-- What is left is told by its exact count, and by nothing if nothing is. -/
theorem remainder_eq (rowCount preview : Nat) :
    remainder rowCount preview
      = if rowCount - preview = 0 then "" else s!"... and {rowCount - preview} more records.\n" := by
  have hnone : preview < rowCount ↔ ¬rowCount - preview = 0 := by omega
  rw [remainder]
  simp only [hnone, ite_not]

/-- A report accounts for every row and every aggregate of an answer, whatever its title and its
preview are. -/
theorem render_accounts (a : Answer) (title : String) (preview : Nat)
    (h : a.rowCount = a.rows.length) :
    ∃ texts lines left, Accounts a preview texts lines left ∧
      render a title preview = layOut title a.rowCount preview texts lines left := by
  have hlength : ((a.rows.take preview).mapIdx (rowLine a.columns)).length
      = min preview a.rowCount := by
    rw [List.length_mapIdx, List.length_take, h]
  refine ⟨a.aggregates.map fun (name, x) => aggregateLine name x,
    (a.rows.take preview).mapIdx (rowLine a.columns), a.rowCount - preview, ?_, ?_⟩
  · refine ⟨?_, hlength, ?_, ?_, ?_, ?_, ?_⟩
    · rw [List.forall₂_map_right_iff]
      exact List.forall₂_same.2 fun _ _ => rfl
    · intro i hi
      have hrow : i < a.rows.length := by omega
      refine ⟨a.rows[i], List.getElem?_eq_getElem hrow, ?_⟩
      rw [List.getElem_mapIdx, List.getElem_take]
      rfl
    · -- No line has a line feed of its own, so the text is cut where the lines end.
      refine linesOf_textOf ?_
      intro line hline
      obtain ⟨i, hi, rfl⟩ := List.mem_mapIdx.1 hline
      exact lineFeed_notMem_rowLine _ _ _
    · omega
    · omega
    · omega
  · unfold render layOut
    rw [aggregateSection_eq, rowSection_eq h, remainder_eq]

/-- Two of three rows, with line feeds in a cell and in the name of the column, and an aggregate that
is asked for twice. -/
theorem render_accounts_line_feeds :
    let a : Answer := {
      columns := ["x\ny"]
      rowCount := 3
      rows := [[.text "a\nb"], [.null], [.number .zero]]
      aggregates := [("count_x\ny", .ofNat 3), ("count_x\ny", .ofNat 3)] }
    a.rowCount = a.rows.length ∧
    ∃ texts lines left, Accounts a 2 texts lines left ∧
      render a "demo" 2 = layOut "demo" 3 2 texts lines left ∧
      texts = ["Count of x\ny: 3", "Count of x\ny: 3"] ∧
      lines = ["1. \x7b\"x\\ny\":\"a\\nb\"\x7d", "2. \x7b\"x\\ny\":null\x7d"] ∧ left = 1 := by
  intro a
  obtain ⟨texts, lines, left, haccounts, hrender⟩ := render_accounts a "demo" 2 rfl
  have hlength : lines.length = 2 := haccounts.length_lines
  obtain ⟨first, second, rfl⟩ := List.length_eq_two.1 hlength
  have htotal := haccounts.total
  refine ⟨rfl, texts, [first, second], left, haccounts, hrender, ?_, ?_, ?_⟩
  · have htext : aggregateLine "count_x\ny" (.ofNat 3) = "Count of x\ny: 3" := by decide +kernel
    have htexts := haccounts.texts
    rw [List.forall₂_cons_left_iff] at htexts
    obtain ⟨_, _, rfl, hrest, rfl⟩ := htexts
    rw [List.forall₂_cons_left_iff] at hrest
    obtain ⟨_, _, rfl, hrest, rfl⟩ := hrest
    rw [List.forall₂_nil_left_iff.1 hrest, htext]
  · -- The line feeds of the cell and of the column are escaped in the lines.
    obtain ⟨_, hrow, hfirst⟩ := haccounts.line 0 (by simp)
    obtain ⟨_, hrow', hsecond⟩ := haccounts.line 1 (by simp)
    cases hrow
    cases hrow'
    rw [List.getElem_cons_zero] at hfirst
    rw [List.getElem_cons_succ, List.getElem_cons_zero] at hsecond
    rw [hfirst, hsecond]
    decide +kernel
  · change left + 2 = 3 at htotal
    omega

end Roster.Report
