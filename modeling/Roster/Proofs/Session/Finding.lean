import Roster.Proofs.Script.Rendering
import Roster.Proofs.Session.FilterModes
import Roster.Proofs.Session.Reordering
import Roster.Proofs.Table.Records

/-!
# `Roster.Proofs.Session.Finding`: a field is found by writing it in a script

A field is read twice, by readers that know nothing of each other: when its table is made, where
the other fields of its column decide whether it is a number, and as a literal of a script. The two
agree: a text between quotes, or digits as they stand, is a literal for the cell that is made of the
field. `run_findScript` says what follows for a whole run: the rows that a filter by `==`
leaves are those with an equal cell, the row of the field among them, and `!=` leaves the others.

* `exists_test_of_writtenFor` is where the readers meet. A number may have any number of digits;
  that it is finite is known from its column, since otherwise the column would be one of texts.
* The script is read as the tokens of its parts by the rules of `Writes` (`parse_findScript`).
* A filter by one test keeps the rows that pass it, in both modes (`outcome_run_filter_print`), and
  a test by `==` or `!=` looks at nothing but whether the cell is equal (`passes_equal`,
  `passes_notEqual`).
-/

set_option autoImplicit false

namespace Roster

open Feed Grammar Lexer Session

/-! ### Equal cells -/

namespace Cell

/-- Whether two cells are equal. The two zeros are, and nothing equals what is not a number. -/
def same : Cell → Cell → Bool
  | null, null => true
  | number x, number y => x.compare? y == some .eq
  | text s, text t => s == t
  | _, _ => false

/-- A finite number, like a text, equals itself. -/
theorem same_number_self {x : Double} (h : x.isFinite = true) :
    (number x).same (number x) = true := by
  simp [same, Double.compare?, Double.isNaN_of_isFinite h]

/-- The test that compares with a cell, unless the cell is missing. -/
def test? (r : Relation) : Cell → Option Test
  | null => none
  | number x => some (.number r x)
  | text s => some (.text r s)

variable {c other : Cell} {kind : Kind} {test : Test} {r : Relation}

/-- The test is about cells of the kind of the cell. -/
theorem kind_of_test? (h : c.test? r = some test) : c.kind? = some test.kind := by
  cases c <;> cases h <;> rfl

/-- It is what a comparison with the literal of the cell is resolved to. -/
theorem resolve_of_test? (h : c.test? r = some test) (name : String) :
    Predicate.resolve ⟨name, .relation r, test.literal⟩ = .ok ⟨name, test⟩ := by
  cases c <;> cases h <;> rfl

/-- Texts that are compared as equal are the same. -/
theorem compareText_beq_eq (s t : String) : (some (compareText s t) == some .eq) = (s == t) := by
  rw [Bool.eq_iff_iff, beq_iff_eq, beq_iff_eq, Option.some.injEq, compareText_eq_compare]
  exact Std.compare_eq_iff_eq

/-- A test by `==` is passed by the cells that are equal. -/
theorem passes_equal (h : c.test? .equal = some test) (other : Cell) :
    test.passes other = other.same c := by
  cases c with
  | null => cases h
  | number x =>
    cases h
    cases other <;> rfl
  | text s =>
    cases h
    cases other with
    | text s' => exact compareText_beq_eq s' s
    | _ => rfl

/-- A test by `!=` is passed by the other cells of a column of its kind, the missing ones too. -/
theorem passes_notEqual (h : c.test? .notEqual = some test)
    (hother : other = .null ∨ other.kind? = some test.kind) :
    test.passes other = !other.same c := by
  cases c with
  | null => cases h
  | number x =>
    cases h
    cases other with
    | text s => simp [kind?, Test.kind] at hother
    | _ => rfl
  | text s =>
    cases h
    cases other with
    | number x => simp [kind?, Test.kind] at hother
    | text s' => exact congrArg not (compareText_beq_eq s' s)
    | null => rfl

end Cell

/-! ### Literals -/

/-- Whether a literal is a field of a column of a kind as it is written in a script: a text without
a quote between quotes, a number of digits as it stands. -/
inductive WrittenFor (field : String) : Kind → String → Prop
  | text (h : '"' ∉ field.toList) : WrittenFor field .text (quoted field)
  | number {whole fraction : List Char} (h : Numeral.IsPlain field.toList whole fraction) :
    WrittenFor field .numeric field

/-- A text without a quote can be written. -/
theorem Writes.quoted {s : String} (h : '"' ∉ s.toList) : Writes (quoted s) [.string s] := by
  have hbody : ∀ c ∈ s.toList, c ≠ '"' := fun c hc hquote => h (hquote ▸ hc)
  have hspelled : (Token.string s).Spelled := by
    have hstring := Token.Spelled.string hbody
    rwa [String.ofList_toList] at hstring
  exact .string ⟨hspelled, fun x hx => by cases hx⟩

/-- A literal of a field is read as the cell that is made of the field, and this cell equals
itself. -/
theorem exists_test_of_writtenFor {field literal : String} {kind : Kind}
    (h : WrittenFor field kind literal) (hne : field ≠ "")
    (hkind : (kind.cellOf field).kind? = some kind) (r : Relation) :
    (∃ test, (kind.cellOf field).test? r = some test ∧ Writes literal test.literal.tokens) ∧
      (kind.cellOf field).same (kind.cellOf field) = true := by
  have hempty : field.isEmpty = false := by simpa using hne
  cases h with
  | text hquote =>
    have hcell : Kind.text.cellOf field = .text field := by simp [Kind.cellOf, hempty]
    rw [hcell]
    exact ⟨⟨.text r field, rfl, .quoted hquote⟩, beq_self_eq_true field⟩
  | @number whole fraction hplain =>
    -- A number without end is a text to its table, which is not the kind of the column.
    have hfinite : (Numeral.ofDigits false whole fraction 0).isFinite = true := by
      by_contra hinfinite
      rw [Kind.cellOf, Cell.infer, hempty, hplain.read?_eq] at hkind
      simp [hinfinite, Cell.kind?] at hkind
    have hcell : Kind.numeric.cellOf field
        = .number (Numeral.ofDigits false whole fraction 0) := by
      rw [Kind.cellOf, Cell.infer, hempty, hplain.read?_eq]
      simp [hfinite]
    rw [hcell]
    exact ⟨⟨.number r _, rfl, .token (Token.writtenAs_number hplain)⟩,
      Cell.same_number_self hfinite⟩

/-! ### The script -/

/-- The script that asks for the rows of a table by one of their cells. -/
def findScript (name : String) (r : Relation) (literal : String) : String :=
  s!"filter column \"{name}\" {r.symbol} {literal}; print;"

/-- A script that is made of a literal is read as a filter by the literal. The script is written
token by token, so it is read as these tokens, and a derivation of them gives the program. -/
theorem parse_findScript {name literal : String} {r : Relation} {l : Literal}
    (hname : '"' ∉ name.toList) (hliteral : Writes literal l.tokens) :
    Program.parse (findScript name r literal)
      = .ok [.filter (.leaf ⟨name, .relation r, l⟩), .print] := by
  let chain : ChainTree := ⟨⟨name, .relation r, l⟩, []⟩
  have htext : findScript name r literal = Keyword.filter.text ++ " " ++ Keyword.column.text ++ " "
      ++ quoted name ++ " " ++ r.symbol ++ " " ++ literal ++ ";" ++ " " ++ Keyword.print.text
      ++ ";" := by
    unfold findScript
    generalize r.symbol = sign
    rw [← String.toList_inj]
    simp [Keyword.text, quoted, toString]
  have htokens : [StatementTree.filter chain, .print].flatMap StatementTree.tokens
      = [Token.keyword .filter] ++ [Token.keyword .column] ++ [Token.string name]
        ++ [Operator.token (.relation r)] ++ l.tokens ++ [Token.semicolon]
        ++ [Token.keyword .print] ++ [Token.semicolon] := by
    simp [StatementTree.tokens, ChainTree.tokens, Comparison.tokens, Comparison.headTokens, chain]
  have hfilter := ((((Writes.keyword .filter).blank (.keyword .column)).blank
    (.quoted hname)).blank (writes_operator (.relation r))).blank hliteral
  have hprint := hfilter.semicolon.blank (.keyword .print)
  -- Nothing stands behind the last semicolon, so it delimits the word before it.
  have hreads := hprint ';' [] [.semicolon] delimits_semicolon Reads.nil.semicolon
  have hne : [StatementTree.filter chain, .print] ≠ [] := List.cons_ne_nil _ _
  refine parse_of_reads hne ?_
  rw [htext, htokens, String.toList_append]
  exact hreads

/-! ### The run -/

namespace Session

variable {source : TableSource} {settings : Settings} {t : Table} {path name : String}
  {c : Comparison} {p : Predicate}

/-- What is left of the first load is the table. -/
theorem step_load_empty (h : source path = .ok t) :
    empty.step source settings (.load path) = (.ok none, ⟨some t, {}⟩) := by
  rw [step_load, h]
  rfl

/-- A filter by one comparison keeps the rows that pass its test, in both modes. A single comparison
is one condition in either mode, so the modes do not differ here. -/
theorem outcome_run_filter_print (source : TableSource) (settings : Settings)
    (hresolve : Predicate.resolve c = .ok p) (hfits : p.Fits t) :
    ∃ r, ((⟨some t, {}⟩ : Session).run source settings [.filter (.leaf c), .print]).outcome
        = .ok [r] ∧
      r.columns = t.columnNames ∧
      r.rows = t.rows.filter fun row => p.test.passes (row.cell t.columnNames p.column) := by
  let q : Query := { conditions := [.leaf p] }
  have hfilter : (⟨some t, {}⟩ : Session).step source settings (.filter (.leaf c))
      = (.ok none, ⟨some t, q⟩) := by
    rw [step_filter, settings.filterMode.combine_leaf hresolve]
    rfl
  -- The query is one comparison, so it fits if the comparison does.
  have hquery : q.Fits t := by
    refine ⟨?_, by simp [q], by simp [q]⟩
    simpa [q, Clause.leaves_eq_inOrder, Clause.inOrder] using hfits
  have hkept : q.kept t
      = t.rows.filter fun row => p.test.passes (row.cell t.columnNames p.column) := by
    refine List.filter_congr fun row _ => ?_
    simp [q, Condition.Meets]
  obtain ⟨r, hr⟩ : ∃ r, q.answer settings.emptyAverage t = .ok r :=
    Query.exists_answer hquery (by simp [q])
  obtain ⟨-, -, hanswer⟩ := Query.isAnswer_of_answer hr
  have hrows : r.rows = q.kept t := hanswer.rows
  refine ⟨r, outcome_run_eq_ok_iff.2 ⟨_, _, .cons hfilter
    ((succeeds_print_iff rfl).2 ⟨r, hr, rfl, rfl⟩), rfl⟩, hanswer.columns, hrows.trans hkept⟩

/-- The answer to the script that asks for a cell: the rows that pass the test it is read as. -/
theorem exists_answer_findScript {literal : String} {r : Relation} {cell : Cell} {test : Test}
    (source : TableSource) (settings : Settings) (hname : '"' ∉ name.toList)
    (hkind : t.kind? name = some test.kind) (htest : cell.test? r = some test)
    (hliteral : Writes literal test.literal.tokens) :
    ∃ p answer, Program.parse (findScript name r literal) = .ok p ∧
      ((⟨some t, {}⟩ : Session).run source settings p).outcome = .ok [answer] ∧
      answer.columns = t.columnNames ∧
      answer.rows = t.rows.filter fun row => test.passes (row.cell t.columnNames name) := by
  obtain ⟨answer, hrun⟩ :=
    outcome_run_filter_print source settings (Cell.resolve_of_test? htest name) hkind
  exact ⟨_, answer, parse_findScript hname hliteral, hrun⟩

/-- A field that is not empty is found in its table by writing it in a script, between quotes or, if
it is digits, as it stands. The script is read and run without a fault. By `==` it gives the rows of
the table that have an equal cell, the row of the field among them, and by `!=` all the others. -/
theorem run_findScript {headers record : List String} {records : List (List String)} {i j : Nat}
    {field literal : String} {kind : Kind} (source : TableSource) (settings : Settings)
    (ht : Table.ofRecords headers records = .ok t) (hsource : source path = .ok t)
    (hrecord : records[i]? = some record) (hheader : headers[j]? = some name)
    (hfield : record[j]? = some field) (hne : field ≠ "") (hname : '"' ∉ name.toList)
    (hkind : t.kind? name = some kind) (hliteral : WrittenFor field kind literal) :
    ∃ loaded row, empty.step source settings (.load path) = (.ok none, loaded) ∧
      t.rows[i]? = some row ∧ row.cell t.columnNames name = kind.cellOf field ∧
      (∃ p answer, Program.parse (findScript name .equal literal) = .ok p ∧
        (loaded.run source settings p).outcome = .ok [answer] ∧
        answer.columns = t.columnNames ∧ row ∈ answer.rows ∧
        answer.rows = t.rows.filter fun other =>
          (other.cell t.columnNames name).same (row.cell t.columnNames name)) ∧
      ∃ p answer, Program.parse (findScript name .notEqual literal) = .ok p ∧
        (loaded.run source settings p).outcome = .ok [answer] ∧
        answer.columns = t.columnNames ∧
        answer.rows = t.rows.filter fun other =>
          !(other.cell t.columnNames name).same (row.cell t.columnNames name) := by
  obtain ⟨hrow, hcell⟩ := Table.cell_of_ofRecords ht hrecord hheader hfield hkind
  have hmem : t.row i ∈ t.rows := List.mem_of_getElem? hrow
  -- The field is not empty, so its cell is not missing, and is of the kind of the column.
  have hcellKind : (kind.cellOf field).kind? = some kind := by
    rw [← hcell]
    refine (Table.kind?_cell_of_mem_rows hmem hkind).resolve_left ?_
    rw [hcell]
    exact Kind.cellOf_ne_null hne
  refine ⟨_, t.row i, step_load_empty hsource, hrow, hcell, ?_, ?_⟩
  · obtain ⟨⟨test, htest, hwrites⟩, hself⟩ :=
      exists_test_of_writtenFor hliteral hne hcellKind .equal
    obtain rfl : kind = test.kind :=
      Option.some.inj (hcellKind.symm.trans (Cell.kind_of_test? htest))
    obtain ⟨p, answer, hparse, hrun, hcolumns, hrows⟩ :=
      exists_answer_findScript source settings hname hkind htest hwrites
    have hsame : answer.rows = t.rows.filter fun other =>
        (other.cell t.columnNames name).same ((t.row i).cell t.columnNames name) := by
      rw [hrows, hcell]
      exact List.filter_congr fun other _ => Cell.passes_equal htest _
    refine ⟨p, answer, hparse, hrun, hcolumns, ?_, hsame⟩
    rw [hsame, List.mem_filter, hcell]
    exact ⟨hmem, hself⟩
  · obtain ⟨⟨test, htest, hwrites⟩, -⟩ :=
      exists_test_of_writtenFor hliteral hne hcellKind .notEqual
    obtain rfl : kind = test.kind :=
      Option.some.inj (hcellKind.symm.trans (Cell.kind_of_test? htest))
    obtain ⟨p, answer, hparse, hrun, hcolumns, hrows⟩ :=
      exists_answer_findScript source settings hname hkind htest hwrites
    refine ⟨p, answer, hparse, hrun, hcolumns, ?_⟩
    rw [hrows, hcell]
    exact List.filter_congr fun other hother =>
      Cell.passes_notEqual htest (Table.kind?_cell_of_mem_rows hother hkind)

/-- Digits with zeros before them, in a column with another numeral for the same number and with a
field that is empty. -/
theorem run_findScript_zeros :
    let headers := ["n", "s"]
    let records := [["007", "a"], ["", "b"], ["7.0", "007"], ["8", "c"]]
    let source : TableSource := fun _ => Table.ofRecords headers records
    '"' ∉ "n".toList ∧ WrittenFor "007" .numeric "007" ∧
    ∃ t, Table.ofRecords headers records = .ok t ∧ t.kind? "n" = some .numeric ∧
    ∃ loaded row, empty.step source {} (.load "t") = (.ok none, loaded) ∧
      t.rows[0]? = some row ∧ row.cell t.columnNames "n" = Kind.numeric.cellOf "007" ∧
      (∃ p answer, Program.parse (findScript "n" .equal "007") = .ok p ∧
        (loaded.run source {} p).outcome = .ok [answer] ∧
        answer.columns = t.columnNames ∧ row ∈ answer.rows ∧
        answer.rows = t.rows.filter fun other =>
          (other.cell t.columnNames "n").same (row.cell t.columnNames "n")) ∧
      ∃ p answer, Program.parse (findScript "n" .notEqual "007") = .ok p ∧
        (loaded.run source {} p).outcome = .ok [answer] ∧
        answer.columns = t.columnNames ∧
        answer.rows = t.rows.filter fun other =>
          !(other.cell t.columnNames "n").same (row.cell t.columnNames "n") := by
  intro headers records source
  have hliteral : WrittenFor "007" .numeric "007" :=
    @WrittenFor.number "007" ['0', '0', '7'] []
      ⟨rfl, by simp, List.all_eq_true.1 (by decide), by simp⟩
  have hname : '"' ∉ "n".toList := by decide
  refine ⟨hname, hliteral, ?_⟩
  obtain ⟨t, ht⟩ : ∃ t, Table.ofRecords headers records = .ok t := ⟨_, rfl⟩
  have hkind : t.kind? "n" = some .numeric := by
    cases ht
    rfl
  have hsource : source "t" = .ok t := ht
  have hfield : ["007", "a"][0]? = some "007" := rfl
  exact ⟨t, ht, hkind, run_findScript source {} ht hsource rfl rfl hfield (by decide) hname hkind
    hliteral⟩

end Session

end Roster
