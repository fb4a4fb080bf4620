import Mathlib.Data.Nat.Cast.Field
import Roster.Proofs.Json.Printing
import Roster.Report.Document

/-!
# `Roster.Proofs.Report.Document`: the JSON of an answer says what the answer is

`denotes_document` says what any reader of JSON gets from an answer, from the text without blanks
and from the one over several lines: the number of rows, a row as an object with the columns as keys
and with cells that stand for those of the row, and each aggregate under its name, once.

Two things have to be shown beside what holds of every document. The fields of an object are put in
one after the other, a key that is there taking the new value in its place. So entries whose keys
differ stay as they are (`putFields_eq_self`), and of entries with one name the first gives the
place (`map_fst_putFields`) and the last the value (`lookup_putFields`), which is what
`Answer.aggregate?` looks for from the other end. And a number is written in one of two ways, as a
whole number or as a double; both are numerals that are read as it again (`standsFor_number`), but
for the sign of a zero.
-/

set_option autoImplicit false

namespace Roster

open Text Json

/-! ### Fields that are put in -/

namespace Json

variable {fields entries : List (String × Json)} {key key' : String} {value : Json}

/-- The fields of an object that are put in one after the other. -/
def putFields (entries : List (String × Json)) : List (String × Json) :=
  entries.foldl (fun object (key, value) => insertField object key value) []

/-- The last entry is put in last. -/
theorem putFields_concat (entries : List (String × Json)) (key : String) (value : Json) :
    putFields (entries ++ [(key, value)]) = insertField (putFields entries) key value := by
  rw [putFields, List.foldl_concat]
  rfl

/-- A key that is there keeps its place, and a new one goes to the end. -/
theorem map_fst_insertField (fields : List (String × Json)) (key : String) (value : Json) :
    (insertField fields key value).map Prod.fst
      = if key ∈ fields.map Prod.fst then fields.map Prod.fst
        else fields.map Prod.fst ++ [key] := by
  induction fields with
  | nil => simp [insertField]
  | cons field fields ih =>
    obtain ⟨k, v⟩ := field
    rw [insertField]
    by_cases hkey : k = key
    · simp [hkey]
    · rw [if_neg hkey, List.map_cons, ih, List.map_cons]
      by_cases hmem : key ∈ fields.map Prod.fst
      · simp [hmem]
      · rw [if_neg hmem, if_neg (by simp [Ne.symm hkey, hmem])]
        rfl

/-- A new key goes to the end. -/
theorem insertField_of_notMem (h : key ∉ fields.map Prod.fst) :
    insertField fields key value = fields ++ [(key, value)] := by
  induction fields with
  | nil => rfl
  | cons field fields ih =>
    obtain ⟨k, v⟩ := field
    simp only [List.map_cons, List.mem_cons, not_or] at h
    rw [insertField, if_neg (Ne.symm h.1), ih h.2, List.cons_append]

/-- A key that has the value already changes nothing. -/
theorem insertField_of_forall (hmem : key ∈ fields.map Prod.fst)
    (h : ∀ field ∈ fields, field.1 = key → field.2 = value) :
    insertField fields key value = fields := by
  induction fields with
  | nil => cases hmem
  | cons field fields ih =>
    obtain ⟨k, v⟩ := field
    obtain ⟨hv, hrest⟩ := List.forall_mem_cons.1 h
    rw [insertField]
    by_cases hkey : k = key
    · rw [if_pos hkey, ← hv hkey, ← hkey]
    · have hmem' : key ∈ fields.map Prod.fst := by
        simpa [Ne.symm hkey] using hmem
      rw [if_neg hkey, ih hmem' hrest]

/-- A field that is put in is found, and the others are found as before. -/
theorem lookup_insertField (fields : List (String × Json)) (key : String) (value : Json)
    (key' : String) : (insertField fields key value).lookup key'
      = if key' = key then some value else fields.lookup key' := by
  induction fields with
  | nil =>
    rw [insertField, List.lookup_cons]
    by_cases hkey : key' = key
    · simp [hkey]
    · simp [hkey, beq_false_of_ne hkey]
  | cons field fields ih =>
    obtain ⟨k, v⟩ := field
    rw [insertField]
    by_cases hkey : k = key
    · -- The value is replaced in place.
      rw [if_pos hkey, List.lookup_cons, List.lookup_cons, hkey]
      by_cases hkey' : key' = key
      · simp [hkey']
      · simp [hkey', beq_false_of_ne hkey']
    · -- This field stays, and the value goes in behind it.
      rw [if_neg hkey, List.lookup_cons, ih, List.lookup_cons]
      by_cases hk : key' = k
      · simp [hk, hkey]
      · simp [beq_false_of_ne hk]

/-- Each key is there once, where it was put in first. -/
theorem map_fst_putFields (entries : List (String × Json)) :
    (putFields entries).map Prod.fst = (entries.map Prod.fst).eraseDups := by
  induction entries using List.reverseRecOn with
  | nil => rfl
  | append_singleton entries entry ih =>
    obtain ⟨key, value⟩ := entry
    rw [putFields_concat, map_fst_insertField, ih, List.map_append, List.map_singleton,
      List.eraseDups_append]
    by_cases hmem : key ∈ entries.map Prod.fst
    · rw [if_pos (List.mem_eraseDups.2 hmem)]
      simp [List.removeAll, hmem]
    · rw [if_neg fun h => hmem (List.mem_eraseDups.1 h)]
      simp [List.removeAll, hmem, List.eraseDups_cons]

/-- No key is there twice. -/
theorem nodup_putFields (entries : List (String × Json)) :
    ((putFields entries).map Prod.fst).Nodup := by
  induction entries using List.reverseRecOn with
  | nil => exact .nil
  | append_singleton entries entry ih =>
    obtain ⟨key, value⟩ := entry
    rw [putFields_concat, map_fst_insertField]
    split
    · exact ih
    · rename_i hnew
      rw [← List.concat_eq_append]
      exact ih.concat hnew

/-- A key has the value that was put in last. -/
theorem lookup_putFields (entries : List (String × Json)) (key : String) :
    (putFields entries).lookup key = (entries.reverse.find? (·.1 == key)).map (·.2) := by
  induction entries using List.reverseRecOn with
  | nil => rfl
  | append_singleton entries entry ih =>
    obtain ⟨k, value⟩ := entry
    rw [putFields_concat, lookup_insertField, ih, List.reverse_append, List.reverse_singleton,
      List.singleton_append, List.find?_cons]
    by_cases hkey : key = k
    · simp [hkey]
    · simp [hkey, beq_false_of_ne (Ne.symm hkey)]

/-- Entries whose keys differ are the fields. -/
theorem putFields_eq_self (h : (entries.map Prod.fst).Nodup) : putFields entries = entries := by
  induction entries using List.reverseRecOn with
  | nil => rfl
  | append_singleton entries entry ih =>
    obtain ⟨key, value⟩ := entry
    rw [List.map_append, List.map_singleton, List.nodup_append'] at h
    obtain ⟨hentries, -, hdisjoint⟩ := h
    rw [putFields_concat, ih hentries]
    exact insertField_of_notMem fun hmem => hdisjoint hmem List.mem_cons_self

/-- A field of an object whose keys differ is found under its key. -/
theorem lookup_of_mem (h : (fields.map Prod.fst).Nodup) (hmem : (key, value) ∈ fields) :
    fields.lookup key = some value := by
  induction fields with
  | nil => cases hmem
  | cons field fields ih =>
    obtain ⟨k, v⟩ := field
    obtain ⟨hk, hfields⟩ := List.nodup_cons.1 h
    rw [List.lookup_cons]
    rcases List.mem_cons.1 hmem with heq | hrest
    · cases heq
      simp
    · have hkey : key ∈ fields.map Prod.fst := List.mem_map_of_mem (f := Prod.fst) hrest
      have hne : key ≠ k := fun heq => hk (heq ▸ hkey)
      simp [beq_false_of_ne hne, ih hfields hrest]

end Json

/-! ### Whole numbers -/

namespace Double

variable {x : Double} {n : Int}

/-- A zero of either sign is the whole number zero. -/
theorem whole?_of_isZero (h : x.isZero = true) : x.whole? = some 0 := by
  have hcode : x.magnitude = 0 := by simpa [isZero] using h
  have hsignificand : x.significand = 0 := by simp [significand, hcode, hidden, twoTo]
  have hfinite : x.isFinite = true := by simp [isFinite, hcode, infinityCode, twoTo]
  simp [whole?, hsignificand, hfinite]

/-- A double that is a whole number is finite and has the value of this number, and its sign if it
is not zero. The sign of a zero is lost here, since both zeros are the whole number zero. -/
theorem of_whole?_eq_some (h : x.whole? = some n) :
    x.isFinite = true ∧ (n.natAbs : ℚ) = x.significand * 2 ^ x.exponent ∧
      (n ≠ 0 → decide (n < 0) = x.negative) := by
  unfold whole? at h
  dsimp only at h
  split at h
  · rename_i hwhole
    rw [Bool.and_eq_true, beq_iff_eq] at hwhole
    obtain ⟨hfinite, hdvd⟩ := hwhole
    have hunit : (0 : ℚ) < twoTo (-x.exponent).toNat := by exact_mod_cast twoTo_pos _
    -- The binary places divide the significand, so the quotient is the value itself.
    have hvalue : ((x.significand * twoTo x.exponent.toNat / twoTo (-x.exponent).toNat : ℕ) : ℚ)
        = x.significand * 2 ^ x.exponent := by
      rw [Nat.cast_div ((Nat.dvd_of_mod_eq_zero hdvd).mul_right _) hunit.ne', Nat.cast_mul,
        cast_twoTo, mul_div_assoc, mul_div_assoc, div_self hunit.ne', mul_one]
    rw [← hvalue]
    have hcast : (x.significand : ℤ) * twoTo x.exponent.toNat / twoTo (-x.exponent).toNat
        = (x.significand * twoTo x.exponent.toNat / twoTo (-x.exponent).toNat : ℕ) := by
      push_cast
      rfl
    rw [hcast] at h
    generalize x.significand * twoTo x.exponent.toNat / twoTo (-x.exponent).toNat = m at h
    cases h
    cases x.negative with
    | true => exact ⟨hfinite, by simp, fun hne => by simp at hne ⊢; omega⟩
    | false => exact ⟨hfinite, by simp, fun _ => by simp⟩
  · cases h

/-- The digits of a whole number that is not zero are read as the double that it is. -/
theorem ofDigits_of_whole? (h : x.whole? = some n) (hzero : x.isZero = false) :
    Numeral.ofDigits (n < 0) (decimalDigits n.natAbs) [] 0 = x := by
  obtain ⟨hfinite, hvalue, hsign⟩ := of_whole?_eq_some h
  have hpos := significand_pos hzero
  have hsome : n ≠ 0 := by
    rintro rfl
    have hnone : (x.significand : ℚ) * 2 ^ x.exponent ≠ 0 := by positivity
    exact hnone (by simpa using hvalue.symm)
  have hunit : (2 : ℚ) ^ x.exponent = 4 * 2 ^ (x.exponent - 2) := by
    rw [zpow_sub₀ two_ne_zero]
    ring
  -- The number lies in the middle of the interval of the double.
  have hcovers : x.Covers (n.natAbs * 10 ^ (0 : ℤ)) := by
    have hquarter : (0 : ℚ) < 2 ^ (x.exponent - 2) := by positivity
    rw [zpow_zero, mul_one, hvalue, hunit]
    refine covers_of_quarter hpos ?_ (by linarith)
    linarith
  rw [Numeral.ofDigits, hsign hsome, List.append_nil, Numeral.digitsValue_decimalDigits]
  exact ofDecimal_of_covers hfinite hpos hcovers

end Double

/-! ### What stands for a cell -/

namespace Report

/-- Whether a tree stands for a cell: a text for itself, a numeral for the number it is read as, and
`null` for a missing cell and a number that is not finite. A zero is written without its sign. -/
inductive StandsFor : Tree → Cell → Prop
  | null : StandsFor .null .null
  | text {s : String} : StandsFor (.string s) (.text s)
  | number {numeral : String} {x : Double} (hx : x.isFinite = true)
    (hread : Numeral.read? numeral = some (if x.isZero then .zero else x)) :
    StandsFor (.number numeral) (.number x)
  | notFinite {x : Double} (hx : x.isFinite = false) : StandsFor .null (.number x)

/-- A double is written as a numeral that is read as it, if it is not zero. -/
theorem standsFor_double {x : Double} (hzero : x.isZero = false) :
    StandsFor (tree (.double x)) (.number x) := by
  cases hx : x.isFinite with
  | true =>
    have htree : tree (.double x) = .number (String.ofList (doubleNumeral x)) := by
      rw [tree, if_pos hx]
    rw [htree]
    refine .number hx ?_
    rw [(isNumeral_doubleNumeral hx).read?_eq, hzero]
    rfl
  | false =>
    have htree : tree (.double x) = .null := by
      rw [tree, hx]
      rfl
    rw [htree]
    exact .notFinite hx

/-- A number is written as what stands for it, whichever of the two ways is taken. A whole number in
range is written as an integer, and everything else as a double. -/
theorem standsFor_number (x : Double) : StandsFor (number x).tree (.number x) := by
  unfold number
  cases hwhole : x.whole? with
  | some n =>
    obtain ⟨hx, -, -⟩ := Double.of_whole?_eq_some hwhole
    dsimp only
    split
    · -- As an integer the numeral is read back as the double, zero included.
      refine .number hx ?_
      rw [(isNumeral_integerNumeral n).read?_eq]
      cases hzero : x.isZero with
      | true =>
        obtain rfl := Option.some.inj (hwhole.symm.trans (Double.whole?_of_isZero hzero))
        rfl
      | false => exact congrArg some (Double.ofDigits_of_whole? hwhole hzero)
    · rename_i hlimit
      -- A great whole number is written as a double, and is not zero.
      refine standsFor_double ?_
      by_contra hzero
      obtain rfl := Option.some.inj
        (hwhole.symm.trans (Double.whole?_of_isZero (by simpa using hzero)))
      exact hlimit (by decide)
  | none =>
    dsimp only
    cases hx : x.isFinite with
    | true =>
      refine standsFor_double ?_
      by_contra hzero
      cases hwhole.symm.trans (Double.whole?_of_isZero (by simpa using hzero))
    | false => exact .notFinite hx

/-- What is written for a cell stands for it, whatever is in it. -/
theorem standsFor_cell (c : Cell) : StandsFor (cell c).tree c := by
  cases c with
  | null => exact .null
  | number x => exact standsFor_number x
  | text s => exact .text

/-! ### Answers -/

/-- The fields of a row are its cells under the columns in their order. -/
theorem tree_row {columns : List String} {cells : Row} (hcolumns : columns.Nodup)
    (hwidth : cells.length = columns.length) :
    ∃ fields, (row columns cells).tree = .object fields ∧ fields.map Prod.fst = columns ∧
      List.Forall₂ (fun field c => StandsFor field.2 c) fields cells := by
  have hkeys : (columns.zip (cells.map cell)).map Prod.fst = columns :=
    List.map_fst_zip (by simp [hwidth])
  have hnodup : ((columns.zip (cells.map cell)).map Prod.fst).Nodup := by rwa [hkeys]
  -- No column stands twice, so no field replaces another.
  have hrow : row columns cells = .object (columns.zip (cells.map cell)) :=
    congrArg Json.object (putFields_eq_self hnodup)
  refine ⟨_, by rw [hrow, tree], ?_, ?_⟩
  · rw [fieldTrees_eq_map, List.map_map]
    exact hkeys
  · rw [fieldTrees_eq_map, List.forall₂_map_left_iff]
    clear hkeys hnodup hrow hcolumns
    induction cells generalizing columns with
    | nil => simp
    | cons c cells ih =>
      obtain ⟨column, columns, rfl⟩ : ∃ column rest, columns = column :: rest :=
        List.exists_cons_of_length_eq_add_one hwidth.symm
      exact .cons (standsFor_cell c) (ih (by simpa using hwidth))

/-- The fields of the aggregates are their names, each once, with the values they have in the
answer. -/
theorem tree_aggregates (a : Answer) :
    ∃ fields, (Json.ofFields (a.aggregates.map fun (name, x) => (name, number x))).tree
        = .object fields ∧
      fields.map Prod.fst = (a.aggregates.map Prod.fst).eraseDups ∧
      ∀ name t, (name, t) ∈ fields →
        ∃ x, a.aggregate? name = some x ∧ StandsFor t (.number x) := by
  let entries := a.aggregates.map fun (name, x) => (name, number x)
  have hentries : entries.map Prod.fst = a.aggregates.map Prod.fst := by
    rw [List.map_map]
    rfl
  have hkeys : (putFields entries).map Prod.fst = (a.aggregates.map Prod.fst).eraseDups := by
    rw [map_fst_putFields, hentries]
  -- A later entry replaces the value of an earlier one, as the answer gives the last one.
  have hlookup : ∀ name, (putFields entries).lookup name = (a.aggregate? name).map number := by
    intro name
    rw [lookup_putFields, Answer.aggregate?, ← List.map_reverse, List.find?_map]
    simp only [Function.comp_def, Option.map_map]
  refine ⟨_, rfl, ?_, fun name t hmem => ?_⟩
  · rw [fieldTrees_eq_map, List.map_map]
    exact hkeys
  · rw [fieldTrees_eq_map] at hmem
    obtain ⟨⟨name', value⟩, hfield, heq⟩ := List.mem_map.1 hmem
    cases heq
    have hvalue := (hlookup name').symm.trans (lookup_of_mem (nodup_putFields entries) hfield)
    obtain ⟨x, hx, rfl⟩ := Option.map_eq_some_iff.1 hvalue
    exact ⟨x, hx, standsFor_number x⟩

/-- The JSON of an answer denotes one object, over one line or several: the number of rows; the rows
as objects whose keys are the columns in their order, with what stands for their cells; and the
aggregates, each name once and where it comes first, with what stands for its value in the
answer. -/
theorem denotes_document (a : Answer) (hcolumns : a.columns.Nodup)
    (hwidth : ∀ row ∈ a.rows, row.length = a.columns.length) :
    ∃ rows aggregates,
      let t : Tree := .object [
        ("record_count", .number (toString a.rowCount)),
        ("filtered_data", .array (rows.map .object)),
        ("aggregations", .object aggregates)]
      (∀ u, Denotes (compact a) u ↔ u = t) ∧ (∀ u, Denotes (pretty a) u ↔ u = t) ∧
      List.Forall₂ (fun row fields => fields.map Prod.fst = a.columns ∧
        List.Forall₂ (fun field c => StandsFor field.2 c) fields row) a.rows rows ∧
      aggregates.map Prod.fst = (a.aggregates.map Prod.fst).eraseDups ∧
      ∀ name u, (name, u) ∈ aggregates →
        ∃ x, a.aggregate? name = some x ∧ StandsFor u (.number x) := by
  obtain ⟨aggregates, haggregates, hnames, hvalues⟩ := tree_aggregates a
  -- The rows, one after the other, each an object over all columns.
  obtain ⟨rows, hrows, hcells⟩ : ∃ rows, a.rows.map (fun r => (row a.columns r).tree)
      = rows.map Tree.object ∧
      List.Forall₂ (fun row fields => fields.map Prod.fst = a.columns ∧
        List.Forall₂ (fun field c => StandsFor field.2 c) fields row) a.rows rows := by
    generalize a.rows = cells at hwidth
    induction cells with
    | nil => exact ⟨[], rfl, .nil⟩
    | cons r rest ih =>
      obtain ⟨hr, hrest⟩ := List.forall_mem_cons.1 hwidth
      obtain ⟨rows, hrows, hcells⟩ := ih hrest
      obtain ⟨fields, hfields, hrow⟩ := tree_row hcolumns hr
      exact ⟨fields :: rows, by simp [hfields, hrows], .cons hrow hcells⟩
  have htree : (document a).tree = .object [
      ("record_count", .number (toString a.rowCount)),
      ("filtered_data", .array (rows.map .object)),
      ("aggregations", .object aggregates)] := by
    have hcount : tree (.integer a.rowCount) = .number (toString a.rowCount) := rfl
    rw [document, tree, fieldTrees, fieldTrees, fieldTrees, fieldTrees, hcount, haggregates, tree,
      itemTrees_eq_map, List.map_map]
    exact congrArg (fun rows => Tree.object [_, ("filtered_data", .array rows), _]) hrows
  -- Either layout denotes the tree of the document and no other.
  refine ⟨rows, aggregates, fun u => ?_, fun u => ?_, hcells, hnames, hvalues⟩
  · rw [← htree]
    exact denotes_compact_iff
  · rw [← htree]
    exact denotes_pretty_iff

/-- A negative zero, a number that is none, a text to be escaped, and an aggregate that is asked for
twice. -/
theorem denotes_document_repeated :
    let a : Answer := {
      columns := ["n", "s"]
      rowCount := 2
      rows := [[.number Double.zero.neg, .text "a \"b\"\n"], [.number (.nan false), .null]]
      aggregates := [("count_n", .ofNat 2), ("sum_n", .zero), ("count_n", .ofNat 3)] }
    a.columns.Nodup ∧ (∀ row ∈ a.rows, row.length = a.columns.length) ∧
    ∃ rows aggregates,
      let t : Tree := .object [
        ("record_count", .number (toString a.rowCount)),
        ("filtered_data", .array (rows.map .object)),
        ("aggregations", .object aggregates)]
      (∀ u, Denotes (compact a) u ↔ u = t) ∧ (∀ u, Denotes (pretty a) u ↔ u = t) ∧
      List.Forall₂ (fun row fields => fields.map Prod.fst = a.columns ∧
        List.Forall₂ (fun field c => StandsFor field.2 c) fields row) a.rows rows ∧
      aggregates.map Prod.fst = (a.aggregates.map Prod.fst).eraseDups ∧
      ∀ name u, (name, u) ∈ aggregates →
        ∃ x, a.aggregate? name = some x ∧ StandsFor u (.number x) := by
  intro a
  have hcolumns : a.columns.Nodup := by decide
  have hwidth : ∀ row ∈ a.rows, row.length = a.columns.length := by decide
  exact ⟨hcolumns, hwidth, denotes_document a hcolumns hwidth⟩

end Report

end Roster
