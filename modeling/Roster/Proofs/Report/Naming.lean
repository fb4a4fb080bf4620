import Roster.Proofs.Number.Positional
import Roster.Proofs.Query.Answer
import Roster.Proofs.Report.Document
import Roster.Report.Summary

/-!
# `Roster.Proofs.Report.Naming`: the names of aggregates are unambiguous

An aggregate is reported under the name of its function, an underscore, and its column, and nothing
in the column is escaped. Two readers depend on that name. The report takes it apart at the first
underscore, to write the function and the column on a line, and the document takes aggregates of one
name to be the same one, and keeps the last.

Both are right for every column, whatever is in it, because no function has an underscore in its
name: what stands before the first one is the function, and all behind it the column
(`takeWhile_name`, `dropWhile_name`). So the line names what was asked for (`aggregateLine_name`),
and equal names come from equal aggregates (`name_injective`). These have equal values in one
answer, so nothing is lost where one of them is kept for all (`Answer.Unambiguous`): it does not
matter that it is the last one, and the document has the entries of the answer without repetitions
(`putFields_of_unambiguous`).
-/

set_option autoImplicit false

namespace Roster

/-! ### Names -/

/-- The word for a function at the start of a line. -/
def AggregateFunction.label : AggregateFunction → String
  | count => "Count"
  | sum => "Sum"
  | average => "Average"

namespace AggregateFunction

/-- No function has an underscore in its name. -/
theorem ne_underscore_of_mem_name (f : AggregateFunction) :
    ∀ c ∈ f.name.toList, (c != '_') = true := by
  cases f <;> simp [name]

/-- No two functions have the same word. -/
theorem name_inj {f g : AggregateFunction} (h : f.name.toList = g.name.toList) : f = g := by
  cases f <;> cases g <;> simp [name] at h ⊢

end AggregateFunction

namespace Aggregate

variable {a b : Aggregate}

/-- The name of an aggregate is the word of its function and its column, with an underscore between
them. -/
theorem toList_name (a : Aggregate) :
    a.name.toList = a.function.name.toList ++ '_' :: a.column.toList := by
  simp [name]

/-- What stands before the first underscore of a name is the function. -/
theorem takeWhile_name (a : Aggregate) :
    a.name.toList.takeWhile (· != '_') = a.function.name.toList := by
  rw [toList_name, List.takeWhile_append_of_pos a.function.ne_underscore_of_mem_name,
    List.takeWhile_cons_of_neg (by decide), List.append_nil]

/-- What stands behind it is the column, with all the underscores that are in it. -/
theorem dropWhile_name (a : Aggregate) :
    a.name.toList.dropWhile (· != '_') = '_' :: a.column.toList := by
  rw [toList_name, List.dropWhile_append_of_pos a.function.ne_underscore_of_mem_name,
    List.dropWhile_cons_of_neg (by decide)]

/-- A name belongs to one aggregate. -/
theorem name_injective : Function.Injective name := by
  intro a b hname
  have hfunction : a.function = b.function := by
    refine AggregateFunction.name_inj ?_
    rw [← takeWhile_name, ← takeWhile_name, hname]
  have hcolumn : a.column = b.column := by
    have hrest : '_' :: a.column.toList = '_' :: b.column.toList := by
      rw [← dropWhile_name, ← dropWhile_name, hname]
    exact String.toList_inj.1 (List.cons.inj hrest).2
  obtain ⟨_, _⟩ := a
  obtain ⟨_, _⟩ := b
  simp_all

end Aggregate

/-! ### Lines of a report -/

namespace Report

/-- The line of an aggregate names its function and its column. -/
theorem aggregateLine_name (a : Aggregate) (x : Double) :
    aggregateLine a.name x = a.function.label ++ " of " ++ a.column ++ ": "
      ++ if a.function = .count then x.positional else x.twoPlaces := by
  have hlabel : String.ofList (capitalized a.function.name.toList) = a.function.label := by
    cases a.function <;> rfl
  have hcount : a.function.name.toList = "count".toList ↔ a.function = .count :=
    ⟨fun h => AggregateFunction.name_inj h, fun h => by rw [h]; rfl⟩
  rw [aggregateLine]
  simp only [Aggregate.takeWhile_name, Aggregate.dropWhile_name, List.drop_one, List.tail_cons,
    String.ofList_toList, hlabel, hcount]

end Report

/-! ### Entries of an answer -/

namespace Answer

variable {r : Answer} {name : String} {x : Double}

/-- Whether entries of one name are the same. -/
def Unambiguous (entries : List (String × Double)) : Prop :=
  ∀ entry ∈ entries, ∀ entry' ∈ entries, entry.1 = entry'.1 → entry = entry'

/-- Then the value of a name is the value of any of its entries. -/
theorem aggregate?_eq_some_iff (h : Unambiguous r.aggregates) :
    r.aggregate? name = some x ↔ (name, x) ∈ r.aggregates := by
  rw [aggregate?, Option.map_eq_some_iff]
  constructor
  · rintro ⟨entry, hfind, rfl⟩
    have hname : entry.1 = name := by simpa using List.find?_some hfind
    rw [← hname]
    exact List.mem_reverse.1 (List.mem_of_find?_eq_some hfind)
  · intro hmem
    cases hfind : r.aggregates.reverse.find? (·.1 == name) with
    | none =>
      have hnone := List.find?_eq_none.1 hfind (name, x) (List.mem_reverse.2 hmem)
      exact absurd (beq_self_eq_true name) hnone
    | some entry =>
      have hname : entry.1 = name := by simpa using List.find?_some hfind
      have hentry := List.mem_reverse.1 (List.mem_of_find?_eq_some hfind)
      exact ⟨entry, rfl, congrArg Prod.snd (h entry hentry (name, x) hmem hname)⟩

/-- What is put into the document is the entries, each once. The entries are put in one after the
other. One whose name is there already is the same entry, so it changes nothing. -/
theorem putFields_of_unambiguous {entries : List (String × Double)} (h : Unambiguous entries) :
    Json.putFields (entries.map fun (name, x) => (name, Report.number x))
      = entries.eraseDups.map fun (name, x) => (name, Report.number x) := by
  induction entries using List.reverseRecOn with
  | nil => rfl
  | append_singleton entries entry ih =>
    obtain ⟨name, x⟩ := entry
    have hentries : Unambiguous entries := by
      intro entry hentry entry' hentry'
      exact h entry (List.mem_append_left _ hentry) entry' (List.mem_append_left _ hentry')
    -- An entry of the name that is there already is the one that is put in.
    have hsame : ∀ y, (name, y) ∈ entries → y = x := by
      intro y hy
      exact congrArg Prod.snd (h (name, y) (List.mem_append_left _ hy) (name, x) (by simp) rfl)
    rw [List.map_append, List.map_singleton, Json.putFields_concat, ih hentries,
      List.eraseDups_append]
    by_cases hmem : (name, x) ∈ entries
    · have hnone : [(name, x)].removeAll entries = [] := by simp [List.removeAll, hmem]
      rw [hnone, List.eraseDups_nil, List.append_nil]
      refine Json.insertField_of_forall ?_ ?_
      · have hkept := List.mem_map_of_mem (f := fun (name, x) => (name, Report.number x))
          (List.mem_eraseDups.2 hmem)
        exact List.mem_map_of_mem (f := Prod.fst) hkept
      · intro field hfield hname
        obtain ⟨⟨_, y⟩, hy, rfl⟩ := List.mem_map.1 hfield
        obtain rfl : _ = name := hname
        rw [hsame y (List.mem_eraseDups.1 hy)]
    · have hnew : [(name, x)].removeAll entries = [(name, x)] := by
        simp [List.removeAll, hmem]
      have hone : [(name, x)].eraseDups = [(name, x)] := by simp [List.eraseDups_cons]
      rw [hnew, hone, List.map_append, List.map_singleton]
      refine Json.insertField_of_notMem ?_
      intro hkey
      obtain ⟨_, hfield, hname⟩ := List.mem_map.1 hkey
      obtain ⟨⟨_, y⟩, hy, rfl⟩ := List.mem_map.1 hfield
      obtain rfl : _ = name := hname
      have hy' := List.mem_eraseDups.1 hy
      rw [hsame y hy'] at hy'
      exact hmem hy'

end Answer

/-- The entries of an answer have the names of the aggregates that are asked for. -/
theorem Query.map_fst_aggregates {q : Query} {emptyAverage : EmptyAverage} {t : Table} {r : Answer}
    (h : q.answer emptyAverage t = .ok r) :
    r.aggregates.map Prod.fst = q.aggregates.map Aggregate.name := by
  obtain ⟨-, -, hanswer⟩ := isAnswer_of_answer h
  rw [hanswer.aggregates, List.map_map]
  rfl

/-- Entries of one name come from one aggregate, and an aggregate has one value in an answer. -/
theorem Query.unambiguous_of_answer {q : Query} {emptyAverage : EmptyAverage} {t : Table}
    {r : Answer} (h : q.answer emptyAverage t = .ok r) : Answer.Unambiguous r.aggregates := by
  obtain ⟨-, -, hanswer⟩ := isAnswer_of_answer h
  rw [hanswer.aggregates]
  intro entry hentry entry' hentry' hname
  obtain ⟨a, -, rfl⟩ := List.mem_map.1 hentry
  obtain ⟨b, -, rfl⟩ := List.mem_map.1 hentry'
  obtain rfl : a = b := Aggregate.name_injective hname
  rfl

/-- The names of aggregates are unambiguous, whatever their columns are.

- Aggregates of one name are the same aggregate.
- The line of an aggregate in a report has the word for its function, the whole column, and the
  value: a count as a plain number, which is read back as the value, and any other value with two
  places, as the nearest hundredths. Both are said of finite values.
- The entries of an answer have the names of the aggregates that are asked for. Entries of one name
  come from equal aggregates and have equal values, so a name is looked up to the value of any of
  its entries, and the document has the entries, each once. -/
theorem names_unambiguous :
    Function.Injective Aggregate.name ∧
    (∀ (a : Aggregate) (x : Double), Report.aggregateLine a.name x
      = a.function.label ++ " of " ++ a.column ++ ": "
        ++ if a.function = .count then x.positional else x.twoPlaces) ∧
    (∀ x : Double, x.isFinite = true →
      (∃ text whole fraction, x.positional = String.ofList (x.signChars ++ text) ∧
        Numeral.IsPlain text whole fraction ∧ Numeral.read? x.positional = some x) ∧
      ∃ text whole fraction, x.twoPlaces = String.ofList (x.signChars ++ text) ∧
        Numeral.IsPlain text whole fraction ∧ fraction.length = 2 ∧
        |(Numeral.digitsValue (whole ++ fraction) : ℚ) - 100 * (x.significand * 2 ^ x.exponent)|
          ≤ 1 / 2) ∧
    ∀ (q : Query) (emptyAverage : EmptyAverage) (t : Table) (r : Answer),
      q.answer emptyAverage t = .ok r →
      r.aggregates.map Prod.fst = q.aggregates.map Aggregate.name ∧
      (∀ (i j : Nat) (a b : Aggregate) (entry entry' : String × Double),
        q.aggregates[i]? = some a → r.aggregates[i]? = some entry →
        q.aggregates[j]? = some b → r.aggregates[j]? = some entry' →
        entry.1 = entry'.1 → a = b ∧ entry.2 = entry'.2) ∧
      (∀ name x, r.aggregate? name = some x ↔ (name, x) ∈ r.aggregates) ∧
      (Report.document r).field? "aggregations"
        = some (.object (r.aggregates.eraseDups.map fun (name, x) => (name, Report.number x))) := by
  refine ⟨Aggregate.name_injective, Report.aggregateLine_name, ?_, ?_⟩
  · intro x hx
    obtain ⟨text, whole, fraction, htext, hplain, -⟩ := Double.exists_isPlain_positional hx
    exact ⟨⟨text, whole, fraction, htext, hplain, Double.read?_positional hx⟩,
      Double.exists_isPlain_twoPlaces hx⟩
  · intro q emptyAverage t r hr
    have hunambiguous := Query.unambiguous_of_answer hr
    have hnames := Query.map_fst_aggregates hr
    -- The entry at a place has the name of the aggregate there.
    have hname : ∀ {i : Nat} {a : Aggregate} {entry : String × Double},
        q.aggregates[i]? = some a → r.aggregates[i]? = some entry → entry.1 = a.name := by
      intro i a entry ha hentry
      have hi := congrArg (·[i]?) hnames
      simpa [ha, hentry] using hi
    refine ⟨hnames, ?_, fun name x => Answer.aggregate?_eq_some_iff hunambiguous, ?_⟩
    · intro i j a b entry entry' ha hentry hb hentry' hsame
      -- One name is one aggregate, so both entries are of the same aggregate.
      rw [hname ha hentry, hname hb hentry'] at hsame
      refine ⟨Aggregate.name_injective hsame, ?_⟩
      refine congrArg Prod.snd (hunambiguous entry (List.mem_of_getElem? hentry) entry'
        (List.mem_of_getElem? hentry') ?_)
      rw [hname ha hentry, hname hb hentry', hsame]
    · rw [← Answer.putFields_of_unambiguous hunambiguous]
      rfl

/-- A column with underscores, one that is an underscore, and an aggregate that is asked for
twice. -/
theorem names_unambiguous_underscores :
    let q : Query := { aggregates := [⟨.count, "x_y"⟩, ⟨.count, "_"⟩, ⟨.count, "x_y"⟩] }
    let one : Double := Double.ofNat 1
    one.isFinite = true ∧
    (∃ text whole fraction, one.twoPlaces = String.ofList (one.signChars ++ text) ∧
      Numeral.IsPlain text whole fraction ∧ fraction.length = 2) ∧
    ∃ t r, Table.ofCells ["x_y", "_"] [[.text "a", .null]] = .ok t ∧ q.answer .nan t = .ok r ∧
      (∀ name x, r.aggregate? name = some x ↔ (name, x) ∈ r.aggregates) ∧
      (Report.document r).field? "aggregations"
        = some (.object [("count_x_y", Report.number one), ("count__", Report.number one)]) := by
  intro q one
  obtain ⟨t, ht⟩ : ∃ t, Table.ofCells ["x_y", "_"] [[.text "a", .null]] = .ok t := ⟨_, rfl⟩
  obtain ⟨r, hr⟩ : ∃ r, q.answer .nan t = .ok r := by
    cases ht
    exact ⟨_, rfl⟩
  obtain ⟨-, -, hnumbers, hanswers⟩ := names_unambiguous
  have hfinite : one.isFinite = true := by decide
  obtain ⟨text, whole, fraction, htext, hplain, hlength, -⟩ := (hnumbers one hfinite).2
  obtain ⟨-, -, hlookUp, hdocument⟩ := hanswers q .nan t r hr
  refine ⟨hfinite, ⟨text, whole, fraction, htext, hplain, hlength⟩, t, r, ht, hr, hlookUp, ?_⟩
  -- The two entries of one name are one field of the document.
  rw [hdocument]
  cases ht
  cases hr
  rfl

end Roster
