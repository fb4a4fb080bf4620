import Mathlib.Data.List.TakeWhile
import Roster.Shell.Extract

/-!
# `Roster.Proofs.Shell.Sections`: combined files and the scripts in them

A header line is given by its parts in `IsHeader`, without the reader that looks for one part after
the other; `headerNumber?_eq_some_iff` says that this reader finds the number of exactly these
lines. Lines are those that `List.splitOn` gives (`splitLines_eq`).

There are two statements about a combined file. Scripts that are put together under header lines
come back one by one (`extractScripts_combine`). And any text is cut at its header lines into
sections that are the whole of it from the first header on; the scripts are the bodies of the
sections without the blanks around them (`exists_isCut`). `extractScripts_undoes_combine` has
both.

Cutting goes from the last line to the first. What stands in front of the first header is kept
with a line feed before it, and that is the body of a section as soon as a header comes before it.
Whether the line feed in front of the next header belongs to the body makes no difference once
blanks are dropped, so `exists_isCut` carries it along as an open end.
-/

set_option autoImplicit false

namespace Roster.Shell

open Text

variable {line number rest cs : List Char}

/-! ### Blanks at the ends -/

/-- A blank at the start is dropped. -/
theorem trim_cons_of_isBlank {c : Char} (hc : isBlank c = true) (cs : List Char) :
    trim (String.ofList (c :: cs)) = trim (String.ofList cs) := by
  simp [trim, trimStart, hc]

/-- A blank at the end is dropped. -/
theorem trim_concat_of_isBlank {c : Char} (hc : isBlank c = true) (cs : List Char) :
    trim (String.ofList (cs ++ [c])) = trim (String.ofList cs) := by
  rw [trim, trim, String.toList_ofList, String.toList_ofList, trimStart, trimStart,
    List.dropWhile_append]
  split
  · rename_i hnone
    simp [List.isEmpty_iff.1 hnone, hc]
  · simp [trimEnd, hc]

/-! ### Header lines -/

/-- A header line with a number: `//`, `Script`, the number and a colon, in this order. Spaces and
tabs may stand before each of them and have to stand before the number; whatever follows the colon
describes the script. -/
inductive IsHeader : List Char → List Char → Prop
  | intro {indent gap skip number space : List Char} (description : List Char) :
      (∀ c ∈ indent, isIndent c = true) →
      (∀ c ∈ gap, isIndent c = true) →
      (∀ c ∈ skip, isIndent c = true) → skip ≠ [] →
      (∀ c ∈ number, isDecimalDigit c = true) → number ≠ [] →
      (∀ c ∈ space, isIndent c = true) →
      IsHeader (indent ++ ("//".toList ++ (gap ++ ("Script".toList ++ (skip ++
        (number ++ (space ++ ':' :: description))))))) number

/-- A front is dropped from the texts that start with it. -/
theorem dropFront?_eq_some_iff {front : List Char} :
    dropFront? front cs = some rest ↔ cs = front ++ rest := by
  induction front generalizing cs with
  | nil => simp [dropFront?]
  | cons p ps ih =>
    cases cs with
    | nil => simp [dropFront?]
    | cons c cs =>
      rw [dropFront?]
      split
      · rename_i hc
        rw [ih, hc, List.cons_append, List.cons.injEq, eq_self, true_and]
      · rename_i hc
        simp [Ne.symm hc]

/-- Spaces and tabs are no digits, so a run of the one ends where a run of the other starts. -/
theorem isDecimalDigit_of_isIndent {c : Char} (h : isIndent c = true) :
    isDecimalDigit c = false := by
  rcases (by simpa [isIndent] using h : c = ' ' ∨ c = '\t') with rfl | rfl <;> decide

/-! A part of a header is a run of characters of one class, and the next one is of no such class. -/

section Runs

variable {p : Char → Bool} {run : List Char}

/-- A run is taken as far as it goes. -/
theorem takeWhile_run (hrun : ∀ c ∈ run, p c = true) (hrest : rest.head?.any p = false) :
    (run ++ rest).takeWhile p = run := by
  rw [List.takeWhile_append_of_pos hrun]
  cases rest with
  | nil => exact List.append_nil run
  | cons c rest =>
    rw [List.takeWhile_cons_of_neg (by simpa using hrest)]
    exact List.append_nil run

/-- What stands behind a run is left. -/
theorem dropWhile_run (hrun : ∀ c ∈ run, p c = true) (hrest : rest.head?.any p = false) :
    (run ++ rest).dropWhile p = rest := by
  rw [List.dropWhile_append_of_pos hrun]
  cases rest with
  | nil => rfl
  | cons c rest => exact List.dropWhile_cons_of_neg (by simpa using hrest)

end Runs

/-- A line with the parts of a header is read as one. Each part is taken as far as it goes, so it
has to be shown that the next part starts with something else. -/
theorem headerNumber?_of_isHeader (h : IsHeader line number) :
    headerNumber? line = some number := by
  obtain ⟨description, hindent, hgap, hskip, hskip', hnumber, hnumber', hspace⟩ := h
  rename_i indent gap skip space
  obtain ⟨s, skip', rfl⟩ := List.exists_cons_of_ne_nil hskip'
  obtain ⟨d, number', rfl⟩ := List.exists_cons_of_ne_nil hnumber'
  have hs : isIndent s = true := hskip s List.mem_cons_self
  have hd : isIndent d = false := by
    rw [Bool.eq_false_iff]
    intro hd
    exact absurd (hnumber d List.mem_cons_self) (by simp [isDecimalDigit_of_isIndent hd])
  -- Behind the digits there are blanks or the colon, and neither of them is a digit.
  have hbehind : (space ++ ':' :: description).head?.any isDecimalDigit = false := by
    cases space with
    | nil => exact (by decide : isDecimalDigit ':' = false)
    | cons b space => exact isDecimalDigit_of_isIndent (hspace b List.mem_cons_self)
  rw [headerNumber?, dropWhile_run hindent (by rfl), dropFront?_eq_some_iff.2 rfl]
  simp only [Option.bind_eq_bind, Option.bind_some]
  rw [dropWhile_run hgap (by rfl), dropFront?_eq_some_iff.2 rfl]
  simp only [Option.bind_some]
  rw [if_neg (by simp [hs]), dropWhile_run hskip (by simpa using hd),
    takeWhile_run hnumber hbehind, dropWhile_run hnumber hbehind, dropWhile_run hspace (by rfl)]
  rfl

/-- A line that is read as a header has its parts. The reader takes them one after the other, so the
line is what it has taken, put together again. -/
theorem isHeader_of_headerNumber? (h : headerNumber? line = some number) :
    IsHeader line number := by
  unfold headerNumber? at h
  obtain ⟨behindSlashes, hslashes, h⟩ := Option.bind_eq_some_iff.1 h
  obtain ⟨behindWord, hword, h⟩ := Option.bind_eq_some_iff.1 h
  rw [dropFront?_eq_some_iff] at hslashes hword
  split at h
  case isTrue => cases h
  case isFalse hskip =>
    dsimp only at h
    split at h
    case isFalse => cases h
    case isTrue hfound =>
      cases h
      simp only [Bool.and_eq_true, Bool.not_eq_true', List.isEmpty_eq_false_iff, beq_iff_eq]
        at hfound
      obtain ⟨hnumber, hcolon⟩ := hfound
      -- The colon starts what stands behind the number.
      obtain ⟨description, hdescription⟩ : ∃ description,
          ((behindWord.dropWhile isIndent).dropWhile isDecimalDigit).dropWhile isIndent
            = ':' :: description := by
        cases hcut :
          ((behindWord.dropWhile isIndent).dropWhile isDecimalDigit).dropWhile isIndent with
        | nil => rw [hcut] at hcolon; cases hcolon
        | cons c description =>
          rw [hcut] at hcolon
          cases hcolon
          exact ⟨description, rfl⟩
      have hne : behindWord.takeWhile isIndent ≠ [] := by
        cases behindWord with
        | nil => simp at hskip
        | cons c behindWord => simp_all
      -- Each part is what has been taken from the line at its place.
      have hline : line = line.takeWhile isIndent ++ ("//".toList ++
          (behindSlashes.takeWhile isIndent ++ ("Script".toList ++
          (behindWord.takeWhile isIndent ++
          ((behindWord.dropWhile isIndent).takeWhile isDecimalDigit ++
          (((behindWord.dropWhile isIndent).dropWhile isDecimalDigit).takeWhile isIndent ++
            ':' :: description)))))) := by
        rw [← hdescription, List.takeWhile_append_dropWhile, List.takeWhile_append_dropWhile,
          List.takeWhile_append_dropWhile, ← hword, List.takeWhile_append_dropWhile, ← hslashes,
          List.takeWhile_append_dropWhile]
      rw [hline]
      have hindent : ∀ {cs : List Char}, ∀ c ∈ cs.takeWhile isIndent, isIndent c = true :=
        fun c hc => List.mem_takeWhile_imp hc
      exact .intro description hindent hindent hindent hne
        (fun c hc => List.mem_takeWhile_imp hc) hnumber hindent

/-- A number is found exactly in a header line. -/
theorem headerNumber?_eq_some_iff : headerNumber? line = some number ↔ IsHeader line number :=
  ⟨isHeader_of_headerNumber?, headerNumber?_of_isHeader⟩

/-- Whether a line is a header line, of whatever number. -/
def IsHeaderLine (line : List Char) : Prop := ∃ number, IsHeader line number

/-- Header lines are the lines in which a number is found. -/
theorem isHeaderLine_iff : IsHeaderLine line ↔ (headerNumber? line).isSome = true := by
  simp only [IsHeaderLine, ← headerNumber?_eq_some_iff, Option.isSome_iff_exists]

/-- A header line is told by reading it. -/
instance : DecidablePred IsHeaderLine := fun _ => decidable_of_iff _ isHeaderLine_iff.symm

/-- No number is found in any other line. -/
theorem headerNumber?_eq_none (h : ¬IsHeaderLine line) : headerNumber? line = none := by
  rwa [isHeaderLine_iff, Bool.not_eq_true, Option.isSome_eq_false_iff, Option.isNone_iff_eq_none]
    at h

/-! ### Lines -/

/-- The lines of a text. -/
def linesOf (cs : List Char) : List (List Char) := cs.splitOn '\n'

/-- One more character starts a line or makes the first one longer. -/
theorem linesOf_cons (c : Char) (cs : List Char) :
    linesOf (c :: cs)
      = if c = '\n' then [] :: linesOf cs else (linesOf cs).modifyHead (c :: ·) := by
  simp [linesOf, List.splitOn_cons_eq_if_modifyHead]

/-- Every text has a line, which may be empty. -/
theorem linesOf_ne_nil (cs : List Char) : linesOf cs ≠ [] := List.splitOn_ne_nil '\n' cs

/-- Lines that are split off one by one are the lines of the text. What has been read of the first
one is held the other way round. -/
theorem splitLines_eq (line cs : List Char) :
    splitLines line cs = (linesOf cs).modifyHead (line.reverse ++ ·) := by
  induction cs generalizing line with
  | nil => simp [splitLines, linesOf]
  | cons c cs ih =>
    obtain ⟨first, lines, hlines⟩ := List.exists_cons_of_ne_nil (linesOf_ne_nil cs)
    rw [splitLines, linesOf_cons, ih, ih, hlines]
    split <;> simp

/-- No line goes on past its end. -/
theorem lineFeed_notMem_of_mem_linesOf (h : line ∈ linesOf cs) : '\n' ∉ line := by
  induction cs generalizing line with
  | nil =>
    rw [linesOf, List.splitOn_nil, List.mem_singleton] at h
    simp [h]
  | cons c cs ih =>
    obtain ⟨first, lines, hlines⟩ := List.exists_cons_of_ne_nil (linesOf_ne_nil cs)
    rw [linesOf_cons, hlines] at h
    rw [hlines] at ih
    split at h
    · -- A line feed starts a line, which is empty so far.
      rcases List.mem_cons.1 h with rfl | h
      · exact List.not_mem_nil
      · exact ih h
    · rename_i hc
      rcases List.mem_cons.1 h with rfl | h
      · exact List.not_mem_cons_of_ne_of_not_mem (Ne.symm hc) (ih List.mem_cons_self)
      · exact ih (List.mem_cons_of_mem first h)

/-- A text is its lines with line feeds between them. -/
theorem intercalate_linesOf (cs : List Char) : ['\n'].intercalate (linesOf cs) = cs :=
  List.intercalate_splitOn '\n'

/-- The end of a line separates the lines before it from those behind it. -/
theorem linesOf_append_lineFeed (front rest : List Char) :
    linesOf (front ++ '\n' :: rest) = linesOf front ++ linesOf rest :=
  List.splitOn_append_cons_self front rest

/-- A text on one line is this line. -/
theorem linesOf_of_notMem (h : '\n' ∉ line) : linesOf line = [line] :=
  List.splitOn_eq_singleton h

/-- The text of lines, with a line feed before each of them. -/
theorem flatMap_lineFeed {lines : List (List Char)} (h : lines ≠ []) :
    lines.flatMap (fun line => '\n' :: line) = '\n' :: ['\n'].intercalate lines := by
  induction lines with
  | nil => exact absurd rfl h
  | cons line lines ih =>
    cases lines with
    | nil => simp
    | cons next lines =>
      rw [List.flatMap_cons, ih (by simp), List.intercalate_cons_cons]
      simp

/-- The numbers and texts of the scripts in lines. -/
def scriptsIn (lines : List (List Char)) : List (String × String) :=
  (sections lines).2.map fun (number, lines) => (String.ofList number, body lines)

/-- The scripts of a content are those of its lines. -/
theorem extractScripts_eq (content : String) :
    extractScripts content = scriptsIn (linesOf content.toList) := by
  obtain ⟨first, lines, hlines⟩ := List.exists_cons_of_ne_nil (linesOf_ne_nil content.toList)
  rw [extractScripts, splitLines_eq, hlines]
  rfl

/-- A header line opens a section that takes the lines up to the next one. -/
theorem sections_cons_of_isHeader (h : IsHeader line number) (lines : List (List Char)) :
    sections (line :: lines) = ([], (number, (sections lines).1) :: (sections lines).2) := by
  rw [sections, headerNumber?_of_isHeader h]

/-- Any other line goes to what stands in front of the first header. -/
theorem sections_cons_of_not (h : ¬IsHeaderLine line) (lines : List (List Char)) :
    sections (line :: lines) = (line :: (sections lines).1, (sections lines).2) := by
  rw [sections, headerNumber?_eq_none h]

/-- Lines without a header stand before the first script. -/
theorem sections_append {before : List (List Char)} (h : ∀ line ∈ before, ¬IsHeaderLine line)
    (lines : List (List Char)) :
    sections (before ++ lines) = (before ++ (sections lines).1, (sections lines).2) := by
  induction before with
  | nil => rfl
  | cons line before ih =>
    obtain ⟨hline, hbefore⟩ := List.forall_mem_cons.1 h
    rw [List.cons_append, sections_cons_of_not hline, ih hbefore]
    rfl

/-! ### Putting scripts together -/

/-- A script with the number and the description of its header line. -/
structure Entry where
  number : String
  description : String
  script : String

namespace Entry

/-- The header line. -/
def header (e : Entry) : String := "// Script " ++ e.number ++ ":" ++ e.description

/-- The header line and the script, each with a line feed behind it. -/
def text (e : Entry) : String := e.header ++ "\n" ++ e.script ++ "\n"

/-- Whether an entry can be told from what stands around it: its header is one line with a number,
and its script has no header line in it and no blanks around it. -/
structure Separable (e : Entry) : Prop where
  number_ne : e.number ≠ ""
  number_digits : ∀ c ∈ e.number.toList, isDecimalDigit c = true
  description_line : '\n' ∉ e.description.toList
  script_trimmed : trim e.script = e.script
  script_plain : ∀ line ∈ linesOf e.script.toList, ¬IsHeaderLine line

variable {e : Entry}

/-- The header of an entry is read as one, with its number. -/
theorem Separable.isHeader (h : e.Separable) : IsHeader e.header.toList e.number.toList := by
  have hparts : IsHeader ([] ++ ("//".toList ++ ([' '] ++ ("Script".toList ++ ([' '] ++
      (e.number.toList ++ ([] ++ ':' :: e.description.toList))))))) e.number.toList :=
    .intro _ (by simp) (by simp [isIndent]) (by simp [isIndent]) (by simp) h.number_digits
      (by simpa using h.number_ne) (by simp)
  simpa [header] using hparts

/-- The header of an entry is a single line. -/
theorem Separable.header_line (h : e.Separable) : '\n' ∉ e.header.toList := by
  have hnumber : '\n' ∉ e.number.toList := fun hmem =>
    absurd (h.number_digits _ hmem) (by decide)
  simp [header, hnumber, h.description_line]

/-- The lines of an entry, and of what follows it. -/
theorem Separable.linesOf_text (h : e.Separable) (rest : List Char) :
    linesOf (e.text.toList ++ rest)
      = e.header.toList :: (linesOf e.script.toList ++ linesOf rest) := by
  have htext : e.text.toList ++ rest
      = e.header.toList ++ '\n' :: (e.script.toList ++ '\n' :: rest) := by
    simp [text]
  rw [htext, linesOf_append_lineFeed, linesOf_append_lineFeed, linesOf_of_notMem h.header_line]
  rfl

end Entry

/-- A combined file: any text, and the entries behind it. -/
def combine (preamble : String) (entries : List Entry) : String :=
  preamble ++ "\n" ++ String.join (entries.map Entry.text)

/-- The script under a header line, whether an empty last line belongs to it or not. -/
theorem body_linesOf (script : String) {more : List (List Char)} (hmore : more = [] ∨ more = [[]]) :
    body (linesOf script.toList ++ more) = trim script := by
  have hscript : (linesOf script.toList).flatMap (fun line => '\n' :: line)
      = '\n' :: script.toList := by
    rw [flatMap_lineFeed (linesOf_ne_nil _), intercalate_linesOf]
  rw [body, List.flatMap_append, hscript]
  rcases hmore with rfl | rfl
  · rw [List.flatMap_nil, List.append_nil, trim_cons_of_isBlank (by decide), String.ofList_toList]
  · rw [List.flatMap_singleton, List.cons_append, trim_cons_of_isBlank (by decide),
      trim_concat_of_isBlank (by decide), String.ofList_toList]

/-- The lines of entries give their scripts, and leave at most the empty last line before them. -/
theorem scriptsIn_entries {entries : List Entry} (h : ∀ e ∈ entries, e.Separable) :
    let lines := linesOf (entries.flatMap fun e => e.text.toList)
    ((sections lines).1 = [] ∨ (sections lines).1 = [[]]) ∧
      scriptsIn lines = entries.map fun e => (e.number, e.script) := by
  induction entries with
  | nil => exact ⟨.inr rfl, rfl⟩
  | cons e entries ih =>
    obtain ⟨he, hentries⟩ := List.forall_mem_cons.1 h
    obtain ⟨hbefore, hscripts⟩ := ih hentries
    dsimp only at hbefore hscripts ⊢
    rw [List.flatMap_cons, he.linesOf_text, sections_cons_of_isHeader he.isHeader, scriptsIn,
      sections_cons_of_isHeader he.isHeader, sections_append he.script_plain]
    refine ⟨.inl rfl, ?_⟩
    dsimp only
    rw [List.map_cons, ← scriptsIn, hscripts, body_linesOf _ hbefore, he.script_trimmed,
      String.ofList_toList]
    rfl

/-- Entries that are put together come back one by one. -/
theorem extractScripts_combine {preamble : String} {entries : List Entry}
    (hpreamble : ∀ line ∈ linesOf preamble.toList, ¬IsHeaderLine line)
    (h : ∀ e ∈ entries, e.Separable) :
    extractScripts (combine preamble entries) = entries.map fun e => (e.number, e.script) := by
  have htext : (combine preamble entries).toList
      = preamble.toList ++ '\n' :: entries.flatMap fun e => e.text.toList := by
    simp [combine, List.flatMap_def, Function.comp_def]
  rw [extractScripts_eq, htext, linesOf_append_lineFeed, scriptsIn, sections_append hpreamble]
  exact (scriptsIn_entries h).2

/-! ### Cutting a text at its headers -/

/-- A header line of a text with its number, and the text up to the next header line. -/
structure Section where
  header : List Char
  number : List Char
  body : List Char

/-- The header line and the text behind it. -/
def Section.text (s : Section) : List Char := s.header ++ s.body

/-- Whether a line starts behind a text. -/
def StartsLine (front : List Char) : Prop := front = [] ∨ front.getLast? = some '\n'

/-- A line in front changes nothing about where lines start. -/
theorem StartsLine.append_lineFeed {front : List Char} (h : StartsLine front) (line : List Char) :
    StartsLine (line ++ '\n' :: front) := by
  rcases h with rfl | h
  · exact .inr (by simp)
  · exact .inr (by simp [List.getLast?_append, List.getLast?_cons, h])

/-- What it means that a text is cut into sections, and what stands in front of them.

- `text_eq`: together they are the text;
- `header`: the headers of the sections are header lines with their numbers;
- `headers_eq`: they are all header lines of the text, in their order;
- `starts`: every header starts a line;
- `ends`: every header ends its line, since a line feed or nothing comes behind it. -/
structure IsCut (cs front : List Char) (sections : List Section) : Prop where
  text_eq : cs = front ++ sections.flatMap Section.text
  header : ∀ s ∈ sections, IsHeader s.header s.number
  headers_eq : (linesOf cs).filter (IsHeaderLine ·) = sections.map Section.header
  starts : ∀ before s after, sections = before ++ s :: after →
    StartsLine (front ++ before.flatMap Section.text)
  ends : ∀ s ∈ sections, s.body = [] ∨ s.body.head? = some '\n'

namespace IsCut

variable {front : List Char} {secs : List Section}

/-- A text that is one line. -/
theorem of_line (hline : '\n' ∉ line) (h : ¬IsHeaderLine line) : IsCut line line [] where
  text_eq := by simp
  header := by simp
  headers_eq := by simp [linesOf_of_notMem hline, h]
  starts := by simp
  ends := by simp

/-- A text that is one header line. -/
theorem of_header (hline : '\n' ∉ line) (h : IsHeader line number) :
    IsCut line [] [⟨line, number, []⟩] where
  text_eq := by simp [Section.text]
  header := by simpa using h
  headers_eq := by
    rw [linesOf_of_notMem hline, List.filter_cons_of_pos (by simpa using ⟨number, h⟩)]
    rfl
  starts := by
    intro before s after hsplit
    cases before with
    | nil => exact .inl rfl
    | cons s before => simp at hsplit
  ends := by simp

/-- A line without a header goes to the front. -/
theorem cons_line (hcut : IsCut cs front secs) (hline : '\n' ∉ line) (h : ¬IsHeaderLine line) :
    IsCut (line ++ '\n' :: cs) (line ++ '\n' :: front) secs where
  text_eq := by simp [hcut.text_eq]
  header := hcut.header
  headers_eq := by
    simp [linesOf_append_lineFeed, linesOf_of_notMem hline, h, hcut.headers_eq]
  starts := by
    intro before s after hsplit
    rw [List.append_assoc, List.cons_append]
    exact (hcut.starts before s after hsplit).append_lineFeed line
  ends := hcut.ends

/-- A header line makes a section of what stands in front. -/
theorem cons_header (hcut : IsCut cs front secs) (hline : '\n' ∉ line)
    (h : IsHeader line number) :
    IsCut (line ++ '\n' :: cs) [] (⟨line, number, '\n' :: front⟩ :: secs) where
  text_eq := by simp [hcut.text_eq, Section.text]
  header := List.forall_mem_cons.2 ⟨h, hcut.header⟩
  headers_eq := by
    rw [linesOf_append_lineFeed, linesOf_of_notMem hline, List.singleton_append,
      List.filter_cons_of_pos (by simpa using ⟨number, h⟩), hcut.headers_eq]
    rfl
  starts := by
    intro before s after hsplit
    cases before with
    | nil => exact .inl rfl
    | cons first before =>
      obtain ⟨rfl, hsecs⟩ := List.cons.inj hsplit
      have htext : [] ++ (⟨line, number, '\n' :: front⟩ :: before).flatMap Section.text
          = line ++ '\n' :: (front ++ before.flatMap Section.text) := by
        simp [Section.text]
      rw [htext]
      exact (hcut.starts before s after hsecs).append_lineFeed line
  ends := List.forall_mem_cons.2 ⟨.inr rfl, hcut.ends⟩

end IsCut

/-- Lines are cut into sections that have the scripts of the lines. In front of the first section
stand the lines before the first header; a line feed behind them is left over if a header
follows. -/
theorem exists_isCut_of_lines {lines : List (List Char)} (hne : lines ≠ [])
    (hlines : ∀ line ∈ lines, '\n' ∉ line) :
    ∃ front secs, IsCut (['\n'].intercalate lines) front secs ∧
      scriptsIn lines = secs.map (fun s => (String.ofList s.number, trim (String.ofList s.body))) ∧
      ∃ left, (left = [] ∨ left = ['\n']) ∧
        '\n' :: front = (sections lines).1.flatMap (fun line => '\n' :: line) ++ left := by
  induction lines with
  | nil => exact absurd rfl hne
  | cons line lines ih =>
    obtain ⟨hline, hlines⟩ := List.forall_mem_cons.1 hlines
    cases lines with
    | nil =>
      by_cases h : IsHeaderLine line
      · obtain ⟨number, h⟩ := h
        refine ⟨[], [⟨line, number, []⟩], ?_, ?_, ['\n'], .inr rfl, ?_⟩
        · rw [List.intercalate_singleton]
          exact .of_header hline h
        · rw [scriptsIn, sections_cons_of_isHeader h]
          rfl
        · rw [sections_cons_of_isHeader h]
          rfl
      · refine ⟨line, [], ?_, ?_, [], .inl rfl, ?_⟩
        · rw [List.intercalate_singleton]
          exact .of_line hline h
        · rw [scriptsIn, sections_cons_of_not h]
          rfl
        · rw [sections_cons_of_not h]
          simp [sections]
    | cons next lines =>
      obtain ⟨front, secs, hcut, hscripts, left, hleft, hfront⟩ := ih (by simp) hlines
      -- The text is the line, a line feed, and the text of the other lines.
      have htext : ['\n'].intercalate (line :: next :: lines)
          = line ++ '\n' :: ['\n'].intercalate (next :: lines) := by
        rw [List.intercalate_cons_cons, List.append_assoc, List.singleton_append]
      rw [htext]
      by_cases h : IsHeaderLine line
      · obtain ⟨number, h⟩ := h
        refine ⟨[], _, hcut.cons_header hline h, ?_, ['\n'], .inr rfl, ?_⟩
        · -- The line feed left over is trimmed off the body.
          have hbody : trim (String.ofList ('\n' :: front))
              = body (sections (next :: lines)).1 := by
            rw [hfront, body]
            rcases hleft with rfl | rfl
            · rw [List.append_nil]
            · exact trim_concat_of_isBlank (by decide) _
          rw [scriptsIn, sections_cons_of_isHeader h, List.map_cons, List.map_cons, ← scriptsIn,
            hscripts, hbody]
        · rw [sections_cons_of_isHeader h]
          rfl
      · refine ⟨line ++ '\n' :: front, secs, hcut.cons_line hline h, ?_, left, hleft, ?_⟩
        · rw [scriptsIn, sections_cons_of_not h]
          exact hscripts
        · rw [sections_cons_of_not h, List.flatMap_cons, hfront]
          simp

/-- Every text is cut at its header lines, and the scripts are what is in the sections. -/
theorem exists_isCut (content : String) : ∃ front secs, IsCut content.toList front secs ∧
    extractScripts content
      = secs.map fun s => (String.ofList s.number, trim (String.ofList s.body)) := by
  obtain ⟨front, secs, hcut, hscripts, -⟩ :=
    exists_isCut_of_lines (linesOf_ne_nil content.toList)
      fun _ => lineFeed_notMem_of_mem_linesOf
  rw [intercalate_linesOf] at hcut
  exact ⟨front, secs, hcut, extractScripts_eq content ▸ hscripts⟩

/-- Extraction undoes assembly.

- Scripts that are put together behind a preamble without a header line, and that can be told from
  what stands around them, come back one by one, each with its number.
- Every content is cut at its header lines: what stands in front of the first one, and the header
  lines each with the text up to the next one, are the whole of it. The scripts are these texts
  without the blanks around them, in the same order and with the numbers of the header lines. -/
theorem extractScripts_undoes_combine :
    (∀ (preamble : String) (entries : List Entry),
      (∀ line ∈ linesOf preamble.toList, ¬IsHeaderLine line) → (∀ e ∈ entries, e.Separable) →
      extractScripts (combine preamble entries) = entries.map fun e => (e.number, e.script)) ∧
    ∀ content : String, ∃ front secs, IsCut content.toList front secs ∧
      extractScripts content
        = secs.map fun s => (String.ofList s.number, trim (String.ofList s.body)) :=
  ⟨fun _ _ hpreamble h => extractScripts_combine hpreamble h, exists_isCut⟩

/-- Two scripts behind a preamble: one with a comment that is no header, for want of a number, and
an empty one. -/
theorem extractScripts_undoes_combine_comment :
    let entries : List Entry :=
      [⟨"7", " all", "// Script one: all\nload \"a\";\n\nprint;"⟩, ⟨"08", "", ""⟩]
    (∀ line ∈ linesOf "Examples".toList, ¬IsHeaderLine line) ∧ (∀ e ∈ entries, e.Separable) ∧
    extractScripts (combine "Examples" entries)
      = [("7", "// Script one: all\nload \"a\";\n\nprint;"), ("08", "")] := by
  intro entries
  have hpreamble : ∀ line ∈ linesOf "Examples".toList, ¬IsHeaderLine line := by decide +kernel
  have h : ∀ e ∈ entries, e.Separable := by
    refine List.forall_mem_cons.2 ⟨?_, List.forall_mem_cons.2 ⟨?_, by simp⟩⟩
    · exact ⟨by decide, List.all_eq_true.1 (by decide), by decide, by decide +kernel,
        by decide +kernel⟩
    · exact ⟨by decide, List.all_eq_true.1 (by decide), by decide, by decide +kernel,
        by decide +kernel⟩
  exact ⟨hpreamble, h, extractScripts_undoes_combine.1 "Examples" entries hpreamble h⟩

end Roster.Shell
