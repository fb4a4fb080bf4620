import Mathlib.Data.List.TakeWhile
import Roster.Proofs.Files.Writing
import Roster.Shell.Extract

/-!
# `Roster.Proofs.Shell.Extract`: what is left of extracted scripts

Every script of a combined file is written, and there is a path for each of them
(`writeScripts_eq_ok_iff`). A script is named for its number, filled up to two characters. So
scripts with the same number go to the same file, and so do two whose numbers differ only in a zero
that fills one of them up (`filled_eq_iff`). What is read from the path of a script afterwards is
the last script with its file: `readText_of_writeExtracted` says which one that is.
`writeExtracted_repeated_number` is a combined file of which a script is lost.

`Written` says without the recursion of the writer that scripts are written one after the other.
The files of a directory that are not named for any of them can be read as before
(`Written.readText`), which is used for what stands behind the last script with a number.
-/

set_option autoImplicit false

namespace Roster.Shell

open Text

variable {f f' : Files} {directory number name text content : String}
  {scripts before after : List (String × String)} {written : List String}

/-! ### Numbers and file names -/

/-- A header has a number, and nothing but digits in it. -/
theorem digits_of_headerNumber? {line digits : List Char} (h : headerNumber? line = some digits) :
    digits ≠ [] ∧ ∀ c ∈ digits, isDecimalDigit c = true := by
  unfold headerNumber? at h
  obtain ⟨rest, -, h⟩ := Option.bind_eq_some_iff.1 h
  obtain ⟨rest, -, h⟩ := Option.bind_eq_some_iff.1 h
  split at h
  · cases h
  · dsimp only at h
    split at h
    case isTrue hfound =>
      cases h
      simp only [Bool.and_eq_true, Bool.not_eq_true'] at hfound
      exact ⟨by simpa using hfound.1, fun c hc => List.mem_takeWhile_imp hc⟩
    case isFalse => cases h

/-- Every section has digits for its number, at least one. -/
theorem digits_of_mem_sections {lines : List (List Char)} {entry : List Char × List (List Char)}
    (h : entry ∈ (sections lines).2) :
    entry.1 ≠ [] ∧ ∀ c ∈ entry.1, isDecimalDigit c = true := by
  induction lines with
  | nil => cases h
  | cons line lines ih =>
    rw [sections] at h
    split at h
    rename_i hsections
    rw [hsections] at ih
    split at h
    · rename_i hnumber
      rcases List.mem_cons.1 h with rfl | h
      · exact digits_of_headerNumber? hnumber
      · exact ih h
    · exact ih h

/-- The number of an extracted script is a run of digits, and there is one at least. -/
theorem digits_of_mem_extractScripts {entry : String × String}
    (h : entry ∈ extractScripts content) :
    entry.1 ≠ "" ∧ ∀ c ∈ entry.1.toList, isDecimalDigit c = true := by
  obtain ⟨⟨digits, lines⟩, hmem, rfl⟩ := List.mem_map.1 h
  obtain ⟨hne, hdigits⟩ := digits_of_mem_sections hmem
  exact ⟨by simpa using hne, by simpa using hdigits⟩

/-- The number with as many zeros before it as make two characters. -/
def filled (number : String) : String :=
  String.ofList (List.replicate (2 - number.length) '0') ++ number

/-- A file is named by the filled number of its script. -/
theorem scriptFileName_eq (number : String) :
    scriptFileName number = "script_" ++ filled number ++ ".dsl" := by
  rw [filled, ← String.append_assoc]
  rfl

/-- Two numbers have the same file only if they are filled alike. -/
theorem scriptFileName_eq_iff {m n : String} :
    scriptFileName m = scriptFileName n ↔ filled m = filled n := by
  rw [scriptFileName_eq, scriptFileName_eq, String.append_left_inj, String.append_right_inj]

/-- A single digit is filled. -/
theorem filled_of_length_eq_one (h : number.length = 1) : filled number = "0" ++ number := by
  rw [filled, h]
  rfl

/-- A longer number is kept. -/
theorem filled_of_two_le_length (h : 2 ≤ number.length) : filled number = number := by
  rw [filled, Nat.sub_eq_zero_of_le h]
  exact String.empty_append

/-- Two numbers are filled up to the same if they are the same, or one of them is a single digit
and the other one has a zero before it. -/
theorem filled_eq_iff {m n : String} (hm : m ≠ "") (hn : n ≠ "") :
    filled m = filled n ↔
      m = n ∨ m.length = 1 ∧ n = "0" ++ m ∨ n.length = 1 ∧ m = "0" ++ n := by
  have hlength : ∀ number : String, number ≠ "" → number.length = 1 ∨ 2 ≤ number.length := by
    intro number hne
    have hpos : number.length ≠ 0 := fun h => hne (String.length_eq_zero_iff.1 h)
    omega
  have htwo : ∀ number : String, number.length = 1 → filled ("0" ++ number) = filled number := by
    intro number h
    rw [filled_of_length_eq_one h]
    refine filled_of_two_le_length ?_
    rw [String.length_append, h]
    decide
  constructor
  · intro h
    -- Only a single digit is filled up, so there are four cases.
    rcases hlength m hm with hm | hm <;> rcases hlength n hn with hn | hn
    · rw [filled_of_length_eq_one hm, filled_of_length_eq_one hn, String.append_right_inj] at h
      exact .inl h
    · rw [filled_of_length_eq_one hm, filled_of_two_le_length hn] at h
      exact .inr (.inl ⟨hm, h.symm⟩)
    · rw [filled_of_two_le_length hm, filled_of_length_eq_one hn] at h
      exact .inr (.inr ⟨hn, h⟩)
    · rw [filled_of_two_le_length hm, filled_of_two_le_length hn] at h
      exact .inl h
  · rintro (rfl | ⟨hm, rfl⟩ | ⟨hn, rfl⟩)
    · rfl
    · exact (htwo m hm).symm
    · exact htwo n hn

/-- The file of a script has a plain name. -/
theorem plainName_scriptFileName (h : ∀ c ∈ number.toList, isDecimalDigit c = true) :
    PlainName (scriptFileName number) := by
  have hslash : '/' ∉ number.toList := fun hmem => absurd (h _ hmem) (by decide)
  have hlist : (scriptFileName number).toList
      = "script_".toList ++ (List.replicate (2 - number.length) '0' ++ number.toList)
        ++ ".dsl".toList := by
    rw [scriptFileName_eq, filled]
    simp
  have hother : ∀ other : String, other.toList.head? ≠ some 's' →
      scriptFileName number ≠ other := by
    rintro other hhead rfl
    rw [hlist] at hhead
    exact hhead rfl
  refine ⟨?_, hother "" (by decide), hother "." (by decide), hother ".." (by decide)⟩
  rw [hlist]
  simp [hslash]

/-! ### Writing one script after the other -/

/-- The path of the script with a number. -/
def scriptPath (directory number : String) : String := joinPath directory (scriptFileName number)

/-- Scripts are written to files of a directory one after the other. -/
inductive Written (directory : String) : Files → List (String × String) → Files → Prop
  | nil (f : Files) : Written directory f [] f
  | cons {f f' f'' : Files} {number script : String} {scripts : List (String × String)} :
      f.writeText (scriptPath directory number) script = .ok f' →
      Written directory f' scripts f'' →
      Written directory f ((number, script) :: scripts) f''

/-- Writing succeeds exactly if every script can be written, and gives the paths of all. The
induction is on the scripts, and each of them is written to the files that the ones before have
left. -/
theorem writeScripts_eq_ok_iff : writeScripts f directory scripts = (.ok written, f') ↔
    written = scripts.map (fun entry => scriptPath directory entry.1) ∧
      Written directory f scripts f' := by
  induction scripts generalizing f written with
  | nil =>
    constructor
    · intro h
      cases h
      exact ⟨rfl, .nil _⟩
    · rintro ⟨rfl, h⟩
      cases h
      rfl
  | cons entry scripts ih =>
    obtain ⟨number, script⟩ := entry
    rw [writeScripts]
    dsimp only
    constructor
    · intro h
      split at h
      · cases h
      · -- The first script has been written, and the others are written to what that leaves.
        rename_i f₁ hwrite
        obtain ⟨paths, hpaths, rfl⟩ := map_eq_ok_iff.1 (congrArg Prod.fst h)
        have hrest : writeScripts f₁ directory scripts = (.ok paths, f') :=
          Prod.ext hpaths (congrArg Prod.snd h :)
        obtain ⟨hmap, hrest⟩ := ih.1 hrest
        exact ⟨by rw [hmap]; rfl, .cons hwrite hrest⟩
    · rintro ⟨rfl, h⟩
      cases h with
      | cons hwrite hrest =>
        rw [scriptPath] at hwrite
        rw [hwrite]
        dsimp only
        rw [ih.2 ⟨rfl, hrest⟩]
        rfl

namespace Written

/-- Scripts that are written have been written up to any of them, and then the others. -/
theorem exists_of_append (h : Written directory f (before ++ scripts) f') :
    ∃ f₁, Written directory f before f₁ ∧ Written directory f₁ scripts f' := by
  induction before generalizing f with
  | nil => exact ⟨f, .nil f, h⟩
  | cons entry before ih =>
    cases h with
    | cons hwrite hrest =>
      obtain ⟨f₁, hbefore, hscripts⟩ := ih hrest
      exact ⟨f₁, .cons hwrite hbefore, hscripts⟩

/-- Other files of the directory are read as before. -/
theorem readText (h : Written directory f scripts f') (hname : PlainName name)
    (hplain : ∀ entry ∈ scripts, PlainName (scriptFileName entry.1))
    (hne : ∀ entry ∈ scripts, name ≠ scriptFileName entry.1)
    (hread : f.readText (joinPath directory name) = .ok text) :
    f'.readText (joinPath directory name) = .ok text := by
  induction h with
  | nil => exact hread
  | cons hwrite _ ih =>
    obtain ⟨hplain, hplain'⟩ := List.forall_mem_cons.1 hplain
    obtain ⟨hne, hne'⟩ := List.forall_mem_cons.1 hne
    refine ih hplain' hne' (Files.readText_writeText_of_ne hwrite hread ?_)
    intro k l hk hl
    exact Files.locate_joinPath_ne hname hplain hne hk hl

/-- The last script with its file is read from there. -/
theorem readText_last {script : String}
    (h : Written directory f (before ++ (number, script) :: after) f')
    (hplain : ∀ entry ∈ before ++ (number, script) :: after, PlainName (scriptFileName entry.1))
    (hlast : ∀ later ∈ after, scriptFileName number ≠ scriptFileName later.1) :
    f'.readText (scriptPath directory number) = .ok script := by
  obtain ⟨f₁, -, hrest⟩ := h.exists_of_append
  cases hrest with
  | cons hwrite hafter =>
    have hplain' := List.forall_mem_cons.1 (List.forall_mem_append.1 hplain).2
    exact hafter.readText hplain'.1 hplain'.2 hlast (Files.readText_writeText hwrite)

end Written

/-- What is left of extracted scripts. Suppose all of them could be written.

- There is a path for each script, which is named for its number.
- From the path of a script the last script is read whose number is filled up to the same. This is
  the script itself if no later one has such a number.
- Only numbers that are the same, or of which one is a single digit and the other one has a zero
  before it, are filled up to the same. -/
theorem readText_of_writeExtracted
    (h : writeExtracted f content directory = (.ok written, f')) :
    let scripts := extractScripts content
    written = scripts.map (fun entry => scriptPath directory entry.1) ∧
    (∀ (i j : Nat) (entry : String × String) (path number script : String),
      scripts[i]? = some entry → written[i]? = some path →
      scripts[j]? = some (number, script) → filled entry.1 = filled number →
      (∀ later ∈ scripts.drop (j + 1), filled number ≠ filled later.1) →
      f'.readText path = .ok script) ∧
    (∀ m ∈ scripts, ∀ n ∈ scripts, filled m.1 = filled n.1 ↔
      m.1 = n.1 ∨ m.1.length = 1 ∧ n.1 = "0" ++ m.1 ∨ n.1.length = 1 ∧ m.1 = "0" ++ n.1) := by
  intro scripts
  rw [writeExtracted] at h
  split at h
  · cases h
  · rename_i f₁ _
    obtain ⟨hpaths, hwritten⟩ := writeScripts_eq_ok_iff.1 h
    refine ⟨hpaths, ?_, ?_⟩
    · intro i j entry path number script hentry hpath hlast hsame hlater
      -- Numbers that are filled up to the same have one path.
      have hpath' : path = scriptPath directory number := by
        rw [hpaths, List.getElem?_map, hentry] at hpath
        rw [scriptPath, ← scriptFileName_eq_iff.2 hsame]
        exact (Option.some.inj hpath).symm
      obtain ⟨hj, hget⟩ := List.getElem?_eq_some_iff.1 hlast
      have hsplit : scripts = scripts.take j ++ (number, script) :: scripts.drop (j + 1) := by
        rw [← hget, ← List.drop_eq_getElem_cons hj, List.take_append_drop]
      -- A file name of digits leads into the directory.
      have hplain : ∀ entry ∈ scripts, PlainName (scriptFileName entry.1) := fun entry hmem =>
        plainName_scriptFileName (digits_of_mem_extractScripts hmem).2
      change Written directory f₁ scripts f' at hwritten
      rw [hsplit] at hplain hwritten
      rw [hpath']
      refine hwritten.readText_last hplain fun later hmem hname => ?_
      exact hlater later hmem (scriptFileName_eq_iff.1 hname)
    · intro m hm n hn
      exact filled_eq_iff (digits_of_mem_extractScripts hm).1 (digits_of_mem_extractScripts hn).1

/-- The script of a single digit, one of two digits, and one whose number is the first with a zero
before it. From the path of the first one the last one is read. -/
theorem readText_of_writeExtracted_filled_digit :
    let f := Files.empty ["work"]
    let content :=
      "// Script 1:\nload \"a\";\n// Script 12: all\nprint;\n// Script 01:\nprint; print;"
    let written := ["out/script_01.dsl", "out/script_12.dsl", "out/script_01.dsl"]
    ∃ f', writeExtracted f content "out" = (.ok written, f') ∧
      f'.readText "out/script_12.dsl" = .ok "print;" ∧
      f'.readText "out/script_01.dsl" = .ok "print; print;" := by
  intro f content written
  have hwritten : (writeExtracted f content "out").1 = .ok written := by decide +kernel
  have h : writeExtracted f content "out" = (.ok written, (writeExtracted f content "out").2) :=
    Prod.ext hwritten rfl
  have hscripts : extractScripts content
      = [("1", "load \"a\";"), ("12", "print;"), ("01", "print; print;")] := by decide +kernel
  obtain ⟨-, hread, -⟩ := readText_of_writeExtracted h
  rw [hscripts] at hread
  exact ⟨_, h, hread 1 1 _ _ _ _ rfl rfl rfl rfl (by decide),
    hread 0 2 _ _ _ _ rfl rfl rfl (by decide) (by decide)⟩

/-- Not every script can be read from its path afterwards: of two scripts with the same number the
first one is lost. -/
theorem writeExtracted_repeated_number :
    ¬ ∀ (f f' : Files) (content directory : String) (written : List String),
      writeExtracted f content directory = (.ok written, f') →
      written.length = (extractScripts content).length ∧
      ∀ (i : Nat) (entry : String × String) (path : String),
        (extractScripts content)[i]? = some entry → written[i]? = some path →
        f'.readText path = .ok entry.2 := by
  intro hkept
  let f := Files.empty ["work"]
  let content := "// Script 1: all\nload \"a\";\n// Script 1: none\nprint;\n"
  have hwritten : (writeExtracted f content "out").1
      = .ok ["out/script_01.dsl", "out/script_01.dsl"] := by decide +kernel
  have hscripts : extractScripts content = [("1", "load \"a\";"), ("1", "print;")] := by
    decide +kernel
  have hread : (writeExtracted f content "out").2.readText "out/script_01.dsl"
      = .ok "print;" := by decide +kernel
  have hfirst := (hkept f _ content "out" _ (Prod.ext hwritten rfl)).2 0
    ("1", "load \"a\";") "out/script_01.dsl" (by rw [hscripts]; rfl) rfl
  rw [hread] at hfirst
  exact absurd hfirst (by decide)

end Roster.Shell
