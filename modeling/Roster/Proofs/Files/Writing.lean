import Mathlib.Data.List.Nodup
import Roster.Files.Tree
import Roster.Proofs.Outcome
import Roster.Proofs.Text.Utf8

/-!
# `Roster.Proofs.Files.Writing`: what is read after a write

A text that has been written to a file is read back from there (`readText_writeText`), and
everything else is found and read as before (`find_writeText_of_ne`, `readText_writeText_of_ne`).
Both rest on one fact: a write makes no directory and takes none away, and only directories are
walked through, so paths lead to the same places (`locate_put_iff`). A path that leads nowhere may
fail in another way than before, if it goes on below the new file. A directory has the names that
it had, and the one of the new file (`mem_namesIn_writeText`).

Two paths can lead to the same file in many ways. Two files directly in a directory are told apart
by their names: the path with a plain name at its end leads to that name in the directory
(`exists_locate_joinPath`), so different plain names are different files.
-/

set_option autoImplicit false

namespace Roster

open Text

/-! ### Names of paths -/

/-- The names of two paths with a slash between them are those of the one and those of the other. -/
theorem pathNames_slash (path name : String) :
    pathNames (path ++ "/" ++ name) = pathNames path ++ pathNames name := by
  simp [pathNames, List.splitOn_append_cons_self]

/-- A name without a slash, and not one that stays where it is or goes up. -/
structure PlainName (name : String) : Prop where
  slash_notMem : '/' ∉ name.toList
  ne_empty : name ≠ ""
  ne_dot : name ≠ "."
  ne_dots : name ≠ ".."

/-- The names on the way to a directory when something in it is meant. -/
def namesAbove (directory : String) : List String :=
  if directory.isEmpty then []
  else if directory.endsWith "/" then (pathNames directory).dropLast
  else pathNames directory

namespace PlainName

variable {name other : String}

/-- A plain name is a path of one name. -/
theorem pathNames_eq (h : PlainName name) : pathNames name = [name] := by
  rw [pathNames, List.splitOn_eq_singleton h.slash_notMem]
  simp

/-- A path that starts with a slash is no plain name. -/
theorem startsWith_eq_false (h : PlainName name) : name.startsWith "/" = false := by
  rw [Bool.eq_false_iff, ne_eq, String.startsWith_string_iff]
  intro hstart
  exact h.slash_notMem (hstart.subset (by simp))

/-- A plain name is the last name of a path that it has been put to. -/
theorem pathNames_joinPath (h : PlainName name) (directory : String) :
    pathNames (joinPath directory name) = namesAbove directory ++ [name] := by
  rw [joinPath, namesAbove, h.startsWith_eq_false]
  by_cases hempty : directory.isEmpty = true
  · simp [hempty, h.pathNames_eq]
  by_cases hslash : directory.endsWith "/" = true
  · obtain ⟨path, hpath⟩ : ∃ path, directory = path ++ "/" := by
      obtain ⟨cs, hcs⟩ := String.Slice.endsWith_string_iff.1 hslash
      refine ⟨String.ofList cs, String.toList_inj.1 ?_⟩
      simpa using hcs.symm
    have hnames : pathNames directory = pathNames path ++ [""] := by
      rw [hpath, ← String.append_empty (s := path ++ "/"), pathNames_slash]
      rfl
    have hjoined : pathNames (directory ++ name) = pathNames path ++ [name] := by
      rw [hpath, pathNames_slash, h.pathNames_eq]
    simp [hempty, hslash, hnames, hjoined]
  · simp [hempty, hslash, pathNames_slash, h.pathNames_eq]

end PlainName

namespace Files

variable {f f' : Files} {path path' directory name text text' : String} {k l : Location}
  {e : Entry} {content : Bytes}

/-! ### What is where -/

/-- The working directory and all directories that it is in are there. -/
theorem entry?_of_isPrefixOf (h : l.isPrefixOf f.workingDirectory = true) :
    f.entry? l = some .directory := if_pos h

/-- Looking for a key does not need the pairs of another one. -/
theorem lookup_filter_of_ne {entries : List (Location × Entry)} (h : k ≠ l) :
    (entries.filter (·.1 != l)).lookup k = entries.lookup k := by
  induction entries with
  | nil => rfl
  | cons entry entries ih =>
    by_cases hentry : entry.1 = l
    · have hne : (k == entry.1) = false := by simpa [hentry] using h
      rw [List.filter_cons_of_neg (by simpa using hentry), ih, List.lookup_cons, hne]
    · rw [List.filter_cons_of_pos (by simpa using hentry), List.lookup_cons, List.lookup_cons, ih]

/-- What has been put to a place is there, if that is no directory. -/
theorem entry?_put_self (h : f.entry? l ≠ some .directory) :
    Files.entry? (f.put l e) l = some e := by
  have hbelow : ¬ l.isPrefixOf f.workingDirectory = true := fun hp => h (entry?_of_isPrefixOf hp)
  unfold entry? put
  rw [if_neg hbelow, List.lookup_cons_self]

/-- Everywhere else there is what was there before. -/
theorem entry?_put_of_ne (h : k ≠ l) : Files.entry? (f.put l e) k = f.entry? k := by
  have hne : (k == l) = false := by simpa using h
  unfold entry? put
  rw [List.lookup_cons, hne]
  dsimp only
  rw [lookup_filter_of_ne h]

/-! ### Where a path leads -/

/-- There are the same directories when a file has been put where there is none. -/
theorem directory_put_iff (hl : f.entry? l ≠ some .directory) :
    Files.entry? (f.put l (.file content)) k = some .directory ↔
      f.entry? k = some .directory := by
  by_cases hkl : k = l
  · subst hkl
    rw [entry?_put_self hl]
    exact iff_of_false nofun hl
  · rw [entry?_put_of_ne hkl]

/-- From a directory a name leads to a place, whether anything is there or not: names for the
directory itself and the one above are followed, and names that are too long are refused. -/
theorem enter_of_directory (h : f.entry? k = some .directory) (name : String) :
    f.enter k name =
      if name = "" || name = "." then .ok k
      else if name = ".." then .ok k.dropLast
      else if 255 < name.utf8ByteSize then .error .nameTooLong
      else .ok (k ++ [name]) := by
  rw [enter, h]

/-- Only a directory can be entered. -/
theorem directory_of_enter (h : f.enter k name = .ok l) : f.entry? k = some .directory := by
  rw [enter] at h
  split at h
  · cases h
  · cases h
  · assumption

/-- A new file changes no single step of a path. -/
theorem enter_put_iff (hl : f.entry? l ≠ some .directory) {k' : Location} :
    (f.put l (.file content)).enter k name = .ok k' ↔ f.enter k name = .ok k' := by
  constructor
  · intro h
    have hk := directory_of_enter h
    rw [enter_of_directory hk] at h
    rw [enter_of_directory ((directory_put_iff hl).1 hk), h]
  · intro h
    have hk := directory_of_enter h
    rw [enter_of_directory hk] at h
    rw [enter_of_directory ((directory_put_iff hl).2 hk), h]

/-- Nor does it change where several names lead to. The induction is on the names, with the place
reached so far left open. -/
theorem walk_put_iff (hl : f.entry? l ≠ some .directory) {names : List String}
    {k' : Location} :
    names.foldlM (f.put l (.file content)).enter k = .ok k' ↔
      names.foldlM f.enter k = .ok k' := by
  induction names generalizing k with
  | nil => exact Iff.rfl
  | cons name names ih =>
    rw [List.foldlM_cons, List.foldlM_cons, bind_eq_ok_iff, bind_eq_ok_iff]
    exact exists_congr fun next => and_congr (enter_put_iff hl) ih

/-- Paths lead to the same places when a file has been put where there is no directory. -/
theorem locate_put_iff (hl : f.entry? l ≠ some .directory) :
    (f.put l (.file content)).locate path = .ok k ↔ f.locate path = .ok k := by
  rw [locate, locate, bind_eq_ok_iff, bind_eq_ok_iff]
  exact exists_congr fun u => and_congr_right fun _ => walk_put_iff hl

/-- A plain name that can be entered is one level below. -/
theorem eq_of_enter_plain (h : PlainName name) (henter : f.enter k name = .ok l) :
    l = k ++ [name] := by
  have hstay : ¬ (name = "" || name = ".") = true := by simp [h.ne_empty, h.ne_dot]
  rw [enter_of_directory (directory_of_enter henter), if_neg hstay, if_neg h.ne_dots] at henter
  split at henter
  · cases henter
  · cases henter
    rfl

/-- A path with a plain name at its end leads to that name in a directory. -/
theorem exists_locate_joinPath (h : PlainName name)
    (hl : f.locate (joinPath directory name) = .ok l) : ∃ k, l = k ++ [name] := by
  obtain ⟨_, -, hwalk⟩ := bind_eq_ok_iff.1 hl
  rw [h.pathNames_joinPath, List.foldlM_append] at hwalk
  obtain ⟨k, -, hlast⟩ := bind_eq_ok_iff.1 hwalk
  rw [List.foldlM_cons] at hlast
  obtain ⟨_, henter, hl'⟩ := bind_eq_ok_iff.1 hlast
  cases hl'
  exact ⟨k, eq_of_enter_plain h henter⟩

/-- Different plain names at the end of paths that lead somewhere are different places. -/
theorem locate_joinPath_ne {directory' name' : String} (h : PlainName name)
    (h' : PlainName name') (hne : name ≠ name')
    (hl : f.locate (joinPath directory name) = .ok l)
    (hk : f.locate (joinPath directory' name') = .ok k) : l ≠ k := by
  obtain ⟨above, rfl⟩ := exists_locate_joinPath h hl
  obtain ⟨above', rfl⟩ := exists_locate_joinPath h' hk
  intro hsame
  exact hne (List.singleton_inj.1 (List.append_inj_right' hsame rfl))

/-! ### Writing and reading -/

/-- A text is written where the path leads to, unless a directory is there, and nothing else
changes. -/
theorem writeText_eq_ok_iff : f.writeText path text = .ok f' ↔
    ∃ l, f.locate path = .ok l ∧ f.entry? l ≠ some .directory ∧
      f' = f.put l (.file (Utf8.encode text)) := by
  rw [writeText, bind_eq_ok_iff]
  refine exists_congr fun l => and_congr_right fun _ => ?_
  split
  case h_1 hdirectory => simp [hdirectory, throw, throwThe, MonadExceptOf.throw]
  case h_2 hother =>
    constructor
    · intro h
      cases h
      exact ⟨hother, rfl⟩
    · rintro ⟨-, rfl⟩
      rfl

/-- What is found is what is at the place that the path leads to. -/
theorem find_eq_ok_iff : f.find path = .ok e ↔
    ∃ l, f.locate path = .ok l ∧ f.entry? l = some e := by
  rw [find, bind_eq_ok_iff]
  refine exists_congr fun l => and_congr_right fun _ => ?_
  cases f.entry? l with
  | none => exact ⟨fun h => (nomatch h), fun h => (nomatch h)⟩
  | some e' => exact ⟨fun h => by cases h; rfl, fun h => by cases h; rfl⟩

/-- Only files are read, and what is read is their content. -/
theorem read_eq_ok_iff {content : Bytes} : f.read path = .ok content ↔
    f.find path = .ok (.file content) := by
  rw [read, bind_eq_ok_iff]
  constructor
  · rintro ⟨e', hfind, hread⟩
    cases e' with
    | directory => cases hread
    | file content' =>
      cases hread
      exact hfind
  · intro h
    exact ⟨_, h, rfl⟩

/-- A text is read where the path leads to a file whose content is one. So reading fails for three
reasons: the path, what is found there, and its bytes. -/
theorem readText_eq_ok_iff : f.readText path = .ok text ↔
    ∃ l content, f.locate path = .ok l ∧ f.entry? l = some (.file content) ∧
      Utf8.decode content = .ok text := by
  rw [readText, bind_eq_ok_iff]
  constructor
  · rintro ⟨content, hread, htext⟩
    obtain ⟨l, hl, hentry⟩ := find_eq_ok_iff.1 (read_eq_ok_iff.1 hread)
    refine ⟨l, content, hl, hentry, ?_⟩
    cases hdecode : Utf8.decode content with
    | ok text' =>
      rw [hdecode] at htext
      cases htext
      rfl
    | error place =>
      rw [hdecode] at htext
      cases htext
  · rintro ⟨l, content, hl, hentry, htext⟩
    refine ⟨content, read_eq_ok_iff.2 (find_eq_ok_iff.2 ⟨l, hl, hentry⟩), ?_⟩
    rw [htext]
    rfl

/-- What has been written is read. -/
theorem readText_writeText (h : f.writeText path text = .ok f') :
    f'.readText path = .ok text := by
  obtain ⟨l, hl, hentry, rfl⟩ := writeText_eq_ok_iff.1 h
  exact readText_eq_ok_iff.2 ⟨l, _, (locate_put_iff hentry).2 hl, entry?_put_self hentry,
    Utf8.decode_encode text⟩

/-- What there is elsewhere stays as it is. -/
theorem find_writeText_of_ne (h : f.writeText path text = .ok f')
    (hne : ∀ k l, f.locate path' = .ok k → f.locate path = .ok l → k ≠ l) :
    f'.find path' = .ok e ↔ f.find path' = .ok e := by
  obtain ⟨l, hl, hentry, rfl⟩ := writeText_eq_ok_iff.1 h
  rw [find_eq_ok_iff, find_eq_ok_iff]
  refine exists_congr fun k => ?_
  rw [locate_put_iff hentry]
  refine and_congr_right fun hk => ?_
  rw [entry?_put_of_ne (hne k l hk hl)]

/-- Reading looks for a file and at nothing else. -/
theorem readText_of_find (h : f.find path = .ok e) (h' : f'.find path = .ok e) :
    f.readText path = f'.readText path := by
  rw [readText, readText, read, read, h, h']

/-- What is read elsewhere stays as it is. -/
theorem readText_writeText_of_ne (h : f.writeText path text = .ok f')
    (hread : f.readText path' = .ok text')
    (hne : ∀ k l, f.locate path' = .ok k → f.locate path = .ok l → k ≠ l) :
    f'.readText path' = .ok text' := by
  obtain ⟨k, content, hk, hcontent, -⟩ := readText_eq_ok_iff.1 hread
  have hfind : f.find path' = .ok (.file content) := find_eq_ok_iff.2 ⟨k, hk, hcontent⟩
  rw [← readText_of_find hfind ((find_writeText_of_ne h hne).2 hfind), hread]

/-- A path is that of a file if a file is found there. -/
theorem isFile_iff : f.isFile path = true ↔ ∃ content, f.find path = .ok (.file content) := by
  rw [isFile]
  split
  case h_1 content hfind => exact iff_of_true rfl ⟨content, hfind⟩
  case h_2 hother => exact iff_of_false Bool.false_ne_true fun ⟨content, h⟩ => hother content h

/-- Writing one file neither makes nor removes another. -/
theorem isFile_writeText_of_ne (h : f.writeText path text = .ok f')
    (hne : ∀ k l, f.locate path' = .ok k → f.locate path = .ok l → k ≠ l) :
    f'.isFile path' = true ↔ f.isFile path' = true := by
  rw [isFile_iff, isFile_iff]
  exact exists_congr fun content => find_writeText_of_ne h hne

/-! ### Names in a directory -/

section
variable {names : List String}

/-- A place is directly in a directory under its last name. -/
theorem mem_lastName_iff {place : Location} :
    name ∈ (if place.dropLast = l then place.getLast? else none) ↔ place = l ++ [name] := by
  constructor
  · intro hmem
    split at hmem
    · rename_i hl
      rw [← hl]
      exact (List.dropLast_append_getLast? name hmem).symm
    · cases hmem
  · rintro rfl
    rw [List.dropLast_concat, if_pos rfl]
    exact List.getLast?_concat

/-- The names in a directory are the last names of the places one level below. -/
theorem mem_lastNames_iff {places : List Location} :
    name ∈ places.filterMap (fun place => if place.dropLast = l then place.getLast? else none) ↔
      l ++ [name] ∈ places := by
  rw [List.mem_filterMap]
  constructor
  · rintro ⟨place, hmem, hname⟩
    rwa [mem_lastName_iff.1 hname] at hmem
  · intro hmem
    exact ⟨_, hmem, mem_lastName_iff.2 rfl⟩

/-- The names in a directory are listed in the order of the entries. -/
theorem namesIn_eq_ok_iff : f.namesIn path = .ok names ↔
    ∃ l, f.locate path = .ok l ∧ f.entry? l = some .directory ∧
      names = (f.entries.map (·.1)).filterMap fun place =>
        if place.dropLast = l then place.getLast? else none := by
  rw [namesIn, bind_eq_ok_iff]
  refine exists_congr fun l => and_congr_right fun _ => ?_
  rw [List.filterMap_map]
  split
  case h_1 h => exact iff_of_false nofun fun h' => (by rw [h] at h'; cases h'.1)
  case h_2 h => exact iff_of_false nofun fun h' => (by rw [h] at h'; cases h'.1)
  case h_3 h =>
    rw [h]
    constructor
    · intro h
      cases h
      exact ⟨rfl, rfl⟩
    · rintro ⟨-, rfl⟩
      rfl

/-- A directory does not have the same name twice. -/
theorem nodup_of_namesIn (h : f.namesIn path = .ok names) : names.Nodup := by
  obtain ⟨l, -, -, rfl⟩ := namesIn_eq_ok_iff.1 h
  refine List.Nodup.filterMap (fun place place' name hname hname' => ?_) f.nodup
  rw [mem_lastName_iff.1 hname, mem_lastName_iff.1 hname']

/-- A write puts no other name into a directory and takes none away. -/
theorem mem_namesIn_writeText {names' : List String} (h : f.writeText path text = .ok f')
    (hnames : f.namesIn directory = .ok names) (hnames' : f'.namesIn directory = .ok names')
    (hne : ∀ k l, f.locate path = .ok l → l ≠ k ++ [name]) : name ∈ names' ↔ name ∈ names := by
  obtain ⟨l, hl, hentry, rfl⟩ := writeText_eq_ok_iff.1 h
  obtain ⟨k, hk, -, rfl⟩ := namesIn_eq_ok_iff.1 hnames
  obtain ⟨k', hk', -, rfl⟩ := namesIn_eq_ok_iff.1 hnames'
  cases ((locate_put_iff hentry).1 hk').symm.trans hk
  have hother : l ≠ k ++ [name] := hne k l hl
  rw [mem_lastNames_iff, mem_lastNames_iff, List.mem_map, List.mem_map]
  simp [put, hother, hother.symm]

end

end Files

end Roster
