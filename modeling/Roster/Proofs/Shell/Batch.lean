import Mathlib.Data.String.Basic
import Roster.Proofs.Files.Writing
import Roster.Proofs.Shell.Script
import Roster.Shell.Batch

/-!
# `Roster.Proofs.Shell.Batch`: scripts of a batch do not influence each other

What comes of a script that is run alone is a matter of its own file and of the tables that it loads
(`RunsAlone`, `alone_congr`). `IsBatch` makes the summary of a batch of nothing but that, for the
scripts of a directory in the order of their names, and `runAll_eq_ok_iff` says that this is what a
batch gives.

`IsListing` says which scripts there are, without sorting any: names in their order are given by
which names there are (`eq_of_sorted_of_mem_iff`). Two batches with the same scripts but for one
therefore have the same names below this one and above it (`eq_append_own`), and their summaries
differ in what `around` puts in between. It does not matter whether both of them have this script,
so the same statement is about a script that is changed, added or removed. Writing a file of the
directory is such a change (`othersAgree_of_writeText`).

`runAll_noninterference` is the main result.
-/

set_option autoImplicit false

namespace Roster

namespace Shell

variable {f f' : Files} {source source' : TableSource} {settings : Settings} {preview : Nat}
  {directory path : String} {names names' : List String}
  {outcome : Except CommandError (List Answer)} {summary : BatchSummary}

/-! ### The scripts of a batch -/

/-- The names of the scripts of a directory: those of the files in it with the ending of a
script, each one once, in their order. -/
structure IsListing (f : Files) (directory : String) (names : List String) : Prop where
  exists_namesIn : ∃ all, f.namesIn directory = .ok all ∧ ∀ name, name ∈ names ↔
    name ∈ all ∧ isScriptName name = true ∧ f.isFile (joinPath directory name) = true
  sorted : names.Pairwise (· < ·)

/-- Names in their order are given by which names there are. -/
theorem eq_of_sorted_of_mem_iff (h : names.Pairwise (· < ·)) (h' : names'.Pairwise (· < ·))
    (hmem : ∀ name, name ∈ names ↔ name ∈ names') : names = names' := by
  have hperm : names.Perm names' :=
    (List.perm_ext_iff_of_nodup (h.imp ne_of_lt) (h'.imp ne_of_lt)).2 hmem
  exact hperm.eq_of_pairwise (fun _ _ _ _ hab hba => absurd hba (lt_asymm hab)) h h'

/-- A directory has one listing. -/
theorem IsListing.unique (h : IsListing f directory names) (h' : IsListing f directory names') :
    names = names' := by
  obtain ⟨all, hall, hmem⟩ := h.exists_namesIn
  obtain ⟨all', hall', hmem'⟩ := h'.exists_namesIn
  cases hall.symm.trans hall'
  exact eq_of_sorted_of_mem_iff h.sorted h'.sorted fun name =>
    (hmem name).trans (hmem' name).symm

/-- The scripts that a batch runs are the listing of the directory. -/
theorem isListing_of_scriptNames (h : scriptNames f directory = .ok names) :
    IsListing f directory names := by
  obtain ⟨all, hall, h⟩ := bind_eq_ok_iff.1 h
  cases h
  have hnodup : all.Nodup := Files.nodup_of_namesIn hall
  refine ⟨⟨all, hall, fun name => ?_⟩, ?_⟩
  · rw [List.mem_mergeSort, List.mem_filter, Bool.and_eq_true]
  · have hsorted : ∀ names : List String, (names.mergeSort fun a b => decide (a ≤ b)).Pairwise
        fun a b => decide (a ≤ b) = true := fun names => List.pairwise_mergeSort
      (fun a b c hab hbc => by simpa using le_trans (of_decide_eq_true hab) (of_decide_eq_true hbc))
      (fun a b => by simpa using le_total a b) names
    have hdistinct := (List.mergeSort_perm _ (fun a b : String => decide (a ≤ b))).nodup_iff.2
      (hnodup.filter fun name => isScriptName name && f.isFile (joinPath directory name))
    exact (hsorted _).imp₂ (fun a b hab hne => lt_of_le_of_ne (of_decide_eq_true hab) hne)
      hdistinct

/-- The scripts of a directory are its listing. -/
theorem scriptNames_eq_ok_iff :
    scriptNames f directory = .ok names ↔ IsListing f directory names := by
  refine ⟨isListing_of_scriptNames, fun h => ?_⟩
  obtain ⟨all, hall, -⟩ := h.exists_namesIn
  obtain ⟨found, hfound⟩ : ∃ found, scriptNames f directory = .ok found :=
    ⟨_, bind_eq_ok_iff.2 ⟨all, hall, rfl⟩⟩
  rw [hfound, (isListing_of_scriptNames hfound).unique h]

/-! ### One script of a batch -/

/-- What comes of the script of a file in a fresh session. -/
inductive RunsAlone (f : Files) (source : TableSource) (settings : Settings) (path : String) :
    Except CommandError (List Answer) → Prop
  | unread {cause : FileFault} :
      f.readText path = .error cause →
      RunsAlone f source settings path (.error (.file path cause))
  | runs {script : String} {outcome : Except CommandError (List Answer)} {s : Session} :
      f.readText path = .ok script →
      ScriptRuns source settings .empty script outcome s →
      RunsAlone f source settings path outcome

/-- What a batch shows of a script: its reports, or only the line of its failure. -/
def sectionText (preview : Nat) (path : String) :
    Except CommandError (List Answer) → String
  | .ok answers => reports path preview answers
  | .error e => failureLine path e

/-- A section as it is written, which for a failure is a line about it. -/
def written (path : String) : Except CommandError String → String
  | .ok text => text
  | .error e => failureLine path e

/-- What a command gets of the script of a file in a fresh session. -/
def alone (f : Files) (source : TableSource) (settings : Settings) (path : String) :
    Except CommandError (List Answer) :=
  match f.readText path with
  | .error cause => .error (.file path cause)
  | .ok script => answers source settings script

/-- What comes of a file that can be read is what comes of its text. -/
theorem alone_of_readText {script : String} (h : f.readText path = .ok script) :
    alone f source settings path = (answersIn source settings .empty script).1 := by
  rw [alone, h]
  rfl

/-- What a command gets of a file, said without the functions that get it. -/
theorem alone_eq_iff :
    alone f source settings path = outcome ↔ RunsAlone f source settings path outcome := by
  constructor
  · rintro rfl
    cases hread : f.readText path with
    | error cause =>
      rw [alone, hread]
      exact .unread hread
    | ok script =>
      rw [alone_of_readText hread]
      exact .runs hread (scriptRuns_answersIn source settings .empty script)
  · intro h
    cases h with
    | unread hread => rw [alone, hread]
    | runs hread hscript => rw [alone_of_readText hread, hscript.eq_answersIn]

/-- The section of a script holds the reports of the script run alone. -/
theorem section?_eq : section? f source settings preview path
    = (alone f source settings path).map (reports path preview) := by
  rw [section?, alone]
  cases f.readText path with
  | error cause => rfl
  | ok script =>
    dsimp only
    cases answers source settings script <;> rfl

/-- The same comes of a file that can be read alike, with two sources that give the same for the
paths of its loads. -/
theorem alone_congr (hread : f.readText path = f'.readText path)
    (hsource : ∀ script p, f.readText path = .ok script → Program.parse script = .ok p →
      ∀ table ∈ p.loadPaths, source table = source' table) :
    alone f source settings path = alone f' source' settings path := by
  rw [alone, alone, ← hread]
  cases hscript : f.readText path with
  | error cause => rfl
  | ok script => exact congrArg Prod.fst (answersIn_congr fun p => hsource script p hscript)

/-! ### A whole batch -/

/-- What a batch shows last. -/
def summaryLine (succeeded total : Nat) : String :=
  s!"\nCompleted: {succeeded} of {total} scripts ran successfully.\n"

/-- What a batch shows of the scripts with some names, one after the other. -/
def sectionsText (preview : Nat) (directory : String)
    (outcome : String → Except CommandError (List Answer)) (names : List String) : String :=
  String.join (names.map fun name => sectionText preview (joinPath directory name) (outcome name))

/-- How many of the scripts with some names run through. -/
def countSucceeded (outcome : String → Except CommandError (List Answer)) (names : List String) :
    Nat :=
  names.countP fun name => (outcome name).isOk

section
variable {outcome outcome' : String → Except CommandError (List Answer)}

/-- The sections of scripts depend on what comes of these scripts only. -/
theorem sectionsText_congr (h : ∀ name ∈ names, outcome name = outcome' name) :
    sectionsText preview directory outcome names
      = sectionsText preview directory outcome' names := by
  rw [sectionsText, sectionsText, List.map_congr_left fun name hmem => by rw [h name hmem]]

/-- So does the number of those that succeed. -/
theorem countSucceeded_congr (h : ∀ name ∈ names, outcome name = outcome' name) :
    countSucceeded outcome names = countSucceeded outcome' names :=
  List.countP_congr fun name hmem => by rw [h name hmem]

end

/-- A batch over the scripts of a directory: what comes of each of them alone, and the summary
that is made of it. -/
structure IsBatch (f : Files) (source : TableSource) (settings : Settings) (preview : Nat)
    (directory : String) (names : List String)
    (outcome : String → Except CommandError (List Answer)) (summary : BatchSummary) : Prop where
  listing : IsListing f directory names
  alone : ∀ name ∈ names, RunsAlone f source settings (joinPath directory name) (outcome name)
  total : summary.total = names.length
  succeeded : summary.succeeded = countSucceeded outcome names
  output : summary.output = sectionsText preview directory outcome names
    ++ summaryLine summary.succeeded summary.total

/-- What is true of a batch gives all of its summary. -/
theorem IsBatch.eq_mk {outcome : String → Except CommandError (List Answer)}
    (h : IsBatch f source settings preview directory names outcome summary) :
    let succeeded := countSucceeded outcome names
    summary = {
      succeeded
      total := names.length
      output := sectionsText preview directory outcome names
        ++ summaryLine succeeded names.length } := by
  obtain ⟨succeeded, total, output⟩ := summary
  have htotal : total = names.length := h.total
  have hsucceeded : succeeded = countSucceeded outcome names := h.succeeded
  have houtput : output = sectionsText preview directory outcome names
    ++ summaryLine succeeded total := h.output
  rw [houtput, hsucceeded, htotal]

/-- A batch runs every script of its directory alone. The sections, the count of successes and the
total are each those of the scripts one by one. -/
theorem runAll_of_scriptNames (h : scriptNames f directory = .ok names) :
    let outcome := fun name => alone f source settings (joinPath directory name)
    let succeeded := countSucceeded outcome names
    runAll f source settings preview directory = .ok {
      succeeded
      total := names.length
      output := sectionsText preview directory outcome names
        ++ summaryLine succeeded names.length } := by
  intro outcome succeeded
  have hsection : ∀ path, written path (section? f source settings preview path)
      = sectionText preview path (alone f source settings path) := by
    intro path
    rw [section?_eq]
    cases alone f source settings path <;> rfl
  -- A section counts as a success exactly if its script succeeds alone.
  have hcount : ((((names.map (joinPath directory)).map fun path =>
      (path, section? f source settings preview path)).filter fun s => s.2.toBool).length)
        = succeeded := by
    rw [← List.countP_eq_length_filter, List.countP_map, List.countP_map]
    refine List.countP_congr fun name _ => ?_
    show (section? f source settings preview (joinPath directory name)).isOk = true ↔ _
    rw [section?_eq]
    show _ ↔ (alone f source settings (joinPath directory name)).isOk = true
    cases alone f source settings (joinPath directory name) <;> rfl
  have hbody : String.join (((names.map (joinPath directory)).map fun path =>
      (path, section? f source settings preview path)).map fun s => written s.1 s.2)
        = sectionsText preview directory outcome names := by
    rw [List.map_map, List.map_map]
    exact congrArg String.join (List.map_congr_left fun name _ => hsection _)
  have hlength : (names.map (joinPath directory)).length = names.length := List.length_map _
  rw [runAll, listScripts, h, ← hbody, ← hcount, ← hlength]
  rfl

/-- A batch gives a summary exactly if there is a listing of the directory, and the summary is
that of its scripts, each run alone. -/
theorem runAll_eq_ok_iff :
    runAll f source settings preview directory = .ok summary ↔
      ∃ names outcome, IsBatch f source settings preview directory names outcome summary := by
  constructor
  · intro h
    cases hnames : scriptNames f directory with
    | error cause =>
      rw [runAll, listScripts, hnames] at h
      cases h
    | ok names =>
      rw [runAll_of_scriptNames hnames] at h
      cases h
      exact ⟨names, _, scriptNames_eq_ok_iff.1 hnames, fun name _ => alone_eq_iff.1 rfl, rfl, rfl,
        rfl⟩
  · rintro ⟨names, outcome, hbatch⟩
    have houtcome : ∀ name ∈ names,
        alone f source settings (joinPath directory name) = outcome name :=
      fun name hmem => alone_eq_iff.2 (hbatch.alone name hmem)
    rw [runAll_of_scriptNames (scriptNames_eq_ok_iff.2 hbatch.listing), hbatch.eq_mk,
      sectionsText_congr houtcome, countSucceeded_congr houtcome]

/-! ### Two batches -/

section
variable {outcome outcome' : String → Except CommandError (List Answer)}

/-- The sections of scripts stand one behind the other. -/
theorem sectionsText_append (lower upper : List String) :
    sectionsText preview directory outcome (lower ++ upper)
      = sectionsText preview directory outcome lower
        ++ sectionsText preview directory outcome upper := by
  rw [sectionsText, List.map_append, String.join_append]
  rfl

/-- Scripts that succeed are counted on both sides of a cut. -/
theorem countSucceeded_append (lower upper : List String) :
    countSucceeded outcome (lower ++ upper)
      = countSucceeded outcome lower + countSucceeded outcome upper :=
  List.countP_append

/-- Names in their order, cut before and behind one name. The parts are sorted and have the members
of the whole, so they are the whole in its order. -/
theorem eq_append_own (h : names.Pairwise (· < ·)) (name : String) :
    names = names.filter (· < name) ++ (if name ∈ names then [name] else [])
      ++ names.filter (name < ·) := by
  have hown : ∀ other, other ∈ (if name ∈ names then [name] else []) ↔
      other = name ∧ name ∈ names := by
    intro other
    split <;> simp_all
  -- Sorted names are equal if they have the same members, so the parts have to be sorted one behind
  -- the other, and have the members of the whole.
  refine eq_of_sorted_of_mem_iff h ?_ fun other => ?_
  · rw [List.pairwise_append, List.pairwise_append]
    refine ⟨⟨h.filter _, ?_, ?_⟩, h.filter _, ?_⟩
    · split <;> simp
    · intro below hbelow own hmem
      rw [((hown own).1 hmem).1]
      simpa using (List.mem_filter.1 hbelow).2
    · intro lower hlower above habove
      have habove : name < above := by simpa using (List.mem_filter.1 habove).2
      rcases List.mem_append.1 hlower with hlower | hlower
      · exact lt_trans (by simpa using (List.mem_filter.1 hlower).2) habove
      · rw [((hown lower).1 hlower).1]
        exact habove
  · rw [List.mem_append, List.mem_append, hown, List.mem_filter, List.mem_filter,
      decide_eq_true_iff, decide_eq_true_iff]
    constructor
    · intro hmem
      rcases lt_trichotomy other name with hlt | rfl | hlt
      · exact .inl (.inl ⟨hmem, hlt⟩)
      · exact .inl (.inr ⟨rfl, hmem⟩)
      · exact .inr ⟨hmem, hlt⟩
    · rintro ((⟨hmem, -⟩ | ⟨rfl, hmem⟩) | ⟨hmem, -⟩) <;> exact hmem

end

/-- The summary of a batch around what comes of one script of it, if it has this script: what is
shown above and below it, and how many of the others succeed and are there. -/
def around (preview : Nat) (path above below : String) (succeeded total : Nat)
    (own : Option (Except CommandError (List Answer))) : BatchSummary :=
  let succeeded := succeeded + own.toList.countP Except.isOk
  let total := total + own.toList.length
  { succeeded, total
    output := above ++ String.join (own.toList.map (sectionText preview path)) ++ below
      ++ summaryLine succeeded total }

/-- What a batch knows of one script, if it has this script. -/
def ownOutcome (names : List String) (outcome : String → Except CommandError (List Answer))
    (name : String) : Option (Except CommandError (List Answer)) :=
  if name ∈ names then some (outcome name) else none

/-- The summary of a batch from what surrounds one script and what comes of this script. It depends
on nothing else of the script, which is what noninterference needs. -/
theorem IsBatch.eq_around {outcome : String → Except CommandError (List Answer)}
    (h : IsBatch f source settings preview directory names outcome summary) (name : String) :
    let lower := names.filter (· < name)
    let upper := names.filter (name < ·)
    summary = around preview (joinPath directory name)
      (sectionsText preview directory outcome lower) (sectionsText preview directory outcome upper)
      (countSucceeded outcome lower + countSucceeded outcome upper) (lower.length + upper.length)
      (ownOutcome names outcome name) := by
  intro lower upper
  obtain ⟨own, hown, hnames⟩ : ∃ own, own = (if name ∈ names then [name] else []) ∧
      names = lower ++ own ++ upper := ⟨_, rfl, eq_append_own h.listing.sorted name⟩
  -- What comes of the script itself is one outcome, or none if it is not there.
  have houtcomes : (ownOutcome names outcome name).toList = own.map outcome := by
    rw [hown, ownOutcome]
    split <;> rfl
  have htexts : String.join ((ownOutcome names outcome name).toList.map
      (sectionText preview (joinPath directory name)))
        = sectionsText preview directory outcome own := by
    rw [hown, ownOutcome]
    split <;> rfl
  have hcount : (ownOutcome names outcome name).toList.countP Except.isOk
      = countSucceeded outcome own := by
    rw [houtcomes, List.countP_map]
    rfl
  -- Counts and texts are put together from those of the three parts.
  have htotal : names.length = lower.length + upper.length + own.length := by
    rw [hnames, List.length_append, List.length_append]
    omega
  have hsucceeded : countSucceeded outcome names = countSucceeded outcome lower
      + countSucceeded outcome upper + countSucceeded outcome own := by
    rw [hnames, countSucceeded_append, countSucceeded_append]
    omega
  have htext : sectionsText preview directory outcome names
      = sectionsText preview directory outcome lower
        ++ sectionsText preview directory outcome own
        ++ sectionsText preview directory outcome upper := by
    rw [hnames, sectionsText_append, sectionsText_append]
  rw [h.eq_mk, around, htexts, hcount, houtcomes, List.length_map, ← htext, ← hsucceeded,
    ← htotal]

/-- All scripts but one are the same for two batches: the same others are there, can be read alike,
and find the same under the paths that they load. -/
structure OthersAgree (f f' : Files) (source source' : TableSource) (directory name : String)
    (names names' : List String) : Prop where
  mem_iff : ∀ other, other ≠ name → (other ∈ names ↔ other ∈ names')
  readText_eq : ∀ other ∈ names, other ≠ name →
    f.readText (joinPath directory other) = f'.readText (joinPath directory other)
  source_eq : ∀ other ∈ names, other ≠ name → ∀ script p,
    f.readText (joinPath directory other) = .ok script → Program.parse script = .ok p →
    ∀ table ∈ p.loadPaths, source table = source' table

/-- The same comes of the other scripts. -/
theorem OthersAgree.outcome_eq {outcome outcome' : String → Except CommandError (List Answer)}
    {summary' : BatchSummary} {name : String}
    (h : OthersAgree f f' source source' directory name names names')
    (hbatch : IsBatch f source settings preview directory names outcome summary)
    (hbatch' : IsBatch f' source' settings preview directory names' outcome' summary')
    {other : String} (hmem : other ∈ names) (hne : other ≠ name) :
    outcome other = outcome' other := by
  have halone := alone_eq_iff.2 (hbatch.alone other hmem)
  have halone' := alone_eq_iff.2 (hbatch'.alone other ((h.mem_iff other hne).1 hmem))
  rw [← halone, ← halone']
  exact alone_congr (h.readText_eq other hmem hne) (h.source_eq other hmem hne)

/-- Writing one script, whether it is new or not, is no change of the others, as long as the same
is found under the paths that they load. -/
theorem othersAgree_of_writeText {name text : String} (hname : PlainName name)
    (hplain : ∀ all, f.namesIn directory = .ok all → ∀ other ∈ all, PlainName other)
    (hwrite : f.writeText (joinPath directory name) text = .ok f')
    (h : IsListing f directory names) (h' : IsListing f' directory names')
    (hsource : ∀ other ∈ names, other ≠ name → ∀ script p,
      f.readText (joinPath directory other) = .ok script → Program.parse script = .ok p →
      ∀ table ∈ p.loadPaths, source table = source' table) :
    OthersAgree f f' source source' directory name names names' := by
  obtain ⟨all, hall, hmem⟩ := h.exists_namesIn
  obtain ⟨all', hall', hmem'⟩ := h'.exists_namesIn
  -- Other names lead to other places, and those are not written to.
  have hplaces : ∀ other ∈ all, other ≠ name → ∀ k l, f.locate (joinPath directory other) = .ok k →
      f.locate (joinPath directory name) = .ok l → k ≠ l := fun other hother hne k l hk hl =>
    Files.locate_joinPath_ne (hplain all hall other hother) hname hne hk hl
  have hnames : ∀ other, other ≠ name → (other ∈ all' ↔ other ∈ all) := by
    intro other hne
    refine Files.mem_namesIn_writeText hwrite hall hall' fun k l hl hsame => ?_
    obtain ⟨above, rfl⟩ := Files.exists_locate_joinPath hname hl
    exact hne (List.singleton_inj.1 (List.append_inj_right' hsame rfl)).symm
  refine ⟨fun other hne => ?_, fun other hother hne => ?_, hsource⟩
  · rw [hmem, hmem', hnames other hne]
    refine and_congr_right fun hother => and_congr_right fun _ => ?_
    exact (Files.isFile_writeText_of_ne hwrite (hplaces other hother hne)).symm
  · obtain ⟨hother, -, hfile⟩ := (hmem other).1 hother
    obtain ⟨content, hfind⟩ := Files.isFile_iff.1 hfile
    exact Files.readText_of_find hfind
      ((Files.find_writeText_of_ne hwrite (hplaces other hother hne)).2 hfind)

/-- Scripts of a batch do not influence each other.

- A batch has a summary exactly if its directory can be listed. It is made of what comes of each
  script when it is run alone in a fresh session: its reports if it runs through, and the line of
  its failure if it cannot be read or a statement fails. These stand in the order of the names of
  the scripts, and behind them how many of the scripts ran through.
- Two batches that agree in all scripts but one show the same above and below it, and count the
  same besides it, whether the script is there in both of them, in one or in none. -/
theorem runAll_noninterference (f : Files) (source : TableSource) (settings : Settings)
    (preview : Nat) (directory : String) :
    (∀ summary, runAll f source settings preview directory = .ok summary ↔
      ∃ names outcome, IsBatch f source settings preview directory names outcome summary) ∧
    (∀ f' source' names names' outcome outcome' summary summary' name,
      IsBatch f source settings preview directory names outcome summary →
      IsBatch f' source' settings preview directory names' outcome' summary' →
      OthersAgree f f' source source' directory name names names' →
      ∃ above below succeeded total,
        summary = around preview (joinPath directory name) above below succeeded total
          (ownOutcome names outcome name) ∧
        summary' = around preview (joinPath directory name) above below succeeded total
          (ownOutcome names' outcome' name)) := by
  refine ⟨fun summary => runAll_eq_ok_iff, ?_⟩
  intro f' source' names names' outcome outcome' summary summary' name hbatch hbatch' hagree
  -- The scripts that `q` takes are the same in both batches, unless it takes the one that differs.
  have hfilter : ∀ q : String → Bool, q name = false → names.filter q = names'.filter q := by
    intro q hq
    refine eq_of_sorted_of_mem_iff (hbatch.listing.sorted.filter _)
      (hbatch'.listing.sorted.filter _) fun other => ?_
    rw [List.mem_filter, List.mem_filter]
    refine and_congr_left fun hother => hagree.mem_iff other ?_
    rintro rfl
    exact absurd hother (by rw [hq]; decide)
  have houtcome : ∀ q : String → Bool, q name = false → ∀ other ∈ names.filter q,
      outcome other = outcome' other := by
    intro q hq other hother
    obtain ⟨hmem, hother⟩ := List.mem_filter.1 hother
    refine hagree.outcome_eq hbatch hbatch' hmem ?_
    rintro rfl
    exact absurd hother (by rw [hq]; decide)
  have hlower : decide (name < name) = false := by simp
  refine ⟨_, _, _, _, hbatch.eq_around name, ?_⟩
  rw [sectionsText_congr (houtcome _ hlower), countSucceeded_congr (houtcome _ hlower),
    sectionsText_congr (houtcome (fun other => decide (name < other)) hlower),
    countSucceeded_congr (houtcome (fun other => decide (name < other)) hlower),
    hfilter (fun other => decide (other < name)) hlower,
    hfilter (fun other => decide (name < other)) hlower]
  exact hbatch'.eq_around name

end Shell

end Roster
