import CommandTree.CommandLine
import Mathlib.Data.List.Basic

/-!
# Files are checked one by one

A check collects files and judges each of them. What is written is the lines for the files that are
parsed and the counts of both sorts, and what is complained about is the diagnostics of the others.
All of this is a list with an element for each file, so it does not matter which files are checked
together. Two checks can be put together, and each file can be taken out.

To take a file out it has to be collected again when its own path is the argument. That is where
directories come in: what a directory lists under a name has to be what the path of that name leads
to, or else the walk of the directory has found something else than the path stands for.
-/

set_option autoImplicit false

namespace CommandTree

/-! ## Collected files -/

namespace FileSystem

/-- What is listed at and below an entry is what the paths lead to. -/
inductive Walks (fs : FileSystem) : (path : String) → Entry → Prop where
  /-- The path leads to the file. -/
  | file {path : String} {contents : Source} :
    fs.entry path = .ok (.file contents) → Walks fs path (.file contents)
  /-- The path leads to the directory, and so it is for everything that the directory lists. -/
  | directory {path : String} {entries : List (String × Entry)} :
    fs.entry path = .ok (.directory entries) →
      (∀ name entry, (name, entry) ∈ entries → Walks fs (child path name) entry) →
      Walks fs path (.directory entries)

/-- If a path leads to a directory, the directory can be walked. -/
def Walkable (fs : FileSystem) (path : String) : Prop :=
  ∀ entries, fs.entry path = .ok (.directory entries) → fs.Walks path (.directory entries)

variable {fs : FileSystem} {path file : String}

/-- The entries of a directory are listed one by one. -/
theorem commandFilesOf_eq_map (path : String) (entries : List (String × Entry)) :
    commandFilesOf path entries = entries.map fun listed =>
      (listed.1, commandFilesAt listed.1 (child path listed.1) listed.2) := by
  induction entries with
  | nil => rw [commandFilesOf, List.map_nil]
  | cons listed rest ih => rw [commandFilesOf, List.map_cons, ih]

/-- What is found below a directory is found at or below something it lists. -/
theorem mem_commandFilesIn_iff (entries : List (String × Entry)) :
    file ∈ commandFilesIn path entries ↔
      ∃ name entry, (name, entry) ∈ entries ∧
        file ∈ commandFilesAt name (child path name) entry := by
  simp only [commandFilesIn, commandFilesOf_eq_map, List.mem_flatMap, List.mem_mergeSort,
    List.mem_map, Prod.exists]
  constructor
  · rintro ⟨name, files, ⟨name', entry, hmem, heq⟩, hfile⟩
    obtain ⟨rfl, rfl⟩ := Prod.mk.inj heq
    exact ⟨name', entry, hmem, hfile⟩
  · rintro ⟨name, entry, hmem, hfile⟩
    exact ⟨name, _, ⟨name, entry, hmem, rfl⟩, hfile⟩

/-- A walk finds files. -/
theorem Walks.exists_file {entry : Entry} (h : fs.Walks path entry) {name : String}
    (hmem : file ∈ commandFilesAt name path entry) :
    ∃ contents, fs.entry file = .ok (.file contents) := by
  induction h generalizing name with
  | @file path contents hentry =>
    rw [commandFilesAt] at hmem
    split at hmem
    · obtain rfl := List.mem_singleton.mp hmem
      exact ⟨contents, hentry⟩
    · contradiction
  | directory _ _ ih =>
    rw [commandFilesAt] at hmem
    obtain ⟨name', entry', hentry, hfile⟩ := (mem_commandFilesIn_iff _).mp hmem
    exact ih name' entry' hentry hfile

/-- A collected file stands for itself. -/
theorem collect_of_mem (h : fs.Walkable path) (hmem : file ∈ fs.collect path) :
    fs.collect file = [file] := by
  have hself : (∀ entries, fs.entry path ≠ .ok (.directory entries)) →
      fs.collect path = [path] := by
    intro hnone
    unfold collect
    split
    · rename_i entries hentry
      exact absurd hentry (hnone entries)
    · rfl
  -- only the files of a directory are other paths than the argument
  by_cases hdirectory : ∃ entries, fs.entry path = .ok (.directory entries)
  · obtain ⟨entries, hentry⟩ := hdirectory
    rw [collect, hentry] at hmem
    have hwalks := h entries hentry
    have hat : file ∈ commandFilesAt "" path (.directory entries) := by
      rwa [commandFilesAt]
    obtain ⟨contents, hfile⟩ := hwalks.exists_file hat
    rw [collect, hfile]
  · have hnone := not_exists.mp hdirectory
    rw [hself hnone] at hmem
    obtain rfl := List.mem_singleton.mp hmem
    exact hself hnone

end FileSystem

/-! ## Judged files -/

namespace CommandLine

section

variable (session : Session) (fs : FileSystem)

/-- The line for a file that is parsed. -/
def okLine? (file : String) : Option String :=
  match session.parseFile fs file with
  | .ok t => some ("ok " ++ file ++ " (" ++ toString t.nodeCount ++ " nodes)\n")
  | .error _ => none

/-- The diagnostic of a file that is not parsed. -/
def diagnosis? (file : String) : Option Diagnostic :=
  match session.parseFile fs file with
  | .ok _ => none
  | .error d => some d

/-- The lines for those files that are parsed. -/
def okLines (files : List String) : List String := files.filterMap (okLine? session fs)

/-- The diagnostics of those files that are not parsed. -/
def diagnoses (files : List String) : List Diagnostic := files.filterMap (diagnosis? session fs)

/-- The outcome of a check in which files are judged in their order. -/
structure Judges (files : List String) (outcome : Outcome) : Prop where
  /-- Lines are written for the files that are parsed, and then the two counts. -/
  output : outcome.output = String.join (okLines session fs files) ++
    summary files.length (diagnoses session fs files).length
  /-- The other files are complained about. -/
  reports : outcome.reports = (diagnoses session fs files).map .diagnostic
  /-- The check succeeds if all files are parsed. -/
  succeeds : outcome.exitCode = 0 ↔ ∀ file ∈ files, ∃ t, session.parseFile fs file = .ok t
  /-- It fails with this code otherwise. -/
  fails : outcome.exitCode ≠ 0 → outcome.exitCode = 1

end

variable {session : Session} {fs : FileSystem}

/-- The line of a file that is checked is the one for a file that is parsed, if it has one. -/
theorem line_ofFile (file : String) :
    (Verdict.ofFile session fs file).line = (okLine? session fs file).getD "" := by
  unfold Verdict.ofFile Verdict.line okLine?
  cases session.parseFile fs file <;> rfl

/-- The report on a file that is checked is its diagnostic, if it has one. -/
theorem report?_ofFile (file : String) :
    (Verdict.ofFile session fs file).report? = (diagnosis? session fs file).map .diagnostic := by
  unfold Verdict.ofFile Verdict.report? diagnosis?
  cases session.parseFile fs file <;> rfl

/-- The lines of a check are those of the files that are parsed. -/
theorem join_lines (files : List String) :
    String.join ((files.map (Verdict.ofFile session fs)).map Verdict.line) =
      String.join (okLines session fs files) := by
  apply String.toList_inj.mp
  rw [String.toList_join, String.toList_join]
  induction files with
  | nil => rfl
  | cons file files ih =>
    rw [List.map_cons, List.map_cons, List.flatMap_cons, ih, line_ofFile]
    cases hline : okLine? session fs file with
    | none => simp [okLines, hline]
    | some line => simp [okLines, hline]

/-- The reports of a check are those of the files that are not parsed. -/
theorem filterMap_reports (files : List String) :
    (files.map (Verdict.ofFile session fs)).filterMap Verdict.report? =
      (diagnoses session fs files).map .diagnostic := by
  rw [List.filterMap_map, diagnoses, List.map_filterMap]
  exact List.filterMap_congr fun file _ => report?_ofFile file

/-- Nothing is reported exactly if every file is parsed. -/
theorem diagnoses_eq_nil_iff (files : List String) :
    diagnoses session fs files = [] ↔ ∀ file ∈ files, ∃ t, session.parseFile fs file = .ok t := by
  rw [diagnoses, List.filterMap_eq_nil_iff]
  refine forall₂_congr fun file _ => ?_
  unfold diagnosis?
  cases session.parseFile fs file <;> simp

/-- A check judges the files that its arguments stand for. -/
theorem judges_check (paths : List String) :
    Judges session fs (paths.flatMap fs.collect) (check session fs paths) := by
  generalize hfiles : paths.flatMap fs.collect = files
  have hcheck : check session fs paths =
      ⟨if ((diagnoses session fs files).map Report.diagnostic).isEmpty then 0 else 1,
        String.join (okLines session fs files) ++
          summary files.length (diagnoses session fs files).length,
        (diagnoses session fs files).map .diagnostic⟩ := by
    rw [check, concludeCheck, hfiles, filterMap_reports, join_lines, List.length_map,
      List.length_map]
  have hempty : ((diagnoses session fs files).map Report.diagnostic).isEmpty = true ↔
      ∀ file ∈ files, ∃ t, session.parseFile fs file = .ok t := by
    rw [← diagnoses_eq_nil_iff, List.isEmpty_iff, List.map_eq_nil_iff]
  rw [hcheck]
  refine ⟨rfl, rfl, ?_, ?_⟩
  · rw [← hempty]
    split <;> simp_all
  · dsimp only
    split <;> simp

/-- With a session that loads, a request to check is a check of its paths. -/
theorem answer_check {types : Option String} (hload : Session.load fs types = .ok session)
    (path : String) (others : List String) :
    answer fs (.run types (.check path others)) = check session fs (path :: others) := by
  rw [answer, hload]
  rfl

/-- A file that was collected is judged by itself in a check of its own. -/
theorem judges_alone {paths : List String} (hwalk : ∀ path ∈ paths, fs.Walkable path)
    {file : String} (hmem : file ∈ paths.flatMap fs.collect) :
    Judges session fs [file] (check session fs [file]) := by
  obtain ⟨path, hpath, hfile⟩ := List.mem_flatMap.mp hmem
  have hcollect := FileSystem.collect_of_mem (hwalk path hpath) hfile
  have hjudges : Judges session fs ([file].flatMap fs.collect) (check session fs [file]) :=
    judges_check [file]
  rwa [List.flatMap_singleton, hcollect] at hjudges

/-- The diagnostics of files are those of the files one by one. -/
theorem diagnoses_eq_flatMap (files : List String) :
    diagnoses session fs files = files.flatMap fun file => diagnoses session fs [file] := by
  induction files with
  | nil => rfl
  | cons file files ih =>
    rw [List.flatMap_cons, ← ih]
    exact @List.filterMap_append _ _ [file] files (diagnosis? session fs)

/-- A check judges the collected files in their order, each by itself. A file that was collected is
judged in the same way by a check of this file alone, with the same line or the same complaint. Two
checks that are put together write the lines of the one and then those of the other, and fail if one
of them does. -/
theorem check_judges_each_file {types : Option String}
    (hload : Session.load fs types = .ok session) :
    let run := fun path others => answer fs (.run types (.check path others))
    let files := fun path others => (path :: others).flatMap fs.collect
    (∀ path others, Judges session fs (files path others) (run path others)) ∧
    (∀ path others, (∀ path' ∈ path :: others, fs.Walkable path') →
      (∀ file ∈ files path others, Judges session fs [file] (run file [])) ∧
      (run path others).reports =
        (files path others).flatMap (fun file => (run file []).reports) ∧
      ((run path others).exitCode = 0 ↔
        ∀ file ∈ files path others, (run file []).exitCode = 0)) ∧
    ∀ path others path' others',
      Judges session fs (files path others ++ files path' others')
        (run path (others ++ path' :: others')) ∧
      okLines session fs (files path others ++ files path' others') =
        okLines session fs (files path others) ++ okLines session fs (files path' others') ∧
      (run path (others ++ path' :: others')).reports =
        (run path others).reports ++ (run path' others').reports ∧
      ((run path (others ++ path' :: others')).exitCode = 0 ↔
        (run path others).exitCode = 0 ∧ (run path' others').exitCode = 0) := by
  intro run files
  have hrun : ∀ path others, run path others = check session fs (path :: others) :=
    answer_check hload
  have hjudges : ∀ path others, Judges session fs (files path others) (run path others) := by
    intro path others
    rw [hrun]
    exact judges_check _
  refine ⟨hjudges, ?_, ?_⟩
  · intro path others hwalk
    have halone : ∀ file ∈ files path others, Judges session fs [file] (run file []) := by
      intro file hmem
      rw [hrun]
      exact judges_alone hwalk hmem
    refine ⟨halone, ?_, ?_⟩
    · rw [(hjudges path others).reports, diagnoses_eq_flatMap, List.map_flatMap]
      exact List.flatMap_congr fun file hmem => (halone file hmem).reports.symm
    · rw [(hjudges path others).succeeds]
      refine forall₂_congr fun file hmem => ?_
      rw [(halone file hmem).succeeds, List.forall_mem_singleton]
  · intro path others path' others'
    have hfiles : files path (others ++ path' :: others') =
        files path others ++ files path' others' := by
      show ((path :: others) ++ (path' :: others')).flatMap fs.collect = _
      exact List.flatMap_append
    have hboth := hjudges path (others ++ path' :: others')
    rw [hfiles] at hboth
    refine ⟨hboth, List.filterMap_append, ?_, ?_⟩
    · rw [hboth.reports, (hjudges path others).reports, (hjudges path' others').reports,
        ← List.map_append]
      exact congrArg _ List.filterMap_append
    · rw [hboth.succeeds, (hjudges path others).succeeds, (hjudges path' others').succeeds,
        List.forall_mem_append]

/-- A directory with a file that is not parsed and one that is, a file, and a path to nothing. -/
theorem check_judges_directory :
    let entries : List (String × Entry) :=
      [("bad.commodore", .file (.ofString "root")), ("good.commodore", .file (.ofString "root;"))]
    let fs : FileSystem := ⟨fun
      | "d" => .ok (.directory entries)
      | "d/bad.commodore" => .ok (.file (.ofString "root"))
      | "d/good.commodore" | "one" => .ok (.file (.ofString "root;"))
      | _ => .error .notFound⟩
    let run := fun path others => answer fs (.run none (.check path others))
    let files := ["d/bad.commodore", "d/good.commodore", "one", "missing"]
    (run "d" ["one", "missing"]).output =
        "ok d/good.commodore (1 nodes)\nok one (1 nodes)\n4 file(s) checked, 2 failed\n" ∧
      Judges .standard fs files (run "d" ["one", "missing"]) ∧
      (∀ file ∈ files, Judges .standard fs [file] (run file [])) ∧
      (run "d" ["one", "missing"]).reports =
        (run "d" []).reports ++ (run "one" ["missing"]).reports := by
  intro entries fs run files
  have hbad : FileSystem.child "d" "bad.commodore" = "d/bad.commodore" := by decide +kernel
  have hgood : FileSystem.child "d" "good.commodore" = "d/good.commodore" := by decide +kernel
  have hnames : FileSystem.isCommandFileName "bad.commodore" = true ∧
      FileSystem.isCommandFileName "good.commodore" = true := by decide +kernel
  have hlisted : FileSystem.commandFilesOf "d" entries =
      [("bad.commodore", ["d/bad.commodore"]), ("good.commodore", ["d/good.commodore"])] := by
    simp only [entries, FileSystem.commandFilesOf, FileSystem.commandFilesAt, hbad, hgood, hnames,
      if_true]
  have hdirectory : fs.collect "d" = ["d/bad.commodore", "d/good.commodore"] := by
    show FileSystem.commandFilesIn "d" entries = _
    rw [FileSystem.commandFilesIn, hlisted, List.mergeSort_of_pairwise (by decide +kernel)]
    rfl
  have hfiles : ("d" :: ["one", "missing"]).flatMap fs.collect = files := by
    rw [List.flatMap_cons, hdirectory]
    rfl
  have hwalks : fs.Walks "d" (.directory entries) := by
    refine .directory rfl fun name entry hmem => ?_
    simp only [entries, List.mem_cons, List.not_mem_nil, Prod.mk.injEq, or_false] at hmem
    rcases hmem with ⟨rfl, rfl⟩ | ⟨rfl, rfl⟩
    · rw [hbad]
      exact .file rfl
    · rw [hgood]
      exact .file rfl
  have hwalk : ∀ path ∈ "d" :: ["one", "missing"], fs.Walkable path := by
    intro path hmem entries' hentry
    simp only [List.mem_cons, List.not_mem_nil, or_false] at hmem
    rcases hmem with rfl | rfl | rfl
    · rwa [← Entry.directory.inj (Except.ok.inj hentry)]
    · exact absurd (Except.ok.inj hentry) (by simp)
    · contradiction
  obtain ⟨hjudges, halone, hboth⟩ := @check_judges_each_file .standard fs none rfl
  have hall : Judges .standard fs files (run "d" ["one", "missing"]) :=
    hfiles ▸ hjudges "d" ["one", "missing"]
  have hsingle : ∀ file ∈ files, Judges .standard fs [file] (run file []) :=
    hfiles ▸ (halone "d" ["one", "missing"] hwalk).1
  refine ⟨?_, hall, hsingle, (hboth "d" [] "one" ["missing"]).2.2.1⟩
  rw [hall.output]
  decide +kernel

end CommandLine

end CommandTree
