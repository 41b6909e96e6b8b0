import CommandTree.Proofs.Files.PathOrder
import CommandTree.Proofs.Session.CheckedFiles
import Mathlib.Data.List.Forall2

/-!
# Directories stand for their command files

A directory is walked entry by entry, in the order of the names, and what lies below one entry is
listed before the next entry is looked at. This lists the command files below the directory, all of
them and nothing else, in the order of their paths, because the order of two paths is that of the
names where they part.

A check gets what its arguments stand for, one argument after the other.
-/

set_option autoImplicit false

namespace CommandTree

namespace Entry

/-- Names lead downwards from an entry to an entry. -/
inductive Leads : Entry → List String → Entry → Prop where
  /-- Without a name there is only the entry itself. -/
  | here (entry : Entry) : Leads entry [] entry
  /-- The first name is that of something the directory lists. -/
  | down {entries : List (String × Entry)} {name : String} {entry target : Entry}
    {names : List String} :
    (name, entry) ∈ entries → Leads entry names target →
      Leads (.directory entries) (name :: names) target

/-- The directories at and below an entry list each name once, and the names are names of files. -/
inductive IsTree : Entry → Prop where
  /-- A file lists nothing. -/
  | file (contents : Source) : IsTree (.file contents)
  /-- A directory lists names, and so does everything it lists. -/
  | directory {entries : List (String × Entry)} :
    (entries.map Prod.fst).Nodup → (∀ listed ∈ entries, FileSystem.IsFileName listed.1) →
      (∀ listed ∈ entries, IsTree listed.2) → IsTree (.directory entries)

/-- Names that lead downwards in a tree of files are names of files. -/
theorem IsTree.isFileName {entry target : Entry} {names : List String} (h : entry.IsTree)
    (hleads : entry.Leads names target) : ∀ name ∈ names, FileSystem.IsFileName name := by
  induction hleads with
  | here => exact fun _ hmem => absurd hmem List.not_mem_nil
  | @down entries name entry target names hmem _ ih =>
    cases h with
    | directory _ hnames htrees =>
      exact List.forall_mem_cons.mpr ⟨hnames _ hmem, ih (htrees _ hmem)⟩

end Entry

namespace FileSystem

/-! ### Names of command files -/

/-- The last dot of a name starts the extension, unless the name starts with it. -/
theorem extension?_append {front last : List Char} (h : '.' ∉ last) :
    extension? (String.ofList (front ++ '.' :: last)) =
      if front = [] then none else some (String.ofList last) := by
  rw [extension?, String.toList_ofList, Split.parts_append, Split.parts_of_notMem h]
  cases front with
  | nil => rfl
  | cons c front =>
    have hdot : Split.parts '.' (c :: front) ≠ [[]] := by
      intro hparts
      have hjoin := Split.join_parts '.' (c :: front)
      rw [hparts] at hjoin
      cases hjoin
    obtain ⟨first, others, hparts⟩ :=
      List.exists_cons_of_ne_nil (Split.parts_ne_nil '.' (c :: front))
    rw [hparts] at hdot ⊢
    rw [if_neg (List.cons_ne_nil c front)]
    cases others with
    | nil =>
      cases first with
      | nil => contradiction
      | cons => rfl
    | cons second others =>
      have hlast : (first :: second :: others ++ [last]).getLast? = some last :=
        List.getLast?_concat
      simp only [List.cons_append] at hlast ⊢
      split
      · simp_all
      · simp_all
      · rw [hlast, Option.map_some]

/-- A name without a dot has no extension. -/
theorem extension?_of_notMem {name : String} (h : '.' ∉ name.toList) : extension? name = none := by
  rw [extension?, Split.parts_of_notMem h]

/-- A name ends as that of a command file if its last dot has something in front of it and the
extension behind it. -/
theorem isCommandFileName_append {front last : List Char} (h : '.' ∉ last) :
    isCommandFileName (String.ofList (front ++ '.' :: last)) = true ↔
      front ≠ [] ∧ last = "commodore".toList := by
  have hlast : some (String.ofList last) = some "commodore" ↔ last = "commodore".toList := by
    rw [Option.some_inj, ← String.toList_inj, String.toList_ofList]
  rw [isCommandFileName, beq_iff_eq, extension?_append h, commandFileExtension]
  split
  · simp_all
  · rw [hlast, and_iff_right ‹_›]

/-- Command files are called something, and then a dot and the ending. -/
theorem isCommandFileName_iff (name : String) :
    isCommandFileName name = true ↔ ∃ stem, stem ≠ "" ∧ name = stem ++ ".commodore" := by
  constructor
  · intro h
    by_cases hdot : '.' ∈ name.toList
    · obtain ⟨behind, front, hname, hbehind⟩ :=
        List.eq_append_cons_of_mem (List.mem_reverse.mpr hdot)
      have hname' : name = String.ofList (front.reverse ++ '.' :: behind.reverse) := by
        rw [← String.toList_inj, String.toList_ofList, ← List.reverse_inj, hname]
        simp
      rw [hname', isCommandFileName_append (mt List.mem_reverse.mp hbehind)] at h
      obtain ⟨hfront, hlast⟩ := h
      refine ⟨String.ofList front.reverse, ?_, ?_⟩
      · rwa [Ne, String.ofList_eq_empty_iff]
      · rw [hname', hlast, ← String.toList_inj]
        simp
    · rw [isCommandFileName, extension?_of_notMem hdot] at h
      contradiction
  · rintro ⟨stem, hstem, rfl⟩
    have hname :
        stem ++ ".commodore" = String.ofList (stem.toList ++ '.' :: "commodore".toList) := by
      rw [← String.toList_inj]
      simp
    rw [hname, isCommandFileName_append (by decide)]
    exact ⟨mt String.toList_eq_nil_iff.mp hstem, rfl⟩

/-! ### Walks -/

variable {path file : String}

/-- Names of which the last is that of a command file. -/
def EndsAsCommandFile (names : List String) : Prop :=
  ∃ stem, stem ≠ "" ∧ names.getLast? = some (stem ++ ".commodore")

/-- A path of one name ends as a command file if the name is that of a command file. -/
theorem endsAsCommandFile_singleton (name : String) :
    EndsAsCommandFile [name] ↔ isCommandFileName name = true := by
  simp [EndsAsCommandFile, isCommandFileName_iff]

/-- An entry is walked to the command files that names lead to. -/
theorem mem_commandFilesAt_iff {entry : Entry} (h : entry.IsTree) (name : String) :
    file ∈ commandFilesAt name path entry ↔
      ∃ names contents, entry.Leads names (.file contents) ∧ EndsAsCommandFile (name :: names) ∧
        file = descend path names := by
  induction h generalizing name path with
  | file contents =>
    rw [commandFilesAt]
    constructor
    · intro hmem
      split at hmem
      · rename_i hname
        exact ⟨[], contents, .here _, (endsAsCommandFile_singleton name).mpr hname,
          List.mem_singleton.mp hmem⟩
      · contradiction
    · rintro ⟨names, contents', hleads, hends, rfl⟩
      cases hleads
      rw [if_pos ((endsAsCommandFile_singleton name).mp hends)]
      exact List.mem_singleton_self path
  | @directory entries _ _ _ ih =>
    rw [commandFilesAt, mem_commandFilesIn_iff]
    constructor
    · rintro ⟨listed, entry, hmem, hfile⟩
      obtain ⟨names, contents, hleads, hends, hpath⟩ := (ih _ hmem listed).mp hfile
      exact ⟨listed :: names, contents, .down hmem hleads, hends, hpath⟩
    · rintro ⟨names, contents, hleads, hends, rfl⟩
      cases hleads with
      | @down _ listed entry _ names hmem hleads =>
        exact ⟨listed, entry, hmem,
          (ih _ hmem listed).mpr ⟨names, contents, hleads, hends, rfl⟩⟩

/-- The files that one entry is walked to come before those of an entry with a greater name. -/
theorem pathBefore_of_lt {name name' file file' : String} {entry entry' : Entry}
    (hname : IsFileName name) (hname' : IsFileName name') (htree : entry.IsTree)
    (htree' : entry'.IsTree) (hlt : name < name')
    (hfile : file ∈ commandFilesAt name (child path name) entry)
    (hfile' : file' ∈ commandFilesAt name' (child path name') entry') : PathBefore file file' := by
  obtain ⟨names, _, hleads, _, rfl⟩ := (mem_commandFilesAt_iff htree name).mp hfile
  obtain ⟨names', _, hleads', _, rfl⟩ := (mem_commandFilesAt_iff htree' name').mp hfile'
  exact pathBefore_descend path hlt (List.forall_mem_cons.mpr ⟨hname, htree.isFileName hleads⟩)
    (List.forall_mem_cons.mpr ⟨hname', htree'.isFileName hleads'⟩)

/-- Entries in the order of their names are in strict order if no name is listed twice. -/
theorem pairwise_lt_of_mergeSort {α : Type} {listed : List (String × α)}
    (h : (listed.map Prod.fst).Nodup) :
    (listed.mergeSort fun a b => a.1 ≤ b.1).Pairwise fun a b => a.1 < b.1 := by
  let inOrder : String × α → String × α → Bool := fun a b => a.1 ≤ b.1
  have htrans : ∀ a b c, inOrder a b = true → inOrder b c = true → inOrder a c = true :=
    fun a b c hab hbc => decide_eq_true
      (String.le_trans (of_decide_eq_true hab) (of_decide_eq_true hbc))
  have htotal : ∀ a b, (inOrder a b || inOrder b a) = true :=
    fun a b => by simpa [inOrder] using String.le_total a.1 b.1
  have hsorted := List.pairwise_mergeSort htrans htotal listed
  have hnodup : ((listed.mergeSort fun a b => a.1 ≤ b.1).map Prod.fst).Nodup :=
    ((List.mergeSort_perm listed _).map Prod.fst).nodup_iff.mpr h
  refine hsorted.imp₂ (fun a b hle hne => ?_) (List.pairwise_map.mp hnodup)
  exact String.not_le.mp fun hge => hne (String.le_antisymm (of_decide_eq_true hle) hge)

/-- A walk lists files in the order of their paths. -/
theorem pairwise_commandFilesAt {entry : Entry} (h : entry.IsTree) (name : String) :
    (commandFilesAt name path entry).Pairwise PathBefore := by
  induction h generalizing name path with
  | file contents =>
    rw [commandFilesAt]
    split
    · exact List.pairwise_singleton _ _
    · exact List.Pairwise.nil
  | @directory entries hdistinct hnames htrees ih =>
    rw [commandFilesAt, commandFilesIn, List.pairwise_flatMap]
    have hlisted : ∀ found ∈ (commandFilesOf path entries).mergeSort fun a b => a.1 ≤ b.1,
        ∃ name entry, (name, entry) ∈ entries ∧
          found = (name, commandFilesAt name (child path name) entry) := by
      intro found hmem
      rw [List.mem_mergeSort, commandFilesOf_eq_map] at hmem
      obtain ⟨⟨name, entry⟩, hentry, rfl⟩ := List.mem_map.mp hmem
      exact ⟨name, entry, hentry, rfl⟩
    have hfst : (commandFilesOf path entries).map Prod.fst = entries.map Prod.fst := by
      rw [commandFilesOf_eq_map, List.map_map]
      rfl
    constructor
    · intro found hmem
      obtain ⟨name, entry, hentry, rfl⟩ := hlisted found hmem
      exact ih _ hentry name
    · refine (pairwise_lt_of_mergeSort (hfst ▸ hdistinct)).imp_of_mem ?_
      intro found found' hmem hmem' hlt file hfile file' hfile'
      obtain ⟨name, entry, hentry, rfl⟩ := hlisted found hmem
      obtain ⟨name', entry', hentry', rfl⟩ := hlisted found' hmem'
      exact pathBefore_of_lt (hnames _ hentry) (hnames _ hentry') (htrees _ hentry)
        (htrees _ hentry') hlt hfile hfile'

/-- The files are the command files below a directory, in order. -/
structure Lists (path : String) (entries : List (String × Entry)) (files : List String) :
    Prop where
  /-- They are what names lead to, the last of which is that of a command file. -/
  mem_iff : ∀ file, file ∈ files ↔
    ∃ names contents, (Entry.directory entries).Leads names (.file contents) ∧
      EndsAsCommandFile names ∧ file = descend path names
  /-- Different names do not lead to the same path. -/
  apart : ∀ names names' target target', (Entry.directory entries).Leads names target →
    (Entry.directory entries).Leads names' target' → names ≠ [] → names' ≠ [] →
      descend path names = descend path names' → names = names'
  /-- No path is listed twice. -/
  nodup : files.Nodup
  /-- They are in the order of paths. -/
  ordered : files.Pairwise PathBefore

/-- The walk through a directory lists exactly the command files below it, in order and each
once. -/
theorem lists_commandFilesIn {entries : List (String × Entry)}
    (h : (Entry.directory entries).IsTree) : Lists path entries (commandFilesIn path entries) := by
  have hat : commandFilesAt "" path (.directory entries) = commandFilesIn path entries := by
    rw [commandFilesAt]
  have hordered : (commandFilesIn path entries).Pairwise PathBefore :=
    hat ▸ pairwise_commandFilesAt h ""
  refine ⟨fun file => ?_, ?_, ?_, hordered⟩
  · rw [← hat, mem_commandFilesAt_iff h]
    refine exists₂_congr fun names contents => and_congr_right fun hleads => ?_
    cases hleads with
    | down => rw [EndsAsCommandFile, EndsAsCommandFile, List.getLast?_cons_cons]
  · intro names names' target target' hleads hleads' hne hne' heq
    exact descend_inj hne hne' (h.isFileName hleads) (h.isFileName hleads') heq
  · refine hordered.imp fun {file file'} hbefore heq => ?_
    subst heq
    exact not_pathBefore_self file hbefore

/-- What an argument stands for. -/
inductive Expands (fs : FileSystem) (path : String) : List String → Prop where
  /-- A directory stands for its command files. -/
  | directory {entries : List (String × Entry)} {files : List String} :
    fs.entry path = .ok (.directory entries) → Lists path entries files → Expands fs path files
  /-- Anything else stands for itself. -/
  | other :
    (∀ entries, fs.entry path ≠ .ok (.directory entries)) → Expands fs path [path]

/-- A path argument stands for what it should, if the directory it may lead to is a tree of
files. -/
theorem expands_collect {fs : FileSystem}
    (h : ∀ entries, fs.entry path = .ok (.directory entries) →
      (Entry.directory entries).IsTree) : fs.Expands path (fs.collect path) := by
  unfold collect
  split
  · rename_i entries hentry
    exact .directory hentry (lists_commandFilesIn (h entries hentry))
  · rename_i hnone
    exact .other hnone

end FileSystem

namespace CommandLine

/-- If the directories among the arguments are trees, each argument stands for a list of paths: a
directory for all the command files below it and nothing else, without repetition and in the order
of their paths, and anything else for itself. These lists one after the other are what is collected,
and a check judges the files in this order. -/
theorem arguments_stand_for_command_files (fs : FileSystem) (paths : List String)
    (h : ∀ path ∈ paths, ∀ entries, fs.entry path = .ok (.directory entries) →
      (Entry.directory entries).IsTree) :
    ∃ parts, List.Forall₂ fs.Expands paths parts ∧ paths.flatMap fs.collect = parts.flatten ∧
      ∀ session, Judges session fs parts.flatten (check session fs paths) := by
  refine ⟨paths.map fs.collect, ?_, List.flatMap_def, fun session => ?_⟩
  · rw [List.forall₂_map_right_iff, List.forall₂_same]
    exact fun path hmem => FileSystem.expands_collect (h path hmem)
  · rw [← List.flatMap_def]
    exact judges_check paths

/-- The name `a` comes before the name `a.commodore`, so what is in the directory `a` comes first,
and neither directories nor files without a stem are command files. -/
theorem arguments_stand_for_command_files_below_alike_names :
    let contents : Entry := .file (.ofString "root;")
    let entries : List (String × Entry) :=
      [("x.commodore", .directory [("notes.txt", contents), ("y.commodore", contents)]),
        ("a.commodore", contents), (".commodore", contents),
        ("a", .directory [("b.commodore", contents)])]
    let fs : FileSystem := ⟨fun
      | "d" => .ok (.directory entries)
      | "one" => .ok contents
      | _ => .error .notFound⟩
    let files := ["d/a/b.commodore", "d/a.commodore", "d/x.commodore/y.commodore", "one"]
    (Entry.directory entries).IsTree ∧ ["d", "one"].flatMap fs.collect = files ∧
      ∃ parts, List.Forall₂ fs.Expands ["d", "one"] parts ∧ files = parts.flatten ∧
        ∀ session, Judges session fs parts.flatten (check session fs ["d", "one"]) := by
  intro contents entries fs files
  have hchildren : FileSystem.child "d" "a" = "d/a" ∧
      FileSystem.child "d" ".commodore" = "d/.commodore" ∧
      FileSystem.child "d" "a.commodore" = "d/a.commodore" ∧
      FileSystem.child "d" "x.commodore" = "d/x.commodore" ∧
      FileSystem.child "d/a" "b.commodore" = "d/a/b.commodore" ∧
      FileSystem.child "d/x.commodore" "notes.txt" = "d/x.commodore/notes.txt" ∧
      FileSystem.child "d/x.commodore" "y.commodore" = "d/x.commodore/y.commodore" := by
    decide +kernel
  have hnames : FileSystem.isCommandFileName "a.commodore" = true ∧
      FileSystem.isCommandFileName "b.commodore" = true ∧
      FileSystem.isCommandFileName "y.commodore" = true ∧
      FileSystem.isCommandFileName ".commodore" = false ∧
      FileSystem.isCommandFileName "notes.txt" = false := by
    decide +kernel
  have hdirectory : fs.collect "d" =
      ["d/a/b.commodore", "d/a.commodore", "d/x.commodore/y.commodore"] := by
    show FileSystem.commandFilesIn "d" entries = _
    simp [entries, contents, FileSystem.commandFilesIn, FileSystem.commandFilesOf,
      FileSystem.commandFilesAt, hchildren, hnames, List.mergeSort,
      List.MergeSort.Internal.splitInTwo]
  have hcollect : ["d", "one"].flatMap fs.collect = files := by
    rw [List.flatMap_cons, hdirectory]
    rfl
  have hbelow : (Entry.directory [("b.commodore", contents)]).IsTree ∧
      (Entry.directory [("notes.txt", contents), ("y.commodore", contents)]).IsTree :=
    ⟨.directory (by decide) (by decide) (by simp [contents, Entry.IsTree.file]),
      .directory (by decide) (by decide) (by simp [contents, Entry.IsTree.file])⟩
  have htree : (Entry.directory entries).IsTree :=
    .directory (by decide) (by decide) (by simp [entries, contents, hbelow, Entry.IsTree.file])
  have h : ∀ path ∈ ["d", "one"], ∀ entries, fs.entry path = .ok (.directory entries) →
      (Entry.directory entries).IsTree := by
    intro path hmem entries' hentry
    simp only [List.mem_cons, List.not_mem_nil, or_false] at hmem
    rcases hmem with rfl | rfl
    · rwa [← Entry.directory.inj (Except.ok.inj hentry)]
    · exact absurd (Except.ok.inj hentry) (by simp [contents])
  refine ⟨htree, hcollect, ?_⟩
  rw [← hcollect]
  exact arguments_stand_for_command_files fs ["d", "one"] h

end CommandLine

end CommandTree
