import CommandTree.CommandLine
import CommandTree.Proofs.Format.RoundTrip

/-!
# Formatting is stable

The canonical form of a parsed text is parsed as the same tree, so it is its own canonical form.
That needs no assumption about the tree: whatever words declared its types in the text, the words
that are written for them declare them again, and everything else that a derivation asks of a tree
does not depend on the text it is from.

For the program this means that a file with what `fmt` wrote passes `fmt --check`, as long as the
same types are in force.
-/

set_option autoImplicit false

namespace CommandTree

/-! ## Trees that were parsed -/

namespace Phrase

variable {registry : Registry} {defaultSpace : String}

mutual

/-- The types of a tree that a phrase denotes are declared by their own words. -/
theorem Denotes.everyType {p : Phrase} {t : Tree} (h : p.Denotes registry defaultSpace t) :
    t.EveryType (Tree.KeepsWords registry defaultSpace) := by
  have htype : ∀ a, t.type = some a → Tree.KeepsWords registry defaultSpace a := by
    intro a ha
    have htypes := h.types
    rw [ha] at htypes
    exact htypes.words
  obtain ⟨name, type, children⟩ := t
  refine ⟨htype, ?_⟩
  cases p with
  | leaf _ words =>
    obtain ⟨-, -, rfl⟩ := h
    trivial
  | scope _ words inner => exact DenotesAll.everyTypeAll h.2.2

/-- Trees that phrases denote have types that are declared by their own words. -/
theorem DenotesAll.everyTypeAll {ps : List Phrase} {ts : List Tree}
    (h : DenotesAll registry defaultSpace ps ts) :
    Tree.EveryTypeAll (Tree.KeepsWords registry defaultSpace) ts := by
  cases ts with
  | nil => trivial
  | cons t ts =>
    cases ps with
    | nil => simp [DenotesAll] at h
    | cons p ps => exact ⟨h.1.everyType, DenotesAll.everyTypeAll h.2⟩

end

/-- What diagnostics call a source has no part in its derivation. -/
theorem derives_named_iff {settings : Settings} {s : TokenStream} {p : Phrase} {t : Tree}
    (sourceName : String) :
    p.Derives registry (settings.named sourceName) s t ↔ p.Derives registry settings s t := by
  constructor
  · rintro ⟨hlexes, hliteral, hdenotes, hdistinct, hallowed⟩
    exact ⟨hlexes, hliteral, hdenotes, hdistinct, hallowed⟩
  · rintro ⟨hlexes, hliteral, hdenotes, hdistinct, hallowed⟩
    exact ⟨hlexes, hliteral, hdenotes, hdistinct, hallowed⟩

end Phrase

namespace Tree

variable {registry : Registry} {settings : Settings}

/-- A parsed tree is read back from its canonical form. -/
theorem parse_source_of_parse (hready : registry.ReadyMade) {source : Source} {t : Tree}
    (h : parse registry settings source = .ok t) :
    parse registry settings (.ofString t.source) = .ok t := by
  obtain ⟨p, hp⟩ := (parse_eq_ok_iff_derives hready).mp h
  exact parse_source_of_keepsWords hready (hp.denotes.type_eq_none hp.literal) hp.distinct
    hp.allowed hp.denotes.everyType

/-- The name of a source does not matter to whether it is parsed and to which tree. -/
theorem parse_named_iff (hready : registry.ReadyMade) {source : Source} {t : Tree}
    (sourceName : String) :
    parse registry (settings.named sourceName) source = .ok t ↔
      parse registry settings source = .ok t := by
  simp only [parse_eq_ok_iff_derives hready, Phrase.derives_named_iff]

end Tree

/-! ## Files -/

namespace FileSystem

/-- The lines of a text have that text. -/
theorem textOfLines_ofChars (cs : List Char) :
    textOfLines (Source.ofChars cs).lines = some cs := by
  cases cs with
  | nil => rfl
  | cons c cs =>
    obtain ⟨others, rest, hcs, hlines, -⟩ := Source.ofChars_cons c cs
    have hrest := textOfLines_ofChars rest
    rw [hlines, textOfLines, hrest, hcs]
    rfl
termination_by cs.length
decreasing_by
  rw [hcs, List.length_cons, List.length_append]
  omega

/-- What is read from a file that holds a text is the text. -/
theorem text_of_entry {fs : FileSystem} {path text : String}
    (h : fs.entry path = .ok (.file (.ofString text))) : fs.text path = .ok text := by
  have hsource : Source.ofString text =
      ⟨(Source.ofChars text.toList).lines, .endOfInput⟩ := rfl
  rw [FileSystem.text, h, hsource]
  simp [textOfLines_ofChars]

end FileSystem

/-! ## Runs -/

/-- A types file declares ready-made resolvers only. -/
theorem TypesFile.readyMade_registry (file : TypesFile) : file.registry.ReadyMade := by
  intro resolver hmem
  simp only [registry, List.mem_append, List.mem_map] at hmem
  rcases hmem with (hminecraft | ⟨⟨space, types⟩, -, rfl⟩) | hbrigadier
  · split at hminecraft
    · rw [List.mem_singleton.mp hminecraft]
      rfl
    · contradiction
  · rfl
  · split at hbrigadier
    · rw [List.mem_singleton.mp hbrigadier]
      rfl
    · contradiction

namespace CommandLine

/-- The resolvers of every session are ready-made, with a types file and without one. -/
theorem Session.readyMade_of_load {fs : FileSystem} {types : Option String} {session : Session}
    (h : Session.load fs types = .ok session) : session.registry.ReadyMade := by
  cases types with
  | none =>
    obtain rfl : standard = session := Except.ok.inj h
    exact nofun
  | some path =>
    rw [load] at h
    cases hfile : TypesFile.load fs path with
    | error d =>
      rw [hfile] at h
      contradiction
    | ok file =>
      rw [hfile] at h
      obtain rfl : ofTypesFile file = session := Except.ok.inj h
      exact file.readyMade_registry

variable {fs : FileSystem} {arguments : List String} {types : Option String} {path : String}

/-- What a command does with arguments that are understood is to answer the request. -/
theorem run_of_ofArguments {request : Request} (h : Request.ofArguments arguments = .ok request) :
    run fs arguments = answer fs request := by
  rw [run, h]

/-- A command that fails does not exit with zero. -/
theorem Outcome.exitCode_failure_ne (report : Report) : (failure report).exitCode ≠ 0 := by
  show (1 : UInt8) ≠ 0
  decide

/-- A run that shows the canonical form of a file has loaded a session, has read the file and has
written the canonical form of its tree. -/
theorem exists_tree_of_format
    (h : (answer fs (.run types (.format path false))).exitCode = 0) :
    ∃ session text t, Session.load fs types = .ok session ∧ fs.text path = .ok text ∧
      session.parseText path text = .ok t ∧
      (answer fs (.run types (.format path false))).output = t.source := by
  simp only [answer] at h ⊢
  split at h
  · exact absurd h (Outcome.exitCode_failure_ne _)
  rename_i session hload
  rw [hload]
  simp only [perform, format] at h ⊢
  split at h
  · exact absurd h (Outcome.exitCode_failure_ne _)
  rename_i text htext
  rw [htext]
  split at h
  · exact absurd h (Outcome.exitCode_failure_ne _)
  rename_i t ht
  exact ⟨session, text, t, rfl, rfl, ht, rfl⟩

/-- A file that holds the canonical form of the tree parsed from it is said to be canonical. -/
theorem format_of_source_eq {session : Session} {t : Tree} (htext : fs.text path = .ok t.source)
    (hparse : session.parseText path t.source = .ok t) :
    format session fs path true = .success (path ++ " is canonical\n") := by
  rw [format, htext]
  simp [hparse, compare]

/-- Formatting keeps what a text means, and formatting again changes nothing. What a run of `fmt`
has written therefore passes `fmt --check` under any path, given the same types. -/
theorem format_stable :
    (∀ (registry : Registry) (settings : Settings) (source : Source) (t : Tree),
      registry.ReadyMade → Tree.parse registry settings source = .ok t →
      ∃ t', Tree.parse registry settings (.ofString t.source) = .ok t' ∧ t' = t ∧
        t'.source = t.source) ∧
    (∀ (fs fs' : FileSystem) (arguments arguments' : List String) (types : Option String)
      (path path' : String),
      Request.ofArguments arguments = .ok (.run types (.format path false)) →
      Request.ofArguments arguments' = .ok (.run types (.format path' true)) →
      (run fs arguments).exitCode = 0 →
      Session.load fs' types = Session.load fs types →
      fs'.text path' = .ok (run fs arguments).output →
      run fs' arguments' = .success (path' ++ " is canonical\n")) := by
  constructor
  · intro registry settings source t hready hparse
    exact ⟨t, Tree.parse_source_of_parse hready hparse, rfl, rfl⟩
  · intro fs fs' arguments arguments' types path path' hshow hcheck hzero hsame htext
    rw [run_of_ofArguments hshow] at hzero htext
    obtain ⟨session, text, t, hload, -, hparse, houtput⟩ := exists_tree_of_format hzero
    rw [houtput] at htext
    have hready := Session.readyMade_of_load hload
    have hagain : session.parseText path' t.source = .ok t := by
      have hnamed := (Tree.parse_named_iff hready path).mp hparse
      exact (Tree.parse_named_iff hready path').mpr (Tree.parse_source_of_parse hready hnamed)
    rw [run_of_ofArguments hcheck, answer, hsame, hload]
    exact format_of_source_eq htext hagain

/-- A text in another layout is formatted, and what is written for it passes. -/
theorem format_stable_other_layout :
    let registry : Registry := ⟨[.minecraft, .brigadier]⟩
    let source : Source := .ofString "r{a brigadier:float -1.50 max;b entity player{}}"
    let fs : FileSystem := ⟨fun _ => .ok (.file (.ofString "r{a float -1.50 max;b{}}"))⟩
    let fs' : FileSystem := ⟨fun _ => .ok (.file (.ofString (run fs ["fmt", "old"]).output))⟩
    (∃ t, Tree.parse registry .standard source = .ok t ∧
      ∃ t', Tree.parse registry .standard (.ofString t.source) = .ok t' ∧ t' = t ∧
        t'.source = t.source) ∧
    run fs' ["fmt", "--check", "new"] = .success "new is canonical\n" := by
  intro registry source fs fs'
  have hready : registry.ReadyMade := by simp [registry, Registry.ReadyMade, Resolver.isReadyMade]
  have hok : (Tree.parse registry .standard source).isOk = true := by decide +kernel
  constructor
  · cases hparse : Tree.parse registry .standard source with
    | error d => simp [hparse, Except.isOk, Except.toBool] at hok
    | ok t => exact ⟨t, rfl, format_stable.1 registry .standard source t hready hparse⟩
  · refine format_stable.2 fs fs' ["fmt", "old"] ["fmt", "--check", "new"] none "old" "new"
      (by decide +kernel) (by decide +kernel) (by decide +kernel) rfl ?_
    exact FileSystem.text_of_entry rfl

end CommandLine

end CommandTree
