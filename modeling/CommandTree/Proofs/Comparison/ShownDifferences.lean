import CommandTree.Proofs.Comparison.CanonicalLines
import CommandTree.Proofs.Comparison.ShownLines
import CommandTree.Proofs.Format.Formatting

/-!
# What a comparison shows

A file that is not canonical fails `fmt --check`, and the difference that is shown ought to say why:
without the lines of either mark it ought to be one of the two texts. For the canonical text it
always is, because its lines are neither empty nor end in a carriage return. For the text of the
file it need not be. A run of lines that were removed is shown without a last line that is empty and
without the carriage returns at the ends of its other lines, and nothing else shows them. A text
that differs from the canonical one only in the blanks at its end has no difference at all.

`compare_shows_difference_iff` says that there are no other exceptions.
-/

set_option autoImplicit false

namespace CommandTree

namespace LineDiff

/-! ## Two texts -/

/-- Of every list but that of one empty line, all lines are present. -/
theorem present_of_ne {lines : List (List Char)} (h : lines ≠ [[]]) : present lines = lines := by
  unfold present
  split
  · contradiction
  · rfl

/-- The lines that are present are some of the lines. -/
theorem present_sublist_self (lines : List (List Char)) : (present lines).Sublist lines := by
  unfold present
  split
  · exact List.nil_sublist _
  · exact List.Sublist.refl _

/-- Where lines are some of others, so are those that are present. -/
theorem present_sublist {lines lines' : List (List Char)} (h : lines.Sublist lines') :
    (present lines).Sublist (present lines') := by
  by_cases hlines' : lines' = [[]]
  · subst hlines'
    rcases List.sublist_singleton.mp h with rfl | rfl <;> exact List.nil_sublist _
  · rw [present_of_ne hlines']
    exact (present_sublist_self lines).trans h

variable (old new : String)

/-- The changes from one text to another hold the lines of both. -/
theorem without_changesOfTexts :
    without .added (changesOfTexts old new) = present (trimmedLines old) ∧
      without .removed (changesOfTexts old new) = present (trimmedLines new) := by
  obtain ⟨hold, hnew⟩ := common_sublist (trimmedLines old) (trimmedLines new)
  exact without_changes (present_sublist hold) (present_sublist hnew)

/-- Between texts with the same lines every line is kept. -/
theorem changesOfTexts_of_eq (h : trimmedLines old = trimmedLines new) :
    ∀ change ∈ changesOfTexts old new, change.fate = .kept := by
  have hchanges : changesOfTexts old new = changes
      (present (common (trimmedLines old) (trimmedLines new))) (present (trimmedLines old))
      (present (trimmedLines new)) := rfl
  rw [hchanges, ← h, common_self, changes_self]
  simp

/-- A change is about a line of one of the texts. -/
theorem mem_of_mem_changesOfTexts {change : Change (List Char)}
    (h : change ∈ changesOfTexts old new) :
    change.line ∈ trimmedLines old ∨ change.line ∈ trimmedLines new := by
  obtain ⟨hold, hnew⟩ := without_changesOfTexts old new
  by_cases hadded : change.fate = .added
  · have hmem : change.line ∈ without .removed (changesOfTexts old new) :=
      List.mem_map_of_mem (List.mem_filter.mpr ⟨h, by simp [hadded]⟩)
    rw [hnew] at hmem
    exact Or.inr ((present_sublist_self _).subset hmem)
  · have hmem : change.line ∈ without .added (changesOfTexts old new) :=
      List.mem_map_of_mem (List.mem_filter.mpr ⟨h, by simp [hadded]⟩)
    rw [hold] at hmem
    exact Or.inl ((present_sublist_self _).subset hmem)

/-- Every string that is shown is a single line. -/
theorem newline_notMem_marked {line : String} (h : line ∈ marked old new) :
    '\n' ∉ line.toList := by
  obtain ⟨run, hrun, hmem⟩ := List.mem_flatMap.mp h
  obtain ⟨fate, lines, -, rfl⟩ := exists_fate_of_mem_runs hrun
  rw [showRun_eq] at hmem
  obtain ⟨shown, hshown, rfl⟩ := List.mem_map.mp hmem
  obtain ⟨part, hpart, hsubset⟩ := exists_of_mem_shownLines hshown
  have hchange : Change.mk fate part ∈ changesOfTexts old new :=
    mem_of_mem_runs hrun (List.mem_map_of_mem hpart)
  have hnotMem : '\n' ∉ part := (mem_of_mem_changesOfTexts old new hchange).elim
    Split.notMem_of_mem_parts Split.notMem_of_mem_parts
  rw [String.toList_ofList, List.mem_cons, not_or]
  exact ⟨by cases fate <;> decide, fun hmem => hnotMem (hsubset hmem)⟩

variable {old new}

/-- The lines of a canonical text are not those of the empty text, whose only line is empty. -/
theorem ne_of_isWrittenLine (hnew : ∀ line ∈ trimmedLines new, Tree.IsWrittenLine line) :
    trimmedLines new ≠ [[]] := by
  intro heq
  rw [heq] at hnew
  obtain ⟨-, front, c, hline, -⟩ := hnew [] List.mem_cons_self
  simp at hline

/-- Lines that end in a semicolon or a brace are shown in full, since they are not empty and end in
no carriage return. -/
theorem shownInFull_of_isWrittenLine {lines : List (List Char)}
    (h : ∀ line ∈ lines, Tree.IsWrittenLine line) : ShownInFull lines := by
  have hlast : ∀ line ∈ lines, ∃ c, line.getLast? = some c ∧ c ≠ '\r' := by
    intro line hmem
    obtain ⟨-, front, c, rfl, hc⟩ := h line hmem
    refine ⟨c, by simp, ?_⟩
    rcases hc with rfl | rfl | rfl <;> decide
  constructor
  · intro hempty
    obtain ⟨c, hc, -⟩ := hlast [] (List.mem_of_getLast? hempty)
    contradiction
  · intro line hmem hreturn
    obtain ⟨c, hc, hne⟩ := hlast line (List.dropLast_subset _ hmem)
    rw [hreturn] at hc
    exact hne (Option.some.inj hc).symm

/-- The lines that the new text has are shown in full, if they are written lines. -/
theorem shownInFull_without_removed
    (hnew : ∀ line ∈ trimmedLines new, Tree.IsWrittenLine line) {run : List (Change (List Char))}
    (h : run ∈ runs (changesOfTexts old new)) : ShownInFull (without .removed run) := by
  refine shownInFull_of_isWrittenLine fun line hline => hnew line ?_
  have hlines := (without_changesOfTexts old new).2
  rw [present_of_ne (ne_of_isWrittenLine hnew)] at hlines
  rw [← hlines, without_eq_flatMap]
  exact List.mem_flatMap.mpr ⟨run, h, hline⟩

/-- What a comparison has to show: a line that only one of the texts has, and without the lines of
either mark the lines of one text, which has no blanks at its end. -/
structure Shows (shown : List String) (old new : String) : Prop where
  /-- Some line has one of the two marks. -/
  differs : ∃ line ∈ shown, line.toList.head? = some '+' ∨ line.toList.head? = some '-'
  /-- Without the added lines it is the old text. -/
  old : unmarked '+' shown = trimmedLines old
  /-- Without the removed lines it is the new text. -/
  new : unmarked '-' shown = trimmedLines new

/-- Some run of lines was removed and is not shown in full. -/
def Hides (old new : String) : Prop :=
  ∃ run ∈ runs (changesOfTexts old new), (∀ change ∈ run, change.fate = .removed) ∧
    ¬ ShownInFull (run.map Change.line)

instance (old new : String) : Decidable (Hides old new) :=
  inferInstanceAs (Decidable (∃ run ∈ runs (changesOfTexts old new), _))

/-- Without the added lines every run is shown in full unless removed lines are hidden, because a
line that is kept is one of the canonical text. -/
theorem shownInFull_without_added_iff
    (hnew : ∀ line ∈ trimmedLines new, Tree.IsWrittenLine line) :
    (∀ run ∈ runs (changesOfTexts old new), ShownInFull (without .added run)) ↔
      ¬ Hides old new := by
  simp only [Hides, not_exists, not_and, not_not]
  refine forall₂_congr fun run hrun => ?_
  have hfull := shownInFull_without_removed hnew hrun
  obtain ⟨fate, lines, hne, rfl⟩ := exists_fate_of_mem_runs hrun
  rw [map_line_mk]
  -- lines that are kept are lines of the new text, and those that are added are left out
  cases fate with
  | kept =>
    rw [without_of_ne (by decide)] at hfull ⊢
    exact iff_of_true hfull fun _ => hfull
  | removed =>
    rw [without_of_ne (by decide)]
    simp
  | added =>
    obtain ⟨line, others, rfl⟩ := List.exists_cons_of_ne_nil hne
    rw [without_of_eq]
    have hnone : ShownInFull [] := by simp [ShownInFull]
    exact iff_of_true hnone fun h => absurd (h _ List.mem_cons_self) (by simp)

/-- Texts that differ differ in some line, which is seen unless lines are hidden. -/
theorem exists_marked_of_ne (hold : trimmedLines old ≠ [[]])
    (hnew : ∀ line ∈ trimmedLines new, Tree.IsWrittenLine line)
    (hne : trimmedLines old ≠ trimmedLines new) (hides : ¬ Hides old new) :
    ∃ line ∈ marked old new, line.toList.head? = some '+' ∨ line.toList.head? = some '-' := by
  have hchange : ¬ ∀ change ∈ changesOfTexts old new, change.fate = .kept := by
    intro hkept
    obtain ⟨hlinesOld, hlinesNew⟩ := without_changesOfTexts old new
    rw [without_eq_of_forall_kept hkept (by decide), present_of_ne hold] at hlinesOld
    rw [without_eq_of_forall_kept hkept (by decide), present_of_ne (ne_of_isWrittenLine hnew)]
      at hlinesNew
    exact hne (hlinesOld.symm.trans hlinesNew)
  rw [← flatten_runs (changesOfTexts old new)] at hchange
  obtain ⟨change, hmem, hfate⟩ := not_forall₂.mp hchange
  obtain ⟨run, hrun, hmem⟩ := List.mem_flatten.mp hmem
  have hfullOld := (shownInFull_without_added_iff hnew).mpr hides run hrun
  have hfullNew := shownInFull_without_removed hnew hrun
  obtain ⟨fate, lines, hlines, rfl⟩ := exists_fate_of_mem_runs hrun
  have hmark : ShownInFull lines ∧ (fate.mark = '+' ∨ fate.mark = '-') := by
    cases fate with
    | kept =>
      obtain ⟨line, -, rfl⟩ := List.mem_map.mp hmem
      contradiction
    | removed =>
      rw [without_of_ne (by decide)] at hfullOld
      exact ⟨hfullOld, Or.inr rfl⟩
    | added =>
      rw [without_of_ne (by decide)] at hfullNew
      exact ⟨hfullNew, Or.inl rfl⟩
  have hshown : showRun (lines.map (.mk fate)) =
      lines.map fun line => String.ofList (fate.mark :: line) := by
    rw [showRun_eq, (shownLines_eq_iff lines).mpr hmark.1]
  obtain ⟨line, others, rfl⟩ := List.exists_cons_of_ne_nil hlines
  refine ⟨String.ofList (fate.mark :: line), List.mem_flatMap.mpr ⟨_, hrun, ?_⟩, ?_⟩
  · rw [hshown]
    exact List.mem_cons_self
  · simpa using hmark.2

/-- Between texts with the same lines every line has the mark of a line that is kept. -/
theorem head?_of_eq (h : trimmedLines old = trimmedLines new) {line : String}
    (hline : line ∈ marked old new) : line.toList.head? = some ' ' := by
  obtain ⟨run, hrun, hmem⟩ := List.mem_flatMap.mp hline
  have hkept : ∀ change ∈ run, change.fate = .kept := fun change hchange =>
    changesOfTexts_of_eq old new h change (mem_of_mem_runs hrun hchange)
  obtain ⟨fate, lines, hlines, rfl⟩ := exists_fate_of_mem_runs hrun
  obtain ⟨first, others, rfl⟩ := List.exists_cons_of_ne_nil hlines
  obtain rfl : fate = .kept := hkept ⟨fate, first⟩ List.mem_cons_self
  rw [showRun_eq] at hmem
  obtain ⟨shown, -, rfl⟩ := List.mem_map.mp hmem
  simp [Fate.mark]

/-- The new text is always shown. All that has to be shown is shown exactly if the texts differ in
more than the blanks at their ends and no removed lines are hidden. -/
theorem marked_shows_iff (hold : trimmedLines old ≠ [[]])
    (hnew : ∀ line ∈ trimmedLines new, Tree.IsWrittenLine line) :
    unmarked '-' (marked old new) = trimmedLines new ∧
      (Shows (marked old new) old new ↔
        trimmedLines old ≠ trimmedLines new ∧ ¬ Hides old new) := by
  obtain ⟨hlinesOld, hlinesNew⟩ := without_changesOfTexts old new
  rw [present_of_ne hold] at hlinesOld
  rw [present_of_ne (ne_of_isWrittenLine hnew)] at hlinesNew
  have hshowsNew : unmarked '-' (marked old new) = trimmedLines new := by
    rw [← hlinesNew]
    exact (unmarked_runs_eq_iff .removed _).mpr fun run => shownInFull_without_removed hnew
  have hshowsOld : unmarked '+' (marked old new) = trimmedLines old ↔ ¬ Hides old new := by
    rw [← shownInFull_without_added_iff hnew, ← hlinesOld]
    exact unmarked_runs_eq_iff .added _
  refine ⟨hshowsNew, ?_, ?_⟩
  · rintro ⟨⟨line, hline, hmark⟩, hshown, -⟩
    refine ⟨fun heq => ?_, hshowsOld.mp hshown⟩
    rw [head?_of_eq heq hline] at hmark
    revert hmark
    decide
  · rintro ⟨hne, hides⟩
    exact ⟨exists_marked_of_ne hold hnew hne hides, hshowsOld.mpr hides, hshowsNew⟩

/-- The lines of a text with a character that is no blank. -/
theorem trimmedLines_ne {text : String} {c : Char} (hmem : c ∈ text.toList)
    (h : Blank.isBlank c = false) : trimmedLines text ≠ [[]] := by
  intro heq
  have hjoin := Split.join_parts '\n' (Blank.trimEnd text.toList)
  rw [trimmedLines] at heq
  rw [heq] at hjoin
  exact Blank.trimEnd_ne_nil hmem h hjoin.symm

end LineDiff

/-- A text that is parsed has a semicolon or a brace in it. -/
theorem Tree.exists_nonblank_of_parse {registry : Registry} {settings : Settings}
    (hready : registry.ReadyMade) {text : String} {t : Tree}
    (h : parse registry settings (.ofString text) = .ok t) :
    ∃ c ∈ text.toList, Blank.isBlank c = false := by
  obtain ⟨p, hp⟩ := (parse_eq_ok_iff_derives hready).mp h
  obtain ⟨located, last, htokens, hvalues⟩ := hp.lexes
  obtain ⟨tokens, ending, htiles⟩ := Lexis.exists_tiles [] text.toList
  have hsame := TokenStream.tokens_of_tiles htiles (TokenStream.stands_ofString text)
  obtain ⟨rfl, -⟩ := Prod.mk.inj (htokens.symm.trans hsame)
  have hend : Token.terminator ∈ p.tokens ∨ Token.closeScope ∈ p.tokens := by
    cases p with
    | leaf => simp [Phrase.tokens]
    | scope => simp [Phrase.tokens]
  have hslice : ∀ value ∈ p.tokens, ∃ slice back, Lexis.Lexeme slice back value ∧
      slice ⊆ text.toList := by
    intro value hvalue
    rw [← hvalues] at hvalue
    obtain ⟨token, htoken, rfl⟩ := List.mem_map.mp hvalue
    obtain ⟨front, slice, back, heq, -, hlexeme⟩ := htiles.exists_slice token htoken
    refine ⟨slice, back, hlexeme, fun c hc => ?_⟩
    rw [List.nil_append] at heq
    rw [heq]
    simp [hc]
  rcases hend with hend | hend
  · obtain ⟨slice, back, hlexeme, hsubset⟩ := hslice _ hend
    cases hlexeme
    exact ⟨';', hsubset List.mem_cons_self, by decide⟩
  · obtain ⟨slice, back, hlexeme, hsubset⟩ := hslice _ hend
    cases hlexeme
    exact ⟨'\x7d', hsubset List.mem_cons_self, by decide⟩

namespace CommandLine

open LineDiff

/-- A canonical text that a source has is that of the tree which is parsed from it. -/
theorem exists_tree_of_source {result : Except Diagnostic Tree} {text : String}
    (h : (result.map Tree.source).toOption = some text) :
    ∃ t, result = .ok t ∧ t.source = text := by
  cases result with
  | error d => contradiction
  | ok t => exact ⟨t, rfl, Option.some.inj h⟩

/-- A file that is not canonical fails the comparison, and the lines behind the two that head the
difference show the canonical text. They show all that they have to, namely the text of the file and
some line that only one of the two has, exactly if the texts differ in more than the blanks at their
ends and no removed lines are hidden. -/
theorem compare_shows_difference_iff {fs : FileSystem} {types : Option String} {path text : String}
    {session : Session} {t : Tree} (hload : Session.load fs types = .ok session)
    (htext : fs.text path = .ok text) (hparse : session.parseText path text = .ok t)
    (hne : t.source ≠ text) :
    ∃ shown : List String,
      answer fs (.run types (.format path true)) =
        ⟨1, "--- " ++ path ++ "\n+++ " ++ path ++ " (canonical)\n" ++
          String.join (shown.map (· ++ "\n")), []⟩ ∧
      (∀ line ∈ shown, '\n' ∉ line.toList) ∧
      unmarked '-' shown = trimmedLines t.source ∧
      (Shows shown text t.source ↔
        trimmedLines text ≠ trimmedLines t.source ∧ ¬ Hides text t.source) := by
  obtain ⟨c, hmem, hc⟩ := Tree.exists_nonblank_of_parse (Session.readyMade_of_load hload) hparse
  have hshows := marked_shows_iff (trimmedLines_ne hmem hc) (isWrittenLine_of_mem t)
  refine ⟨marked text t.source, ?_, fun _ => newline_notMem_marked _ _, hshows⟩
  simp only [answer, hload, perform, format, htext, hparse, compare, if_neg hne, if_true]

/-- A file on one line is shown against three lines. -/
theorem compare_shows_difference_one_line :
    let fs : FileSystem := ⟨fun _ => .ok (.file (.ofString "root{a;}"))⟩
    ∃ shown : List String,
      answer fs (.run none (.format "messy" true)) =
        ⟨1, "--- messy\n+++ messy (canonical)\n" ++ String.join (shown.map (· ++ "\n")), []⟩ ∧
      Shows shown "root{a;}" "root \x7b\n    a;\n\x7d\n" := by
  intro fs
  have hread : ((Session.standard.parseText "messy" "root{a;}").map Tree.source).toOption =
      some "root \x7b\n    a;\n\x7d\n" := by decide +kernel
  obtain ⟨t, hparse, hsource⟩ := exists_tree_of_source hread
  have hne : t.source ≠ "root{a;}" := by
    rw [hsource]
    decide +kernel
  have htext : fs.text "messy" = .ok "root{a;}" := FileSystem.text_of_entry rfl
  obtain ⟨shown, hanswer, -, -, hshows⟩ :=
    @compare_shows_difference_iff fs none "messy" "root{a;}" Session.standard t rfl htext hparse hne
  rw [hsource] at hshows
  exact ⟨shown, hanswer, hshows.mpr ⟨by decide +kernel, by decide +kernel⟩⟩

/-- A blank line that was removed is not shown, and nothing else is wrong with this file. -/
theorem blank_line_is_hidden :
    let text := "r \x7b\n\n    a;\n\x7d\n"
    let fs : FileSystem := ⟨fun _ => .ok (.file (.ofString text))⟩
    let shown := [" r \x7b", "     a;", " \x7d"]
    (∃ t, Session.standard.parseText "r.commodore" text = .ok t ∧ t.source ≠ text ∧
      ¬ Shows shown text t.source) ∧
    (answer fs (.run none (.format "r.commodore" true))).exitCode = 1 ∧
    (answer fs (.run none (.format "r.commodore" true))).output =
      "--- r.commodore\n+++ r.commodore (canonical)\n" ++
        String.join (shown.map (· ++ "\n")) ∧
    (∀ line ∈ shown, line.toList.head? = some ' ') ∧
    unmarked '+' shown ≠ trimmedLines text := by
  intro text fs shown
  have hread : ((Session.standard.parseText "r.commodore" text).map Tree.source).toOption =
      some "r \x7b\n    a;\n\x7d\n" := by decide +kernel
  obtain ⟨t, hparse, hsource⟩ := exists_tree_of_source hread
  have hunmarked : unmarked '+' shown ≠ trimmedLines text := by decide +kernel
  have hne : t.source ≠ text := by
    rw [hsource]
    decide +kernel
  exact ⟨⟨t, hparse, hne, fun h => hunmarked h.old⟩, by decide +kernel, by decide +kernel,
    by decide +kernel, hunmarked⟩

end CommandLine

end CommandTree
