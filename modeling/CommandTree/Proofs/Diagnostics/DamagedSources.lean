import CommandTree.Proofs.Diagnostics.Placement
import CommandTree.Proofs.Format.Formatting

/-!
# Damaged sources are rejected

Bytes that are not UTF-8, and input that ends in a failure of the medium, are never accepted,
wherever the damage is. Either the text in front of the damage is wrong already, and then it is
wrong in the same way whatever follows, or the diagnostic says that the source cannot be read on
from the end of that text.

A file is checked line by line, and it is formatted from its whole text. Since damage is always
noticed, both accept the same files.
-/

set_option autoImplicit false

namespace CommandTree

namespace Tree

variable {registry : Registry} {settings : Settings}

/-- Damaged bytes are rejected. The diagnostic is that of all bytes that start with the lines in
front of the damage, or it is the failure to read on behind these lines. -/
theorem exists_error_of_damaged (hready : registry.ReadyMade) (settings : Settings)
    {bytes : List UInt8} {failure : Option String}
    (h : Source.decode? bytes = none ∨ failure ≠ none) {text : List Char}
    (htext : Source.decode? (Source.intactBytes bytes) = some text) :
    ∃ d, parse registry settings (.ofBytes bytes failure) = .error d ∧
      ((∀ bytes' failure', Source.intactBytes bytes <+: bytes' →
        parse registry settings (.ofBytes bytes' failure') = .error d) ∨
      d = (Diagnostic.atSpan (.unreadable (Source.damage bytes failure))
        (Lexis.spanAt text [])).withSource settings.sourceName (String.ofList text)) := by
  obtain rfl := Option.some.inj ((Source.decode?_intactBytes bytes).symm.trans htext)
  have hbreaks := Source.breaks_ofBytes h
  cases hparse : parse registry settings (.ofBytes bytes failure) with
  | ok t =>
    obtain ⟨_, text, _, hloads⟩ | ⟨d, text, hfails, -⟩ | ⟨e, text, hfails, -⟩ :=
      parse_of_agrees hready settings (.same (Source.ofBytes bytes failure))
    · exact absurd hbreaks hloads.not_breaks
    · rw [hparse] at hfails
      contradiction
    · rw [hparse] at hfails
      contradiction
  | error d =>
    refine ⟨d, rfl, or_iff_not_imp_right.mpr fun hother bytes' failure' hstart => ?_⟩
    obtain ⟨_, _, htree, -⟩ | ⟨_, _, -, hsame, -⟩ | ⟨e, text, hfails, hbreaks'⟩ :=
      parse_of_agrees hready settings (Source.agrees_ofBytes failure' h hstart)
    · rw [hparse] at htree
      contradiction
    · rw [hsame, hparse]
    · -- the source breaks at one place only, so this is the failure that was ruled out
      obtain ⟨rfl, rfl⟩ := hbreaks.unique hbreaks'
      rw [hparse] at hfails
      exact absurd (Except.error.inj hfails) hother

end Tree

namespace FileSystem

/-- Lines of which one is not UTF-8 have no text. -/
theorem textOfLines_of_undecodable {lines : List Line} (h : Line.undecodable ∈ lines) :
    textOfLines lines = none := by
  induction lines with
  | nil => contradiction
  | cons line lines ih =>
    cases line with
    | undecodable => rfl
    | text first others =>
      have hlines : Line.undecodable ∈ lines := by simpa using h
      rw [textOfLines, ih hlines]
      rfl

variable {fs : FileSystem} {path : String} {bytes : List UInt8}

/-- The whole text of a file of UTF-8 is what its bytes stand for. -/
theorem text_of_decode? {cs : List Char} (hfile : fs.entry path = .ok (.file (.ofBytes bytes none)))
    (h : Source.decode? bytes = some cs) : fs.text path = .ok (String.ofList cs) := by
  rw [Source.ofBytes_of_decode? h] at hfile
  exact text_of_entry (by rw [hfile, Source.ofString, String.toList_ofList])

/-- A damaged file has no text. -/
theorem exists_error_of_text {failure : Option String}
    (hfile : fs.entry path = .ok (.file (.ofBytes bytes failure)))
    (h : Source.decode? bytes = none ∨ failure ≠ none) : ∃ e, fs.text path = .error e := by
  obtain ⟨ahead, ⟨lines, -, hsource, -⟩, hfails⟩ := Source.breaks_ofBytes h
  generalize Source.damage bytes failure = e at hfails
  rw [hsource] at hfile
  cases hfails with
  | @line others ending =>
    have hnone : textOfLines (lines ++ .undecodable :: others) = none :=
      textOfLines_of_undecodable (by simp)
    cases ending with
    | endOfInput => exact ⟨.notUtf8, by simp only [text, hfile, hnone]⟩
    | failure remainder message => exact ⟨.other message, by simp only [text, hfile]⟩
  | @medium remainder message => exact ⟨.other message, by simp only [text, hfile]⟩

end FileSystem

namespace CommandLine

variable {fs : FileSystem} {path : String} {bytes : List UInt8} {failure : Option String}
  {session : Session}

/-- A file is checked by parsing it. -/
theorem exitCode_check_eq_zero_iff (hfile : fs.entry path = .ok (.file (.ofBytes bytes failure))) :
    (check session fs [path]).exitCode = 0 ↔
      ∃ t, Tree.parse session.registry (session.settings.named path) (.ofBytes bytes failure) =
        .ok t := by
  have hcollect : [path].flatMap fs.collect = [path] := by simp [FileSystem.collect, hfile]
  have hread : session.parseFile fs path =
      Tree.parse session.registry (session.settings.named path) (.ofBytes bytes failure) := by
    rw [Session.parseFile, Tree.parseFile, FileSystem.source, hfile]
  rw [check, hcollect]
  cases hparse : Tree.parse session.registry (session.settings.named path)
      (.ofBytes bytes failure) with
  | ok t => simp [concludeCheck, Verdict.ofFile, Verdict.report?, hread, hparse, Except.map]
  | error d => simp [concludeCheck, Verdict.ofFile, Verdict.report?, hread, hparse, Except.map]

/-- A file is formatted by parsing its whole text. -/
theorem exitCode_format_eq_zero_iff :
    (format session fs path false).exitCode = 0 ↔
      ∃ text t, fs.text path = .ok text ∧ session.parseText path text = .ok t := by
  unfold format
  cases htext : fs.text path with
  | error e =>
    simp only [reduceCtorEq, false_and, exists_false, iff_false]
    exact Outcome.exitCode_failure_ne _
  | ok text =>
    cases hparse : session.parseText path text with
    | error d =>
      simp [hparse]
      exact Outcome.exitCode_failure_ne _
    | ok t => simp [hparse, Outcome.success]

/-- The same files are checked and formatted with success. -/
theorem exitCode_check_iff_format (hready : session.registry.ReadyMade)
    (hfile : fs.entry path = .ok (.file (.ofBytes bytes failure))) :
    (check session fs [path]).exitCode = 0 ↔ (format session fs path false).exitCode = 0 := by
  rw [exitCode_check_eq_zero_iff hfile, exitCode_format_eq_zero_iff]
  by_cases hdamaged : Source.decode? bytes = none ∨ failure ≠ none
  · refine iff_of_false ?_ ?_
    · rintro ⟨t, hparse⟩
      obtain ⟨d, herror, -⟩ := Tree.exists_error_of_damaged hready (session.settings.named path)
        hdamaged (Source.decode?_intactBytes bytes)
      rw [hparse] at herror
      contradiction
    · rintro ⟨text, t, htext, -⟩
      obtain ⟨e, herror⟩ := FileSystem.exists_error_of_text hfile hdamaged
      rw [htext] at herror
      contradiction
  · obtain ⟨hbytes, rfl⟩ : Source.decode? bytes ≠ none ∧ failure = none := by
      simpa [not_or] using hdamaged
    obtain ⟨cs, hcs⟩ := Option.ne_none_iff_exists'.mp hbytes
    have htext := FileSystem.text_of_decode? hfile hcs
    rw [Source.ofBytes_of_decode? hcs]
    simp [htext, Session.parseText, Source.ofString]

/-- A source whose bytes are not UTF-8, or which ends in a failure of the medium, is never accepted.
The diagnostic is that of every source that starts with the lines in front of the damage, or it says
that the source cannot be read on from the end of these lines. A file is therefore checked with
success exactly when it is formatted with success. -/
theorem damaged_source_is_rejected :
    (∀ (registry : Registry) (settings : Settings) (bytes : List UInt8) (failure : Option String)
      (text : List Char), registry.ReadyMade →
      (Source.decode? bytes = none ∨ failure ≠ none) →
      Source.decode? (Source.intactBytes bytes) = some text →
      ∃ d, Tree.parse registry settings (.ofBytes bytes failure) = .error d ∧
        ((∀ bytes' failure', Source.intactBytes bytes <+: bytes' →
          Tree.parse registry settings (.ofBytes bytes' failure') = .error d) ∨
        (d.kind = .lexical ∧ d.problem = .unreadable (Source.damage bytes failure) ∧
          (d.message = "source is not valid UTF-8" ∨ d.message = "failed to read source") ∧
          d.cause = some (.reading (Source.damage bytes failure)) ∧
          d.span = some (.point (Bytes.count text) (1 + text.count '\n')) ∧
          d.line = 1 + text.count '\n' ∧ d.related = [] ∧
          d.source = some ⟨settings.sourceName, String.ofList text⟩))) ∧
    (∀ (fs : FileSystem) (arguments arguments' : List String) (types : Option String)
      (path : String) (bytes : List UInt8) (failure : Option String),
      Request.ofArguments arguments = .ok (.run types (.check path [])) →
      Request.ofArguments arguments' = .ok (.run types (.format path false)) →
      fs.entry path = .ok (.file (.ofBytes bytes failure)) →
      ((run fs arguments).exitCode = 0 ↔ (run fs arguments').exitCode = 0)) := by
  constructor
  · intro registry settings bytes failure text hready hdamaged htext
    obtain ⟨d, hparse, hsame | rfl⟩ :=
      Tree.exists_error_of_damaged hready settings hdamaged htext
    · exact ⟨d, hparse, .inl hsame⟩
    · refine ⟨_, hparse, .inr ⟨rfl, rfl, ?_, rfl, ?_, rfl, rfl, rfl⟩⟩
      · cases hdamage : Source.damage bytes failure with
        | notUtf8 => exact .inl rfl
        | medium message => exact .inr rfl
      · simp [Diagnostic.withSource, Diagnostic.atSpan, Lexis.spanAt, Span.point]
  · intro fs arguments arguments' types path bytes failure hcheck hformat hfile
    rw [run_of_ofArguments hcheck, run_of_ofArguments hformat, answer, answer]
    cases hload : Session.load fs types with
    | error d => rfl
    | ok session => exact exitCode_check_iff_format (Session.readyMade_of_load hload) hfile

/-- In a text that is closed before a line that is not UTF-8, the failure is placed in front of that
line. A file with these bytes is neither checked nor formatted with success. -/
theorem damage_behind_root :
    let bytes : List UInt8 := Bytes.encode "r \x7b \x7d\n".toList ++ [0xff]
    let fs : FileSystem := ⟨fun _ => .ok (.file (.ofBytes bytes none))⟩
    (∃ d, Tree.parse ⟨[.brigadier]⟩ .standard (.ofBytes bytes none) = .error d ∧
      d.span = some (.point 6 2)) ∧
    ((run fs ["check", "f"]).exitCode = 0 ↔ (run fs ["fmt", "f"]).exitCode = 0) := by
  intro bytes fs
  have hready : Registry.ReadyMade ⟨[.brigadier]⟩ := by
    simp [Registry.ReadyMade, Resolver.isReadyMade]
  have hdamaged : Source.decode? bytes = none := by decide +kernel
  have htext : Source.decode? (Source.intactBytes bytes) = some "r \x7b \x7d\n".toList := by
    decide +kernel
  have hwhole : (Tree.parse ⟨[.brigadier]⟩ .standard
      (.ofBytes (Bytes.encode "r \x7b \x7d\n".toList) none)).isOk = true := by decide +kernel
  obtain ⟨hrejected, hsame⟩ := damaged_source_is_rejected
  refine ⟨?_, hsame fs ["check", "f"] ["fmt", "f"] none "f" bytes none (by decide +kernel)
    (by decide +kernel) rfl⟩
  obtain ⟨d, hparse, hevery | ⟨-, -, -, -, hspan, -⟩⟩ :=
    hrejected ⟨[.brigadier]⟩ .standard bytes none _ hready (.inl hdamaged) htext
  · -- without the last byte the text is accepted
    have hstart : Source.intactBytes bytes <+: Bytes.encode "r \x7b \x7d\n".toList := by
      decide +kernel
    rw [hevery _ none hstart] at hwhole
    contradiction
  · refine ⟨d, hparse, hspan.trans ?_⟩
    decide

end CommandLine

end CommandTree
