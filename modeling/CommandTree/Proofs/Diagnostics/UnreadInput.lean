import CommandTree.Proofs.Diagnostics.Placement
import CommandTree.Proofs.Steps.Locality

/-!
# What is behind the error does not matter

A diagnostic attaches the text that was loaded when it arose. Unless it says that the source could
not be read on, and as long as there is more input than that text, it does not depend on what
follows: every input that starts with the attached text is refused with the same diagnostic.
-/

set_option autoImplicit false

namespace CommandTree

namespace Source

variable {bytes : List UInt8} {failure : Option String} {lines : List Line} {ahead : Source}

/-- If lines of text were loaded from bytes that are more than the text of these lines, something is
left, and all bytes that start with that text start with these lines. -/
theorem exists_prepend_of_ofBytes (htext : Line.undecodable ∉ lines)
    (h : ofBytes bytes failure = ahead.prepend lines)
    (hmore : failure = none → bytes ≠ Bytes.encode (lines.flatMap Line.chars)) :
    ahead ≠ ⟨[], .endOfInput⟩ ∧ ∀ bytes' failure',
      Bytes.encode (lines.flatMap Line.chars) <+: bytes' →
        ∃ ahead' : Source, ofBytes bytes' failure' = ahead'.prepend lines := by
  obtain ⟨pieces, rest, hpieces, hbytes, hrest, hterminated⟩ := exists_lines_ofBytes bytes failure
  have hsplit : pieces.map decodeLine = lines ++ ahead.lines := by rw [← hpieces, h]; rfl
  obtain ⟨loaded, others, rfl, rfl, hothers⟩ := List.map_eq_append_iff.mp hsplit
  rw [encode_flatMap_chars htext] at hmore ⊢
  refine ⟨?_, ?_⟩
  · -- without anything left the text of the lines would be all there is
    rintro rfl
    obtain rfl : others = [] := by simpa using hothers
    cases failure with
    | some message => simp [ofBytes, prepend] at h
    | none => exact hmore rfl (by simpa [hrest rfl] using hbytes)
  · rintro _ failure' ⟨rest', rfl⟩
    have hclosed : ∀ line ∈ loaded, Closed (· == newlineByte) line := by
      intro line hline
      obtain ⟨front, back, rfl⟩ := List.append_of_mem hline
      rcases hterminated front line (back ++ others) (by simp) with hline | ⟨hback, rfl, rfl⟩
      · exact hline
      · obtain ⟨rfl, rfl⟩ := List.append_eq_nil_iff.mp hback
        exact absurd (by simpa using hbytes) (hmore rfl)
    exact ⟨ofBytes rest' failure', ofBytes_flatten_append hclosed rest' failure'⟩

end Source

namespace Tree

variable {registry : Registry} {settings : Settings}

/-- A failed parse is a failed reading, whose diagnostic had no text attached. -/
theorem exists_takeWhole_of_parse (hready : registry.ReadyMade) {source : Source} {d : Diagnostic}
    (h : parse registry settings source = .error d) :
    ∃ d' s', takeWhole registry settings (.ofSource source) = (.error d', s') ∧
      d'.source = none ∧ d = d'.withSource settings.sourceName s'.loadedText := by
  have hrun : TokenStream.SameRun source [] (fun _ _ => True)
      (takeWhole registry settings (.ofSource source))
      (takeWhole registry settings (.ofSource source)) :=
    sameRun_takeWhole hready (TokenStream.inStep_ofSource (.same source))
  rw [parse_eq] at h
  rcases htake : takeWhole registry settings (.ofSource source) with ⟨d' | t, s'⟩
  · rw [htake] at h hrun
    refine ⟨d', s', rfl, ?_, (Except.error.inj h).symm⟩
    obtain ⟨_, _, _, _, hx, -⟩ | ⟨_, _, _, hx, -, -, -, hpoints⟩ | ⟨_, _, hx, -⟩ := hrun
    · simp at hx
    · obtain ⟨_, _, _, _, hd, -⟩ := hpoints
      obtain ⟨rfl, -⟩ : d' = _ ∧ s' = _ := by simpa using hx
      rw [hd]
      rfl
    · obtain ⟨rfl, -⟩ : d' = _ ∧ s' = _ := by simpa using hx
      rfl
  · rw [htake] at h
    simp at h

/-- If parsing fails, and not because the input could not be read on, every input that starts with
the attached text fails with the same diagnostic, whatever follows that text, as long as the first
input was more than that. -/
theorem diagnostic_ignores_unread (hready : registry.ReadyMade) {bytes : List UInt8}
    {failure : Option String} {d : Diagnostic} {name text : String}
    (h : parse registry settings (.ofBytes bytes failure) = .error d)
    (hreads : ¬ d.IsReadFailure) (htext : d.source = some ⟨name, text⟩)
    (hmore : failure = none → bytes ≠ Bytes.encode text.toList) {bytes' : List UInt8}
    (hstart : Bytes.encode text.toList <+: bytes') (failure' : Option String) :
    parse registry settings (.ofBytes bytes' failure') = .error d := by
  obtain ⟨d', s', htake, hsource, rfl⟩ := exists_takeWhole_of_parse hready h
  obtain ⟨lines, hloads, hsame⟩ := (Reading.composes_local.takeWhole hready settings
    (.ofSource (.ofBytes bytes failure)) _ s' htake).resolve_left (by
      rintro ⟨d'', hd'', hfails⟩
      obtain rfl := Except.error.inj hd''
      exact hreads hfails)
  have hloaded : s'.loadedText = String.ofList (lines.flatMap Line.chars) := by
    rw [TokenStream.loadedText, hloads.loadedText_eq]
    rfl
  obtain rfl : text = String.ofList (lines.flatMap Line.chars) := by
    rw [Diagnostic.withSource, hsource, hloaded] at htext
    exact (congrArg NamedText.text (Option.some.inj htext)).symm
  rw [String.toList_ofList] at hmore hstart
  obtain ⟨hleft, hlines⟩ :=
    Source.exists_prepend_of_ofBytes hloads.text hloads.ahead_eq hmore
  obtain ⟨ahead', hahead'⟩ := hlines bytes' failure' hstart
  have hother : takeWhole registry settings (.ofSource (.ofBytes bytes' failure')) =
      (.error d', s'.facing ahead') := by
    rw [hahead']
    exact hsame hleft ahead'
  rw [parse_eq, hother]
  rfl

/-- A brace where a name should be is reported without a look at the next line, so it makes no
difference if that line is damaged. -/
theorem diagnostic_ignores_unread_damage :
    let bytes := Bytes.encode "r \x7b\n  \x7b\n\x7d\n".toList
    let bytes' := Bytes.encode "r \x7b\n  \x7b\n".toList ++ [0xff]
    ∃ d, parse ⟨[.minecraft]⟩ .standard (.ofBytes bytes none) = .error d ∧ ¬ d.IsReadFailure ∧
      d.source = some ⟨"<input>", "r \x7b\n  \x7b\n"⟩ ∧
      parse ⟨[.minecraft]⟩ .standard (.ofBytes bytes' (some "lost")) = .error d := by
  intro bytes bytes'
  have hready : Registry.ReadyMade ⟨[.minecraft]⟩ := by
    simp [Registry.ReadyMade, Resolver.isReadyMade]
  have hrefused : (refusal? ⟨[.minecraft]⟩ .standard (.ofBytes bytes none)).map
      (fun d => (d.kind, d.source)) =
        some (.structural, some ⟨"<input>", "r \x7b\n  \x7b\n"⟩) := by
    decide +kernel
  obtain ⟨d, hparse, hd⟩ := exists_of_refusal? hrefused
  obtain ⟨hkind, htext⟩ := Prod.mk.inj hd
  have hreads : ¬ d.IsReadFailure := by
    rintro ⟨e, he⟩
    rw [Diagnostic.kind, he] at hkind
    contradiction
  exact ⟨d, hparse, hreads, htext, diagnostic_ignores_unread hready hparse hreads htext
    (fun _ => by decide +kernel) ⟨[0xff], rfl⟩ (some "lost")⟩

end Tree

end CommandTree
