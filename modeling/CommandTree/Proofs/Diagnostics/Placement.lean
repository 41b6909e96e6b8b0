import CommandTree.Proofs.Lockstep.Parser

/-!
# Where diagnostics point

A diagnostic of a failed parse carries the text that was loaded when it arose, and all its places
are in that text. The text is made of whole lines of the input, because a line is loaded all at
once. The places are stretches between characters of the text. The other places that a diagnostic
points at come before its own place: a brace or a name was read before the token that is in conflict
with it.

The bounds that a span is checked for when a diagnostic is shown follow from that.
-/

set_option autoImplicit false

namespace CommandTree

/-- The span of a stretch lies within the text around it. -/
theorem Lexis.within_spanAt (front slice back : List Char) :
    (spanAt front slice).Within (Bytes.count (front ++ slice ++ back)) := by
  constructor <;> simp [spanAt]

namespace Tree

variable {registry : Registry} {settings : Settings}

/-- A diagnostic of a failed parse points into the text that it attaches. -/
theorem exists_pointsInto_of_parse (hready : registry.ReadyMade) {source : Source} {d : Diagnostic}
    (h : parse registry settings source = .error d) :
    ∃ (d' : Diagnostic) (text : List Char) (ahead : Source),
      d = d'.withSource settings.sourceName (String.ofList text) ∧
      d'.PointsInto text ∧ source.Loads text ahead := by
  obtain ⟨t, text, hparse, -⟩ | ⟨d', text, hparse, -, hpoints, ahead, hloads⟩ |
    ⟨e, text, hparse, ahead, hloads, -⟩ := parse_of_agrees hready settings (.same source)
  · rw [hparse] at h
    contradiction
  · rw [hparse] at h
    exact ⟨d', text, ahead, (Except.error.inj h).symm, hpoints, hloads⟩
  · rw [hparse] at h
    refine ⟨_, text, ahead, (Except.error.inj h).symm, ?_, hloads⟩
    exact ⟨.unreadable e, text, [], [], rfl, by simp, nofun⟩

/-- The text that the diagnostic of a failed parse carries is a prefix of the input and made of
whole lines, of which the last one may be open where the input ends. The place of the diagnostic is
a stretch of that text, its line is the line that the stretch starts on, and the other places are
stretches of the text that start before it. -/
theorem diagnostic_is_placed (hready : registry.ReadyMade) {bytes : List UInt8}
    {failure : Option String} {d : Diagnostic}
    (h : parse registry settings (.ofBytes bytes failure) = .error d) :
    ∃ (text : List Char) (rest : List UInt8) (front slice back : List Char) (span : Span),
      d.source = some ⟨settings.sourceName, String.ofList text⟩ ∧
      bytes = Bytes.encode text ++ rest ∧
      (text = [] ∨ text.getLast? = some '\n' ∨ (rest = [] ∧ failure = none)) ∧
      d.span = some span ∧
      text = front ++ slice ++ back ∧
      span.start = Bytes.count front ∧ span.stop = Bytes.count (front ++ slice) ∧
      span.start ≤ span.stop ∧ span.stop ≤ Bytes.count text ∧
      d.line = span.line ∧ span.line = 1 + front.count '\n' ∧
      span.complaint? (Bytes.count text) = none ∧
      ∀ label ∈ d.related, label.span.start < span.start ∧
        label.span.complaint? (Bytes.count text) = none ∧
        ∃ front' slice' back', text = front' ++ slice' ++ back' ∧
          label.span = Lexis.spanAt front' slice' := by
  obtain ⟨d', text, ahead, rfl, hpoints, hloads⟩ := exists_pointsInto_of_parse hready h
  obtain ⟨rest, hbytes, hlines⟩ := Source.exists_of_loads_ofBytes hloads
  obtain ⟨problem, front, slice, back, rfl, rfl, hrelated⟩ := hpoints
  have hwithin := Lexis.within_spanAt front slice back
  refine ⟨_, rest, front, slice, back, _, rfl, hbytes, hlines, rfl, rfl, rfl, rfl, hwithin.1,
    hwithin.2, rfl, rfl, (Span.complaint?_eq_none_iff _ _).mpr hwithin, fun label hlabel => ?_⟩
  obtain ⟨front', slice', back', rfl, hne, hspan⟩ := hrelated label hlabel
  have htext : front' ++ slice' ++ back' ++ slice ++ back =
      front' ++ slice' ++ (back' ++ slice ++ back) := by simp
  have hwithin' := Lexis.within_spanAt front' slice' (back' ++ slice ++ back)
  rw [← htext] at hwithin'
  have hpos : 0 < Bytes.count slice' := by
    cases slice' with
    | nil => exact absurd rfl hne
    | cons c cs =>
      have := c.utf8Size_pos
      rw [Bytes.count_cons]
      omega
  rw [hspan]
  refine ⟨?_, (Span.complaint?_eq_none_iff _ _).mpr hwithin', front', slice', _, htext, rfl⟩
  simp only [Lexis.spanAt, Bytes.count_append]
  omega

/-- In an input that breaks off behind a repeated name, the diagnostic points back at the first one.
-/
theorem diagnostic_is_placed_behind_first :
    let bytes : List UInt8 := Bytes.encode "r \x7b\n  a;\n  a \x7b \x7d\n".toList ++ [0xff]
    ∃ d text span, parse ⟨[.minecraft]⟩ .standard (.ofBytes bytes (some "lost")) = .error d ∧
      d.related.length = 1 ∧ d.source = some ⟨"<input>", String.ofList text⟩ ∧
      d.span = some span ∧ span.complaint? (Bytes.count text) = none ∧
      ∀ label ∈ d.related, label.span.start < span.start := by
  intro bytes
  have hready : Registry.ReadyMade ⟨[.minecraft]⟩ := by
    simp [Registry.ReadyMade, Resolver.isReadyMade]
  have hrefused : (refusal? ⟨[.minecraft]⟩ .standard (.ofBytes bytes (some "lost"))).map
      (fun d => d.related.length) = some 1 := by
    decide +kernel
  obtain ⟨d, hparse, hrelated⟩ := exists_of_refusal? hrefused
  obtain ⟨text, rest, front, slice, back, span, hsource, -, -, hspan, -, -, -, -, -, -, -,
    hcomplaint, hlabels⟩ := diagnostic_is_placed hready hparse
  exact ⟨d, text, span, hparse, hrelated, hsource, hspan, hcomplaint,
    fun label hlabel => (hlabels label hlabel).1⟩

end Tree

end CommandTree
