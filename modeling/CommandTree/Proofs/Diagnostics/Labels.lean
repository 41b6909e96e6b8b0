import CommandTree.Diagnostic.Label
import CommandTree.Proofs.Diagnostics.Placement
import Mathlib.Data.List.DropRight

/-!
# Labels fall on real text

A label is a stretch of the text that a diagnostic carries. Whatever span it is made for, it lies in
the text. For a span between characters of the text it covers whole characters: the part of the span
that is in the text, or one character where the span is empty. An empty span at the end of the text
labels the last character that is not blank, so only a text of blanks is left without anything to
show.

The diagnostic of a failed parse has only spans between characters of its text, which means that
each of its labels can be seen.
-/

set_option autoImplicit false

namespace CommandTree

/-- What is left of a text without the blanks at its end goes through its last character that is not
blank. -/
theorem Blank.exists_trimEnd (cs : List Char) :
    (∃ visible c blanks, cs = visible ++ c :: blanks ∧ isBlank c = false ∧
      (∀ b ∈ blanks, isBlank b = true) ∧ trimEnd cs = visible ++ [c]) ∨
    (∀ c ∈ cs, isBlank c = true) ∧ trimEnd cs = [] := by
  have htext : trimEnd cs ++ cs.rtakeWhile isBlank = cs := List.rdropWhile_append_rtakeWhile ..
  rcases List.eq_nil_or_concat' (trimEnd cs) with hnil | ⟨visible, c, hvisible⟩
  · right
    exact ⟨List.rdropWhile_eq_nil_iff.mp hnil, hnil⟩
  · left
    have hlast : ∀ hne : trimEnd cs ≠ [], ¬ isBlank ((trimEnd cs).getLast hne) = true :=
      fun hne => List.rdropWhile_last_not isBlank cs hne
    simp only [hvisible, List.getLast_append_singleton, ne_eq, List.append_eq_nil_iff,
      List.cons_ne_nil, and_false, not_false_eq_true, forall_true_left, Bool.not_eq_true] at hlast
    refine ⟨visible, c, cs.rtakeWhile isBlank, ?_, hlast, fun b hb => ?_, hvisible⟩
    · rw [hvisible] at htext
      simpa using htext.symm
    · exact List.mem_rtakeWhile_imp hb

/-! ## Stretches of a text -/

/-- The offset lies between two characters of the text or at one of its ends. -/
def OnBoundary (text : List Char) (offset : Nat) : Prop :=
  ∃ before behind, text = before ++ behind ∧ Bytes.count before = offset

/-- The stretch of so many bytes at an offset of the text consists of the characters `covered`. -/
def Covers (text : List Char) (offset length : Nat) (covered : List Char) : Prop :=
  ∃ front back, text = front ++ (covered ++ back) ∧ Bytes.count front = offset ∧
    Bytes.count covered = length

/-- A stretch that is covered by characters starts and ends on a boundary. -/
theorem Covers.onBoundary {text covered : List Char} {offset length : Nat}
    (h : Covers text offset length covered) :
    OnBoundary text offset ∧ OnBoundary text (offset + length) := by
  obtain ⟨front, back, rfl, rfl, rfl⟩ := h
  refine ⟨⟨front, covered ++ back, rfl, rfl⟩, front ++ covered, back, ?_, ?_⟩
  · rw [List.append_assoc]
  · rw [Bytes.count_append]

namespace Label

variable {span : Span} {text : List Char}

/-! ## Ranges -/

/-- The range of a span that covers some byte is the part of it in the text. -/
theorem range_of_stretch (h : span.start < span.stop) :
    range span text = (min span.start (Bytes.count text),
      min span.length (Bytes.count text - min span.start (Bytes.count text))) := by
  have hempty : span.isEmpty = false := by
    rw [Span.isEmpty, Span.length, beq_eq_false_iff_ne]
    omega
  rw [range, hempty]
  rfl

/-- A span that does not end behind its start is empty. -/
theorem isEmpty_of_le (h : span.stop ≤ span.start) : span.isEmpty = true := by
  rw [Span.isEmpty, Span.length, beq_iff_eq]
  omega

/-- An empty span in front of a character labels the character. -/
theorem range_of_point {before behind : List Char} {c : Char} (h : span.stop ≤ span.start)
    (hstart : span.start = Bytes.count before) :
    range span (before ++ c :: behind) = (Bytes.count before, c.utf8Size) := by
  have hmin : min span.start (Bytes.count (before ++ c :: behind)) = Bytes.count before := by
    rw [hstart, Bytes.count_append]
    omega
  simp only [range, isEmpty_of_le h, hmin, Bytes.cut?_count]
  rfl

/-- An empty span at the end of the text or behind it labels the last character that is not blank.
-/
theorem range_of_end (h : span.stop ≤ span.start) (hend : Bytes.count text ≤ span.start) :
    range span text = lastVisible text (Bytes.count text) := by
  have hmin : min span.start (Bytes.count text) = Bytes.count text := by omega
  have hcut := Bytes.cut?_count text []
  rw [List.append_nil] at hcut
  simp only [range, isEmpty_of_le h, hmin, hcut]
  rfl

/-- The last character that is not blank is labelled, or the text has blanks only. -/
theorem lastVisible_cases (text : List Char) (otherwise : Nat) :
    (∃ visible c blanks, text = visible ++ c :: blanks ∧ Blank.isBlank c = false ∧
      (∀ b ∈ blanks, Blank.isBlank b = true) ∧
      lastVisible text otherwise = (Bytes.count visible, c.utf8Size)) ∨
    (∀ c ∈ text, Blank.isBlank c = true) ∧ lastVisible text otherwise = (otherwise, 0) := by
  rcases Blank.exists_trimEnd text with
    ⟨visible, c, blanks, htext, hc, hblanks, htrim⟩ | ⟨hblanks, htrim⟩
  · left
    refine ⟨visible, c, blanks, htext, hc, hblanks, ?_⟩
    simp [lastVisible, htrim]
  · right
    refine ⟨hblanks, ?_⟩
    simp [lastVisible, htrim]

/-- The labelled stretch lies inside the text, whatever the span is. -/
theorem range_le (span : Span) (text : List Char) :
    (range span text).1 + (range span text).2 ≤ Bytes.count text := by
  by_cases h : span.start < span.stop
  · rw [range_of_stretch h]
    dsimp only
    omega
  have hempty : span.stop ≤ span.start := by omega
  by_cases hend : Bytes.count text ≤ span.start
  · rw [range_of_end hempty hend]
    rcases lastVisible_cases text (Bytes.count text) with
      ⟨visible, c, blanks, rfl, -, -, heq⟩ | ⟨-, heq⟩
    · rw [heq, Bytes.count_append, Bytes.count_cons]
      omega
    · rw [heq]
      exact Nat.le_refl _
  have hmin : min span.start (Bytes.count text) = span.start := by omega
  simp only [range, isEmpty_of_le hempty, hmin]
  cases hcut : Bytes.cut? text span.start with
  | none =>
    simp only [Bool.not_true, Bool.false_eq_true, if_false]
    omega
  | some parts =>
    obtain ⟨before, behind⟩ := parts
    obtain ⟨rfl, hcount⟩ := Bytes.cut?_eq_some hcut
    cases behind with
    | nil => simp [hcount] at hend
    | cons c behind =>
      simp only [Bool.not_true, Bool.false_eq_true, if_false, Bytes.count_append, Bytes.count_cons]
      omega

/-! ## What a range shows -/

/-- What the stretch at an offset of the text has to do with the span that it is labelled for. -/
structure Shows (span : Span) (text : List Char) (offset length : Nat) : Prop where
  /-- The stretch starts between characters. -/
  starts : OnBoundary text offset
  /-- It ends between characters. -/
  stops : OnBoundary text (offset + length)
  /-- For a span with some byte that starts in the text, it is the part in the text. -/
  of_stretch : span.start < span.stop → span.start < Bytes.count text →
    offset = span.start ∧ offset + length = min span.stop (Bytes.count text)
  /-- For an empty span in the text, it is the character that the span is in front of. -/
  of_point : span.stop ≤ span.start → span.start < Bytes.count text →
    offset = span.start ∧ ∃ c, Covers text offset length [c]
  /-- For an empty span at the end, it is the last character that is not blank, or is empty where
  all characters are blank. -/
  of_end : span.stop ≤ span.start → Bytes.count text ≤ span.start →
    (∃ visible c blanks, text = visible ++ c :: blanks ∧ Blank.isBlank c = false ∧
      (∀ b ∈ blanks, Blank.isBlank b = true) ∧ offset = Bytes.count visible ∧
      length = c.utf8Size) ∨
    (∀ c ∈ text, Blank.isBlank c = true) ∧ length = 0

/-- A character in the text is covered by as many bytes as it has. -/
theorem covers_char (before behind : List Char) (c : Char) :
    Covers (before ++ c :: behind) (Bytes.count before) c.utf8Size [c] :=
  ⟨before, behind, rfl, rfl, by simp⟩

/-- A nonempty span is labelled by its own stretch, cut off at the end of the text. -/
theorem shows_of_stretch (h : span.start < span.stop)
    (hstart : OnBoundary text (min span.start (Bytes.count text)))
    (hstop : OnBoundary text (min span.stop (Bytes.count text))) :
    Shows span text (range span text).1 (range span text).2 := by
  rw [range_of_stretch h]
  have hsum : min span.start (Bytes.count text) +
      min span.length (Bytes.count text - min span.start (Bytes.count text)) =
        min span.stop (Bytes.count text) := by
    rw [Span.length]
    omega
  refine ⟨hstart, ?_, fun _ hinside => ⟨?_, hsum⟩, fun hempty => ?_, fun hempty => ?_⟩
  · rw [hsum]
    exact hstop
  · exact Nat.min_eq_left (Nat.le_of_lt hinside)
  · omega
  · omega

/-- An empty span in front of a character is labelled by that character. -/
theorem shows_of_point (h : span.stop ≤ span.start) (hinside : span.start < Bytes.count text)
    (hstart : OnBoundary text span.start) :
    Shows span text (range span text).1 (range span text).2 := by
  obtain ⟨before, behind, rfl, hcount⟩ := hstart
  cases behind with
  | nil =>
    rw [List.append_nil] at hinside
    omega
  | cons c behind =>
    rw [range_of_point h hcount.symm]
    have hcovers := covers_char before behind c
    obtain ⟨hstarts, hstops⟩ := hcovers.onBoundary
    refine ⟨hstarts, hstops, fun hstretch => ?_, fun _ _ => ⟨hcount, c, hcovers⟩,
      fun _ hend => ?_⟩ <;> omega

/-- An empty span at the end is labelled by the last character that is not blank, if there is
one. -/
theorem shows_of_end (h : span.stop ≤ span.start) (hend : Bytes.count text ≤ span.start) :
    Shows span text (range span text).1 (range span text).2 := by
  rw [range_of_end h hend]
  rcases lastVisible_cases text (Bytes.count text) with
    ⟨visible, c, blanks, rfl, hc, hblanks, heq⟩ | ⟨hblanks, heq⟩
  · rw [heq]
    obtain ⟨hstarts, hstops⟩ := (covers_char visible blanks c).onBoundary
    refine ⟨hstarts, hstops, fun hstretch => ?_, fun _ hinside => ?_, fun _ _ => ?_⟩
    · omega
    · omega
    · exact Or.inl ⟨visible, c, blanks, rfl, hc, hblanks, rfl, rfl⟩
  · rw [heq]
    have hall : OnBoundary text (Bytes.count text) := ⟨text, [], (List.append_nil _).symm, rfl⟩
    refine ⟨hall, hall, fun hstretch => ?_, fun _ hinside => ?_, fun _ _ => Or.inr ⟨hblanks, rfl⟩⟩
    · omega
    · omega

/-- Every span on boundaries of the text is labelled by what it has to show. -/
theorem shows_range (hstart : OnBoundary text (min span.start (Bytes.count text)))
    (hstop : OnBoundary text (min span.stop (Bytes.count text))) :
    Shows span text (range span text).1 (range span text).2 := by
  by_cases h : span.start < span.stop
  · exact shows_of_stretch h hstart hstop
  have hempty : span.stop ≤ span.start := by omega
  by_cases hinside : span.start < Bytes.count text
  · rw [Nat.min_eq_left (Nat.le_of_lt hinside)] at hstart
    exact shows_of_point hempty hinside hstart
  · exact shows_of_end hempty (by omega)

/-! ## Labels of failed parses -/

/-- The label of a stretch of a text that is not all blank shows some character. -/
theorem exists_covers_of_spanAt (front slice back : List Char)
    (hvisible : ∃ c ∈ front ++ slice ++ back, Blank.isBlank c = false) :
    let text := front ++ slice ++ back
    let span := Lexis.spanAt front slice
    ∃ covered, covered ≠ [] ∧ Covers text (range span text).1 (range span text).2 covered := by
  intro text span
  cases slice with
  | cons c slice =>
    have hpos := c.utf8Size_pos
    have hstretch : span.start < span.stop := by
      simp only [span, Lexis.spanAt, Bytes.count_append, Bytes.count_cons]
      omega
    refine ⟨c :: slice, List.cons_ne_nil _ _, front, back, by simp [text], ?_, ?_⟩
    · rw [range_of_stretch hstretch]
      simp only [span, text, Lexis.spanAt, Bytes.count_append]
      omega
    · rw [range_of_stretch hstretch, Span.length]
      simp only [span, text, Lexis.spanAt, Bytes.count_append]
      omega
  | nil =>
    have hempty : span.stop ≤ span.start := by simp [span, Lexis.spanAt]
    cases back with
    | cons c back =>
      have htext : text = front ++ c :: back := by simp [text]
      rw [htext, range_of_point hempty rfl]
      exact ⟨[c], List.cons_ne_nil _ _, covers_char front back c⟩
    | nil =>
      have hend : Bytes.count text ≤ span.start := by simp [text, span, Lexis.spanAt]
      rw [range_of_end hempty hend]
      rcases lastVisible_cases text (Bytes.count text) with
        ⟨visible, c, blanks, htext, -, -, heq⟩ | ⟨hblanks, -⟩
      · rw [heq, htext]
        exact ⟨[c], List.cons_ne_nil _ _, covers_char visible blanks c⟩
      · obtain ⟨c, hmem, hc⟩ := hvisible
        rw [hblanks c hmem] at hc
        contradiction

end Label

/-- A diagnostic with a place and a source has a label for that place and one for each other
place. -/
theorem Diagnostic.labels?_of_span {d : Diagnostic} {source : NamedText} {span : Span}
    (hsource : d.source = some source) (hspan : d.span = some span) :
    d.labels? = some (Label.ofSpan span source.text.toList d.message ::
      d.related.map fun place => Label.ofSpan place.span source.text.toList place.label) := by
  rw [labels?, hsource, hspan]
  rfl

namespace Tree

/-- The spans of the diagnostic of a failed parse are stretches of the text that it carries. -/
theorem exists_spans_of_parse {registry : Registry} {settings : Settings} {source : Source}
    {d : Diagnostic} (hready : registry.ReadyMade)
    (h : parse registry settings source = .error d) :
    ∃ text span, d.source = some ⟨settings.sourceName, text⟩ ∧ d.span = some span ∧
      ∀ s ∈ span :: d.related.map RelatedLabel.span, ∃ front slice back,
        text.toList = front ++ slice ++ back ∧ s = Lexis.spanAt front slice := by
  obtain ⟨d', text, -, rfl, hpoints, -⟩ := exists_pointsInto_of_parse hready h
  obtain ⟨problem, front, slice, back, rfl, rfl, hrelated⟩ := hpoints
  refine ⟨_, _, rfl, rfl, List.forall_mem_cons.mpr ⟨⟨front, slice, back, ?_, rfl⟩, fun s hs => ?_⟩⟩
  · rw [String.toList_ofList]
  · obtain ⟨label, hlabel, rfl⟩ := List.mem_map.mp hs
    obtain ⟨front', slice', back', rfl, -, hspan⟩ := hrelated label hlabel
    refine ⟨front', slice', back' ++ slice ++ back, ?_, hspan⟩
    rw [String.toList_ofList]
    simp

/-- The range that a span labels lies in the text. Where the ends of the span, as far as they are in
the text, stand between characters, the range shows what there is to see of the span. The diagnostic
of a failed parse has a label for its own place and for each other place, and each of them shows
some character of the attached text, unless this has blanks only. -/
theorem labels_fall_on_text :
    (∀ (span : Span) (text : List Char),
      (Label.range span text).1 + (Label.range span text).2 ≤ Bytes.count text) ∧
    (∀ (span : Span) (text : List Char),
      OnBoundary text (min span.start (Bytes.count text)) →
      OnBoundary text (min span.stop (Bytes.count text)) →
      Label.Shows span text (Label.range span text).1 (Label.range span text).2) ∧
    ∀ (registry : Registry) (settings : Settings) (source : Source) (d : Diagnostic),
      registry.ReadyMade → parse registry settings source = .error d →
      ∃ text labels, d.source = some ⟨settings.sourceName, text⟩ ∧ d.labels? = some labels ∧
        labels.map Label.text = d.message :: d.related.map RelatedLabel.label ∧
        ((∃ c ∈ text.toList, Blank.isBlank c = false) →
          ∀ label ∈ labels, ∃ covered, covered ≠ [] ∧
            Covers text.toList label.offset label.length covered) := by
  refine ⟨Label.range_le, fun span text => Label.shows_range, ?_⟩
  intro registry settings source d hready hparse
  obtain ⟨text, span, hsource, hspan, hspans⟩ := exists_spans_of_parse hready hparse
  refine ⟨text, _, hsource, Diagnostic.labels?_of_span hsource hspan, ?_, ?_⟩
  · rw [List.map_cons, List.map_map]
    rfl
  · intro hvisible label hlabel
    have hplace : ∃ s ∈ span :: d.related.map RelatedLabel.span,
        label.offset = (Label.range s text.toList).1 ∧
          label.length = (Label.range s text.toList).2 := by
      rcases List.mem_cons.mp hlabel with rfl | hlabel
      · exact ⟨span, List.mem_cons_self, rfl, rfl⟩
      · obtain ⟨place, hplace, rfl⟩ := List.mem_map.mp hlabel
        exact ⟨place.span, List.mem_cons_of_mem _ (List.mem_map_of_mem hplace), rfl, rfl⟩
    obtain ⟨s, hs, hoffset, hlength⟩ := hplace
    obtain ⟨front, slice, back, htext, rfl⟩ := hspans s hs
    rw [hoffset, hlength, htext]
    rw [htext] at hvisible
    exact Label.exists_covers_of_spanAt front slice back hvisible

/-- A label of two bytes inside a text, and the labels of a scope that is open at the end of a text.
The one at the end of the text moves back over the blanks. -/
theorem labels_of_unclosed_scope :
    Label.Shows ⟨1, 1, 1⟩ "aéb".toList 1 2 ∧
    ∃ d labels, parse ⟨[.brigadier]⟩ .standard (.ofString "r \x7b\n  \"é\";\n \n") = .error d ∧
      d.labels? = some labels ∧
      labels.map (fun label => (label.offset, label.length)) = [(10, 1), (2, 1)] ∧
      ∀ label ∈ labels, ∃ covered, covered ≠ [] ∧
        Covers "r \x7b\n  \"é\";\n \n".toList label.offset label.length covered := by
  obtain ⟨-, hshows, hparses⟩ := labels_fall_on_text
  refine ⟨?_, ?_⟩
  · have hstart : OnBoundary "aéb".toList 1 := ⟨['a'], ['é', 'b'], by decide, by decide⟩
    have hmin : min 1 (Bytes.count "aéb".toList) = 1 := by decide
    have hrange : Label.range ⟨1, 1, 1⟩ "aéb".toList = (1, 2) := by decide
    have hpoint := hshows ⟨1, 1, 1⟩ "aéb".toList (by rwa [hmin]) (by rwa [hmin])
    rwa [hrange] at hpoint
  · have hready : Registry.ReadyMade ⟨[.brigadier]⟩ := by
      simp [Registry.ReadyMade, Resolver.isReadyMade]
    have hrefused : (refusal? ⟨[.brigadier]⟩ .standard
        (.ofString "r \x7b\n  \"é\";\n \n")).map (fun d => (d.source.map NamedText.text,
          d.labels?.map (List.map fun label => (label.offset, label.length)))) =
        some (some "r \x7b\n  \"é\";\n \n", some [(10, 1), (2, 1)]) := by
      decide +kernel
    obtain ⟨d, hparse, hd⟩ := exists_of_refusal? hrefused
    obtain ⟨text, labels, hsource, hlabels, -, hcovers⟩ := hparses _ _ _ d hready hparse
    rw [hsource, hlabels] at hd
    obtain ⟨htext, hranges⟩ := Prod.mk.inj hd
    obtain rfl := Option.some.inj htext
    refine ⟨d, labels, hparse, hlabels, Option.some.inj hranges, hcovers ⟨'r', ?_, by decide⟩⟩
    decide

end Tree

end CommandTree
