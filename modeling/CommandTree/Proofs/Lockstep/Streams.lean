import CommandTree.Proofs.Lockstep.Readers
import CommandTree.Proofs.Stream.Accepting

/-!
# Token streams in step

Two streams are in step if their readers are and the same token, if any, was looked at. Taking a
token and looking at one keep them in step. What the two do is compared by `SameRun`. Both give the
same result and are in step again; or both fail with the same diagnostic, which points into the text
that was loaded; or the first one fails at the place where its source breaks. Sequenced readings are
compared step by step.

A diagnostic points at the token that was just found or at a place that was kept, such as the place
of a name. The place of a token is described by the text in front of it. A place that was kept is a
nonempty stretch of a text, which it remains when the text grows.
-/

set_option autoImplicit false

namespace CommandTree

/-! ## Places in the loaded text -/

/-- The span is that of a nonempty stretch of the text. -/
def Span.IsIn (span : Span) (text : List Char) : Prop :=
  ∃ front slice back, text = front ++ slice ++ back ∧ slice ≠ [] ∧ span = Lexis.spanAt front slice

/-- The diagnostic is at a stretch of the text, and the other places that it points at are in front
of that stretch. -/
def Diagnostic.PointsInto (d : Diagnostic) (text : List Char) : Prop :=
  ∃ problem front slice back, d = .atSpan problem (Lexis.spanAt front slice) ∧
    text = front ++ slice ++ back ∧ ∀ label ∈ problem.related, label.span.IsIn front

/-- The token is the next one behind `before`, and `after` is the text through its end. Only the end
of input takes no character. -/
def Located.IsNext (t : Located Token) (before after : List Char) : Prop :=
  ∃ gap slice, after = before ++ gap ++ slice ∧ t.span = Lexis.spanAt (before ++ gap) slice ∧
    (t.value ≠ .endOfInput → slice ≠ [])

/-- A stretch of a text is one of any longer text. -/
theorem Span.IsIn.mono {span : Span} {text text' : List Char} (h : span.IsIn text)
    (hle : text <+: text') : span.IsIn text' := by
  obtain ⟨front, slice, back, rfl, hne, hspan⟩ := h
  obtain ⟨more, rfl⟩ := hle
  exact ⟨front, slice, back ++ more, by simp, hne, hspan⟩

/-- A kept place is one to point at, as long as nothing else is pointed at. -/
theorem Span.IsIn.pointsInto {span : Span} {text : List Char} {problem : Problem}
    (h : span.IsIn text) (hrelated : problem.related = []) :
    (Diagnostic.atSpan problem span).PointsInto text := by
  obtain ⟨front, slice, back, rfl, -, rfl⟩ := h
  refine ⟨problem, front, slice, back, rfl, rfl, ?_⟩
  rw [hrelated]
  nofun

namespace Located.IsNext

variable {t : Located Token} {before after text : List Char}

/-- The text through the end of a token starts with the text before it. -/
theorem prefix_after (h : t.IsNext before after) : before <+: after := by
  obtain ⟨gap, slice, rfl, -⟩ := h
  exact ⟨gap ++ slice, (List.append_assoc ..).symm⟩

/-- A token other than the end of input is a stretch of the text. -/
theorem isIn (h : t.IsNext before after) (ht : t.value ≠ .endOfInput) : t.span.IsIn after := by
  obtain ⟨gap, slice, rfl, hspan, hne⟩ := h
  exact ⟨before ++ gap, slice, [], by simp, hne ht, hspan⟩

/-- A problem with a token points into the text if the other places it keeps are in front of the
token. -/
theorem pointsInto {problem : Problem} (h : t.IsNext before after) (hle : after <+: text)
    (hrelated : ∀ label ∈ problem.related, label.span.IsIn before) :
    (Diagnostic.atSpan problem t.span).PointsInto text := by
  obtain ⟨gap, slice, rfl, hspan, -⟩ := h
  obtain ⟨more, rfl⟩ := hle
  rw [hspan]
  refine ⟨problem, before ++ gap, slice, more, rfl, rfl, fun label hlabel => ?_⟩
  exact (hrelated label hlabel).mono (List.prefix_append ..)

end Located.IsNext

namespace Reader

/-! ## Tokens of readers -/

/-- Two readers that were in step behind `before` found the same token there, or met the same
character that starts none, or the first one failed where its source breaks. -/
def SameToken (source : Source) (before : List Char)
    (x x' : Except Diagnostic (Located Token) × Reader) : Prop :=
  (∃ t slice q q', x = (.ok t, q) ∧ x' = (.ok t, q') ∧ q.InStep source (before ++ slice) q' ∧
    t.span = Lexis.spanAt before slice ∧ (t.value ≠ .endOfInput → slice ≠ [])) ∨
  (∃ d q q', x = (.error d, q) ∧ x' = (.error d, q') ∧ q.InStep source before q' ∧
    d.PointsInto q.loadedText) ∨
  ∃ e q, x = (.error (.atSpan (.unreadable e) (Lexis.spanAt q.loadedText [])), q) ∧
    source.Breaks q.loadedText e

variable {source : Source} {before : List Char} {r r' : Reader}

/-- Readers that read the same characters behind a first one find the same word. -/
theorem InStep.sameToken_locateWord {c : Char} {x x' : Except ReadFailure (List Char) × Reader}
    (h : r.InStep source before r') (hx : KeepsStep source (before ++ [c]) x x') :
    SameToken source before (r.locateWord x) (r'.locateWord x') := by
  obtain ⟨cs, slice, q, q', rfl, rfl, hq⟩ | ⟨e, q, rfl, hq⟩ := hx
  · obtain ⟨hoffset, hline⟩ := h.same_place
    rw [List.append_assoc, List.singleton_append] at hq
    have hspan : (⟨r'.offset, q'.offset, r'.line⟩ : Span) = ⟨r.offset, q.offset, r.line⟩ := by
      rw [hoffset, hline, hq.same_place.1]
    refine .inl ⟨⟨.word (String.ofList cs), ⟨r.offset, q.offset, r.line⟩⟩, c :: slice, q, q', rfl,
      ?_, hq, h.span_eq hq, fun _ => by simp⟩
    rw [locateWord, hspan]
  · refine .inr (.inr ⟨e, q, ?_, hq.breaks⟩)
    rw [locateWord, hq.here_eq]

/-- Readers that are in step find the same token of one character. -/
theorem InStep.sameToken_readStructural {c : Char} {rest : List Char} (token : Token)
    (h : r.InStep source before r') (hp : r.pending = c :: rest) :
    SameToken source before (r.readStructural token) (r'.readStructural token) := by
  obtain ⟨hoffset, hline⟩ := h.same_place
  have hadvance := h.advance hp
  have hspan : (⟨r'.offset, r'.advance.offset, r'.line⟩ : Span) =
      ⟨r.offset, r.advance.offset, r.line⟩ := by
    rw [hoffset, hline, hadvance.same_place.1]
  refine .inl ⟨⟨token, ⟨r.offset, r.advance.offset, r.line⟩⟩, [c], r.advance, r'.advance, rfl, ?_,
    hadvance, h.span_eq hadvance, fun _ => by simp⟩
  rw [readStructural, hspan]

/-- Readers that are in step behind the trivia find the same token. -/
theorem InStep.sameToken_readToken (h : r.InStep source before r')
    (hcomment : Trivia.startsComment r.pending = false) :
    SameToken source before r.readToken r'.readToken := by
  have hpending := h.pending_eq
  obtain ⟨hoffset, hline⟩ := h.same_place
  unfold readToken
  cases hp : r.pending with
  | nil =>
    rw [hpending.trans hp]
    have hhere : r'.here = r.here := by rw [here, here, hoffset, hline]
    rw [hhere]
    refine .inl ⟨_, [], r, r', rfl, rfl, by rwa [List.append_nil], ?_, fun hne => absurd rfl hne⟩
    exact h.span_eq (by rwa [List.append_nil])
  | cons c rest =>
    rw [hpending.trans hp]
    dsimp only
    by_cases hopen : c = '{'
    · rw [if_pos hopen, if_pos hopen]
      exact h.sameToken_readStructural _ hp
    rw [if_neg hopen, if_neg hopen]
    by_cases hclose : c = '}'
    · rw [if_pos hclose, if_pos hclose]
      exact h.sameToken_readStructural _ hp
    rw [if_neg hclose, if_neg hclose]
    by_cases hsemi : c = ';'
    · rw [if_pos hsemi, if_pos hsemi]
      exact h.sameToken_readStructural _ hp
    rw [if_neg hsemi, if_neg hsemi]
    by_cases hquote : c = '"'
    · rw [if_pos hquote, if_pos hquote]
      exact h.sameToken_locateWord (Quoted.keepsStep_readRest [] (h.advance hp))
    rw [if_neg hquote, if_neg hquote]
    by_cases hword : Word.isWordChar c
    · have hc : Word.continues (c :: rest) = true := by
        rw [hp] at hcomment
        simp [Word.continues, hword, hcomment]
      rw [if_pos hword, if_pos hword, Word.read_of_continues hp hc,
        Word.read_of_continues (hpending.trans hp) hc]
      exact h.sameToken_locateWord (Word.keepsStep_readRest [c] (h.advance hp))
    rw [if_neg hword, if_neg hword, hoffset, hline]
    have hspan : (⟨r.offset, r.offset + c.utf8Size, r.line⟩ : Span) =
        Lexis.spanAt before [c] := by
      rw [h.offset_eq, h.line_eq, Lexis.spanAt]
      simp
    refine .inr (.inl ⟨_, r, r', rfl, rfl, h, .unknownCharacter c, before, [c], rest, ?_, ?_, ?_⟩)
    · rw [hspan]
    · rw [h.text_eq, hp]
      simp
    · intro label hlabel
      contradiction

end Reader

namespace TokenStream

/-- Two streams from which the same text was taken, the first from `source` and the second from a
source that agrees with it. -/
structure InStep (source : Source) (before : List Char) (s s' : TokenStream) : Prop where
  /-- The same token was looked at. -/
  peeked_eq : s'.peeked = s.peeked
  /-- The readers are in step behind the text that was taken, or behind the token that was looked
  at. -/
  readers : ∃ after, s.reader.InStep source after s'.reader ∧
    (s.peeked = none → after = before) ∧ ∀ t, s.peeked = some t → t.IsNext before after

/-- Two runs that started in step behind `before` gave the same result, for which `P` holds of the
text that was taken; or the same diagnostic, which points into the text that was loaded; or the
first one failed where its source breaks. -/
def SameRun {α : Type} (source : Source) (before : List Char) (P : List Char → α → Prop)
    (x x' : Except Diagnostic α × TokenStream) : Prop :=
  (∃ a after q q', x = (.ok a, q) ∧ x' = (.ok a, q') ∧ before <+: after ∧
    q.InStep source after q' ∧ P after a) ∨
  (∃ d q q', x = (.error d, q) ∧ x' = (.error d, q') ∧
    q'.reader.loadedText = q.reader.loadedText ∧
    (∃ ahead, source.Loads q.reader.loadedText ahead) ∧ d.PointsInto q.reader.loadedText) ∨
  ∃ e q, x = (.error (.atSpan (.unreadable e) (Lexis.spanAt q.reader.loadedText [])), q) ∧
    source.Breaks q.reader.loadedText e

variable {α β : Type} {source : Source} {before : List Char} {s s' : TokenStream}
  {P Q : List Char → α → Prop}

/-- Two streams of sources that agree are in step. -/
theorem inStep_ofSource {source other : Source} (h : source.Agrees other) :
    (ofSource source).InStep source [] (ofSource other) :=
  ⟨rfl, [], Reader.inStep_ofSource h, fun _ => rfl, nofun⟩

namespace InStep

/-- The same text was loaded for both streams. -/
theorem loadedText_eq (h : s.InStep source before s') :
    s'.reader.loadedText = s.reader.loadedText := by
  obtain ⟨-, after, hreader, -⟩ := h
  rw [hreader.same]
  rfl

/-- What was loaded are the first lines of the source. -/
theorem loads (h : s.InStep source before s') :
    ∃ ahead, source.Loads s.reader.loadedText ahead := by
  obtain ⟨-, after, hreader, -⟩ := h
  exact ⟨_, hreader.loads⟩

/-- What was taken is in front of what was loaded. -/
theorem prefix_loadedText (h : s.InStep source before s') : before <+: s.reader.loadedText := by
  obtain ⟨-, after, hreader, hnone, hsome⟩ := h
  have hafter : after <+: s.reader.loadedText := ⟨_, hreader.text_eq.symm⟩
  cases hp : s.peeked with
  | none => exact hnone hp ▸ hafter
  | some t => exact (hsome t hp).prefix_after.trans hafter

/-- A diagnostic may point at the token that was looked at. -/
theorem pointsInto_of_peeked {t : Located Token} {problem : Problem}
    (h : s.InStep source before s') (ht : s.peeked = some t)
    (hrelated : ∀ label ∈ problem.related, label.span.IsIn before) :
    (Diagnostic.atSpan problem t.span).PointsInto s.reader.loadedText := by
  obtain ⟨-, after, hreader, -, hsome⟩ := h
  exact (hsome t ht).pointsInto ⟨_, hreader.text_eq.symm⟩ hrelated

end InStep

namespace SameRun

/-- Returning the same in step is the same run. -/
theorem ok {a : α} (h : s.InStep source before s') (ha : P before a) :
    SameRun source before P (.ok a, s) (.ok a, s') :=
  .inl ⟨a, before, s, s', rfl, rfl, List.prefix_rfl, h, ha⟩

/-- Failing in the same way in step is the same run, if the diagnostic points into the text that was
loaded. -/
theorem fail {d : Diagnostic} (h : s.InStep source before s')
    (hd : d.PointsInto s.reader.loadedText) :
    SameRun source before P (.error d, s) (.error d, s') :=
  .inr (.inl ⟨d, s, s', rfl, rfl, h.loadedText_eq, h.loads, hd⟩)

/-- A failure at a place that was kept. -/
theorem fail_at {problem : Problem} {span : Span} (h : s.InStep source before s')
    (hspan : span.IsIn before) (hrelated : problem.related = []) :
    SameRun source before P (Reading.fail (.atSpan problem span) s)
      (Reading.fail (.atSpan problem span) s') :=
  fail h ((hspan.mono h.prefix_loadedText).pointsInto hrelated)

/-- A failure at the token that was taken last. -/
theorem fail_next {problem : Problem} {t : Located Token} {after : List Char}
    (h : s.InStep source after s') (ht : t.IsNext before after) (hrelated : problem.related = []) :
    SameRun source after P (Reading.fail (.atSpan problem t.span) s)
      (Reading.fail (.atSpan problem t.span) s') := by
  refine fail h (ht.pointsInto h.prefix_loadedText ?_)
  rw [hrelated]
  nofun

/-- A failure at the token that was looked at. -/
theorem fail_peeked {problem : Problem} {t : Located Token} (h : s.InStep source before s')
    (ht : s.peeked = some t) (hrelated : ∀ label ∈ problem.related, label.span.IsIn before) :
    SameRun source before P (Reading.fail (.atSpan problem t.span) s)
      (Reading.fail (.atSpan problem t.span) s') :=
  fail h (h.pointsInto_of_peeked ht hrelated)

/-- What is the same from further on is the same from before. -/
theorem behind {x x' : Except Diagnostic α × TokenStream} {after : List Char}
    (h : SameRun source after P x x') (hle : before <+: after) :
    SameRun source before P x x' := by
  obtain ⟨a, after', q, q', hx, hx', hle', hq, ha⟩ | hfails := h
  · exact .inl ⟨a, after', q, q', hx, hx', hle.trans hle', hq, ha⟩
  · exact .inr hfails

/-- Sequenced readings do the same if the first ones do and the second ones do behind them. -/
theorem bind {m : Reading Diagnostic α} {f : α → Reading Diagnostic β}
    {R : List Char → β → Prop} (hm : SameRun source before P (m s) (m s'))
    (hf : ∀ a after q q', m s = (.ok a, q) → before <+: after → q.InStep source after q' →
      P after a → SameRun source after R (f a q) (f a q')) :
    SameRun source before R ((m >>= f) s) ((m >>= f) s') := by
  obtain ⟨a, after, q, q', hx, hx', hle, hq, ha⟩ | ⟨d, q, q', hx, hx', hfails⟩ |
    ⟨e, q, hx, hq⟩ := hm
  · rw [Reading.bind_of_ok hx, Reading.bind_of_ok hx']
    exact (hf a after q q' hx hle hq ha).behind hle
  · rw [Reading.bind_of_error hx, Reading.bind_of_error hx']
    exact .inr (.inl ⟨d, q, q', rfl, rfl, hfails⟩)
  · rw [Reading.bind_of_error hx]
    exact .inr (.inr ⟨e, q, rfl, hq⟩)

end SameRun

/-! ## Taking tokens and looking at them -/

/-- Scanning gives the same token in step. -/
theorem sameRun_scan (h : s.InStep source before s') (hnone : s.peeked = none) :
    SameRun source before (fun after t => t.IsNext before after) s.scan s'.scan := by
  obtain ⟨hpeeked, after, hreader, hafter, -⟩ := h
  obtain rfl : after = before := hafter hnone
  unfold scan
  obtain ⟨_, gap, q, q', hskip, hskip', hq⟩ | ⟨e, q, hskip, hq⟩ := Trivia.keepsStep_skip hreader
  · rw [hskip, hskip']
    dsimp only
    obtain ⟨t, slice, p, p', hx, hx', hp, hspan, hne⟩ | ⟨d, p, p', hx, hx', hp, hd⟩ |
      ⟨e, p, hx, hp⟩ := hq.sameToken_readToken (Trivia.startsComment_of_skip hskip)
    · rw [hx, hx']
      refine .inl ⟨t, after ++ gap ++ slice, _, _, rfl, rfl, ⟨gap ++ slice, by simp⟩, ?_,
        gap, slice, rfl, hspan, hne⟩
      exact ⟨hpeeked, _, hp, fun _ => rfl, fun t ht => by simp [hnone] at ht⟩
    · rw [hx, hx']
      refine .inr (.inl ⟨d, _, _, rfl, rfl, ?_, ⟨_, hp.loads⟩, hd⟩)
      show p'.loadedText = p.loadedText
      rw [hp.same]
      rfl
    · rw [hx]
      exact .inr (.inr ⟨e, { s with reader := p, line := q.line }, rfl, hp⟩)
  · rw [hskip]
    refine .inr (.inr ⟨e, { s with reader := q }, ?_, hq.breaks⟩)
    dsimp only
    rw [hq.here_eq]

/-- Taking a token gives the same one in step. -/
theorem sameRun_next (h : s.InStep source before s') :
    SameRun source before (fun after t => t.IsNext before after) s.next s'.next := by
  unfold next
  rw [h.peeked_eq]
  cases hp : s.peeked with
  | none => exact sameRun_scan h hp
  | some t =>
    -- the readers are behind the token already, and now the streams are as well
    obtain ⟨-, after, hreader, -, hsome⟩ := h
    have hnext := hsome t hp
    exact .inl ⟨t, after, _, _, rfl, rfl, hnext.prefix_after,
      ⟨rfl, after, hreader, fun _ => rfl, nofun⟩, hnext⟩

/-- A look takes no text. -/
theorem sameRun_peek (h : s.InStep source before s') :
    SameRun source before (fun after _ => after = before) s.peek s'.peek := by
  unfold peek
  rw [h.peeked_eq]
  cases hp : s.peeked with
  | some t => exact .ok h rfl
  | none =>
    obtain ⟨t, after, q, q', hx, hx', hle, hq, hnext⟩ | ⟨d, q, q', hx, hx', hfails⟩ |
      ⟨e, q, hx, hq⟩ := sameRun_scan h hp
    · dsimp only
      rw [hx, hx']
      have hnone : q.peeked = none := by
        have := peeked_scan s
        rwa [hx, hp] at this
      obtain ⟨-, after', hreader, hafter, -⟩ := hq
      obtain rfl : after' = after := hafter hnone
      refine .inl ⟨t, before, _, _, rfl, rfl, List.prefix_rfl,
        ⟨rfl, after', hreader, nofun, ?_⟩, rfl⟩
      intro t' ht'
      obtain rfl : t = t' := Option.some.inj ht'
      exact hnext
    · dsimp only
      rw [hx, hx']
      exact .inr (.inl ⟨d, q, q', rfl, rfl, hfails⟩)
    · dsimp only
      rw [hx]
      exact .inr (.inr ⟨e, q, rfl, hq⟩)

/-- A word that is taken is a stretch of the text that was taken. -/
theorem sameRun_nextWord? (h : s.InStep source before s') :
    SameRun source before (fun after word? => ∀ word, word? = some word → word.span.IsIn after)
      (Reading.nextWord? s) (Reading.nextWord? s') := by
  rw [Reading.nextWord?_eq]
  refine (sameRun_peek h).bind fun t after q q' hpeek _ hq _ => ?_
  obtain ⟨value, span⟩ := t
  cases value with
  | word text =>
    refine (sameRun_next hq).bind fun t' after' p p' hnext _ hp ht' => ?_
    have hsame := next_of_peeked (peeked_of_peek hpeek)
    obtain rfl : ⟨.word text, span⟩ = t' :=
      Except.ok.inj (Prod.mk.inj (hsame.symm.trans hnext)).1
    refine .ok hp fun word hword => ?_
    obtain rfl := Option.some.inj hword
    exact ht'.isIn (by simp)
  | _ => exact .ok hq nofun

end TokenStream

end CommandTree
