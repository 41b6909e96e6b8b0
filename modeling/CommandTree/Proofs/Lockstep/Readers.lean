import CommandTree.Proofs.Lexis.Scanning
import CommandTree.Proofs.Source.Damage

/-!
# Readers in step

Two readers are in step if they stand at the same place of sources that agree. They then do the
same, until the first one comes to the place where its source breaks. `Reader.InStep` also says
where in the text that was loaded the place is, so a reader that is in step with itself is a reader
of which we know where it stands.

Each operation keeps two readers in step or fails at the break. The loops are followed by their own
measure, the size of what is left for the first reader.
-/

set_option autoImplicit false

namespace CommandTree

namespace Reader

/-- Two readers stand behind the same text, the first in `source` and the second in a source that
agrees with it. -/
structure InStep (source : Source) (before : List Char) (r r' : Reader) : Prop where
  /-- The lines that were loaded are the first lines of the source. -/
  loads : source.Loads r.loadedText r.ahead
  /-- What was loaded is in front of the reader or pending. -/
  text_eq : r.loadedText = before ++ r.pending
  /-- The offset counts the bytes in front. -/
  offset_eq : r.offset = Bytes.count before
  /-- The line counts the newlines in front. -/
  line_eq : r.line = 1 + before.count '\n'
  /-- The readers differ in what is ahead at most. -/
  same : r' = { r with ahead := r'.ahead }
  /-- What is ahead agrees. -/
  agrees : r.ahead.Agrees r'.ahead

/-- The reader failed where the source breaks, and stands there. -/
structure Broken (source : Source) (e : ReadFailure) (r : Reader) : Prop where
  /-- All text in front of the break was loaded. -/
  breaks : source.Breaks r.loadedText e
  /-- The reader stands behind that text. -/
  here_eq : r.here = Lexis.spanAt r.loadedText []

/-- Two readers that were in step behind `before` did the same and are in step again, or the first
one failed where its source breaks. -/
def KeepsStep {α : Type} (source : Source) (before : List Char)
    (x x' : Except ReadFailure α × Reader) : Prop :=
  (∃ a slice q q', x = (.ok a, q) ∧ x' = (.ok a, q') ∧ q.InStep source (before ++ slice) q') ∨
    ∃ e q, x = (.error e, q) ∧ q.Broken source e

variable {α : Type} {source : Source} {before : List Char} {r r' : Reader}

/-- Two readers at the start of sources that agree are in step. -/
theorem inStep_ofSource {source other : Source} (h : source.Agrees other) :
    (ofSource source).InStep source [] (ofSource other) :=
  ⟨.nil source, rfl, rfl, rfl, rfl, h⟩

namespace KeepsStep

/-- Readers that are in step behind a further stretch have kept in step. -/
theorem ok {a : α} {q q' : Reader} (slice : List Char)
    (h : q.InStep source (before ++ slice) q') : KeepsStep source before (.ok a, q) (.ok a, q') :=
  .inl ⟨a, slice, q, q', rfl, rfl, h⟩

/-- Readers that are in step where they were have kept in step. -/
theorem here {a : α} {q q' : Reader} (h : q.InStep source before q') :
    KeepsStep source before (.ok a, q) (.ok a, q') :=
  .ok [] (by rwa [List.append_nil])

/-- Where the first reader failed at the break, nothing is asked of the second one. -/
theorem broken {x' : Except ReadFailure α × Reader} {e : ReadFailure} {q : Reader}
    (h : q.Broken source e) : KeepsStep source before (.error e, q) x' :=
  .inr ⟨e, q, rfl, h⟩

/-- Being in step further on is being in step. -/
theorem behind {x x' : Except ReadFailure α × Reader} {slice : List Char}
    (h : KeepsStep source (before ++ slice) x x') : KeepsStep source before x x' := by
  obtain ⟨a, slice', q, q', rfl, rfl, hq⟩ | ⟨e, q, rfl, hq⟩ := h
  · exact .ok (slice ++ slice') (by rwa [← List.append_assoc])
  · exact .broken hq

end KeepsStep

namespace InStep

/-- The same is pending for both readers. -/
theorem pending_eq (h : r.InStep source before r') : r'.pending = r.pending := by
  rw [h.same]

/-- Where one source goes on with a line, so does the other one; where the first one ends, so does
the other one; and otherwise the first one breaks. -/
theorem fill (h : r.InStep source before r') :
    (∃ q q', r.fill = (.ok (), q) ∧ r'.fill = (.ok (), q') ∧ q.InStep source before q') ∨
      ∃ e q, r.fill = (.error e, q) ∧ q.Broken source e := by
  obtain ⟨hloads, htext, hoffset, hline, hsame, hagrees⟩ := h
  obtain ⟨pending, offset, line, loaded, ahead⟩ := r
  generalize r'.ahead = ahead' at hsame hagrees
  subst hsame
  dsimp only at *
  cases pending with
  | cons c rest => exact .inl ⟨_, _, rfl, rfl, hloads, htext, hoffset, hline, rfl, hagrees⟩
  | nil =>
    rw [List.append_nil] at htext
    -- the break is behind everything that was loaded
    have hhere : ∀ q : Reader, q.offset = offset → q.line = line →
        q.loadedText = before → q.here = Lexis.spanAt q.loadedText [] := by
      rintro q rfl rfl hq
      rw [here, Span.point, Lexis.spanAt, hq, List.append_nil, hoffset, hline]
    obtain ⟨_ | ⟨l, lines⟩, ending⟩ := ahead
    · cases ending with
      | endOfInput =>
        cases hagrees with
        | same => exact .inl ⟨_, _, rfl, rfl, hloads, by simpa using htext, hoffset, hline, rfl,
            .same _⟩
        | broken hfails => cases hfails
      | failure remainder message =>
        exact .inr ⟨_, _, rfl, ⟨_, hloads, .medium⟩, hhere _ rfl rfl htext⟩
    · cases l with
      | undecodable => exact .inr ⟨_, _, rfl, ⟨_, hloads, .line⟩, hhere _ rfl rfl htext⟩
      | text first others =>
        have hnew : loadedText ⟨first :: others, offset, line, (first :: others) :: loaded,
            ⟨lines, ending⟩⟩ = loadedText ⟨[], offset, line, loaded,
            ⟨.text first others :: lines, ending⟩⟩ ++ first :: others := by
          simp [loadedText]
        have hloads := hnew ▸ hloads.line
        have htext := hnew.trans (congrArg (· ++ first :: others) htext)
        cases hagrees with
        | same => exact .inl ⟨_, _, rfl, rfl, hloads, htext, hoffset, hline, rfl, .same _⟩
        | line hagrees => exact .inl ⟨_, _, rfl, rfl, hloads, htext, hoffset, hline, rfl, hagrees⟩
        | broken hfails => cases hfails

/-- Passing the same character keeps the readers in step. -/
theorem advance {c : Char} {rest : List Char} (h : r.InStep source before r')
    (hp : r.pending = c :: rest) : r.advance.InStep source (before ++ [c]) r'.advance := by
  have htext := h.text_eq
  have hsame := h.same
  rw [hp] at htext
  obtain ⟨hloads, -, hoffset, hline, -, hagrees⟩ := h
  generalize r'.ahead = ahead' at hsame hagrees
  subst hsame
  unfold Reader.advance
  simp only [hp]
  refine ⟨hloads, ?_, ?_, ?_, rfl, hagrees⟩
  · exact htext.trans (List.append_cons before c rest)
  · simp [hoffset]
  · by_cases hc : c = '\n' <;> simp [hline, hc, Nat.add_assoc]

/-- Passing a character leaves those behind it pending. -/
theorem pending_advance {c : Char} {rest : List Char} (hp : r.pending = c :: rest) :
    r.advance.pending = rest := by
  simp [Reader.advance, hp]

/-- Where nothing is pending there is nothing to hand out. -/
theorem advance_nil (h : r.InStep source before r') (hp : r.pending = []) :
    r.advance.InStep source before r'.advance := by
  have hp' := h.pending_eq.trans hp
  unfold Reader.advance
  rwa [hp, hp']

/-- Handing out a character gives the same for both readers, unless the first one fails at the
break. -/
theorem next (h : r.InStep source before r') :
    (∃ q q', r.next = (.ok none, q) ∧ r'.next = (.ok none, q') ∧ q.InStep source before q') ∨
      (∃ c q q', r.next = (.ok (some c), q) ∧ r'.next = (.ok (some c), q') ∧
        q.InStep source (before ++ [c]) q') ∨
      ∃ e q, r.next = (.error e, q) ∧ q.Broken source e := by
  obtain ⟨q, q', hfill, hfill', hq⟩ | ⟨e, q, hfill, hq⟩ := h.fill
  · have hnext : r.next = (.ok q.pending.head?, q.advance) := by rw [Reader.next, hfill]
    have hnext' : r'.next = (.ok q.pending.head?, q'.advance) := by
      rw [← hq.pending_eq, Reader.next, hfill']
    cases hp : q.pending with
    | nil =>
      rw [hp] at hnext hnext'
      exact .inl ⟨_, _, hnext, hnext', hq.advance_nil hp⟩
    | cons c rest =>
      rw [hp] at hnext hnext'
      exact .inr (.inl ⟨c, _, _, hnext, hnext', hq.advance hp⟩)
  · exact .inr (.inr ⟨e, q, by rw [Reader.next, hfill], hq⟩)

/-- Looking at a character gives the same for both readers, unless the first one fails at the
break. -/
theorem peek (h : r.InStep source before r') :
    (∃ c q q', r.peek = (.ok c, q) ∧ r'.peek = (.ok c, q') ∧ q.pending.head? = c ∧
      q.InStep source before q') ∨
      ∃ e q, r.peek = (.error e, q) ∧ q.Broken source e := by
  obtain ⟨q, q', hfill, hfill', hq⟩ | ⟨e, q, hfill, hq⟩ := h.fill
  · refine .inl ⟨q.pending.head?, q, q', by rw [Reader.peek, hfill], ?_, rfl, hq⟩
    rw [← hq.pending_eq, Reader.peek, hfill']
  · exact .inr ⟨e, q, by rw [Reader.peek, hfill], hq⟩

/-- The stretch between two places is said by the text between them. -/
theorem span_eq {slice : List Char} {q q' : Reader} (h : r.InStep source before r')
    (hq : q.InStep source (before ++ slice) q') :
    (⟨r.offset, q.offset, r.line⟩ : Span) = Lexis.spanAt before slice := by
  rw [h.offset_eq, h.line_eq, hq.offset_eq, Lexis.spanAt]

/-- Both readers are at the same offset and in the same line. -/
theorem same_place (h : r.InStep source before r') : r'.offset = r.offset ∧ r'.line = r.line := by
  rw [h.same]
  exact ⟨rfl, rfl⟩

end InStep

end Reader

/-! ## Trivia -/

namespace Trivia

open Reader (InStep KeepsStep)

variable {source : Source} {before : List Char} {r r' : Reader}

/-- A failure ends the skipping of a line. -/
theorem skipLine_of_error {e : ReadFailure} {q : Reader} (h : r.next = (.error e, q)) :
    skipLine r = (.error e, q) := by
  rw [skipLine]
  split <;> simp_all

/-- Skipping a line keeps the readers in step. -/
theorem keepsStep_skipLine {before : List Char} {r r' : Reader}
    (h : r.InStep source before r') :
    KeepsStep source before (skipLine r) (skipLine r') := by
  obtain ⟨q, q', hl, hr, hq⟩ | ⟨c, q, q', hl, hr, hq⟩ | ⟨e, q, hl, hq⟩ := h.next
  · rw [skipLine_of_none hl, skipLine_of_none hr]
    exact .here hq
  · rw [skipLine_of_some hl, skipLine_of_some hr]
    split
    · exact .ok [c] hq
    · exact (keepsStep_skipLine hq).behind
  · rw [skipLine_of_error hl]
    exact .broken hq
termination_by r.size
decreasing_by exact Reader.size_next_lt hl

/-- A failure ends the skipping of a block comment. -/
theorem skipBlock_of_error {e : ReadFailure} {q : Reader} (h : r.next = (.error e, q)) :
    skipBlock r = (.error e, q) := by
  rw [skipBlock]
  split <;> simp_all

/-- A failure to look behind a star ends the skipping of a block comment. -/
theorem skipBlock_of_star_error {e : ReadFailure} {q q' : Reader}
    (h : r.next = (.ok (some '*'), q)) (hpeek : q.peek = (.error e, q')) :
    skipBlock r = (.error e, q') := by
  rw [skipBlock]
  split
  · simp_all
  · simp_all
  · rename_i hnext
    cases h.symm.trans hnext
    rw [if_pos rfl]
    split <;> simp_all

/-- Skipping a block comment keeps the readers in step. -/
theorem keepsStep_skipBlock {before : List Char} {r r' : Reader}
    (h : r.InStep source before r') :
    KeepsStep source before (skipBlock r) (skipBlock r') := by
  obtain ⟨q, q', hl, hr, hq⟩ | ⟨c, q, q', hl, hr, hq⟩ | ⟨e, q, hl, hq⟩ := h.next
  · rw [skipBlock_of_none hl, skipBlock_of_none hr]
    exact .here hq
  · by_cases hc : c = '*'
    · subst hc
      obtain ⟨next, p, p', hl', hr', hhead, hp⟩ | ⟨e, p, hl', hp⟩ := hq.peek
      · rw [skipBlock_of_star hl hl', skipBlock_of_star hr hr']
        split
        · rename_i hslash
          obtain ⟨rest, hpending⟩ := List.head?_eq_some_iff.mp (hhead.trans hslash)
          exact (KeepsStep.ok ['/'] (hp.advance hpending)).behind
        · exact (keepsStep_skipBlock hp).behind
      · rw [skipBlock_of_star_error hl hl']
        exact .broken hp
    · rw [skipBlock_of_other hl hc, skipBlock_of_other hr hc]
      exact (keepsStep_skipBlock hq).behind
  · rw [skipBlock_of_error hl]
    exact .broken hq
termination_by r.size
decreasing_by
  · exact Nat.lt_of_le_of_lt (Reader.size_peek_le_of_eq hl') (Reader.size_next_lt hl)
  · exact Reader.size_next_lt hl

/-- A failure to read on ends the skipping of trivia. -/
theorem skip_of_error {e : ReadFailure} {q : Reader} (h : r.fill = (.error e, q)) :
    skip r = (.error e, q) := by
  rw [skip]
  split <;> simp_all

/-- A failure in a line comment ends the skipping of trivia. -/
theorem skip_of_line_error {e : ReadFailure} {q q' : Reader} (h : r.fill = (.ok (), q))
    (hline : startsLineComment q.pending = true)
    (hskip : skipLine q.advance.advance = (.error e, q')) : skip r = (.error e, q') := by
  rw [skip]
  split
  · simp_all
  · rename_i p hp
    cases h.symm.trans hp
    rw [dif_pos hline]
    split <;> simp_all

/-- A failure in a block comment ends the skipping of trivia. -/
theorem skip_of_block_error {e : ReadFailure} {q q' : Reader} (h : r.fill = (.ok (), q))
    (hline : startsLineComment q.pending = false) (hblock : startsBlockComment q.pending = true)
    (hskip : skipBlock q.advance.advance = (.error e, q')) : skip r = (.error e, q') := by
  rw [skip]
  split
  · simp_all
  · rename_i p hp
    cases h.symm.trans hp
    rw [dif_neg (by simp [hline]), dif_pos hblock]
    split <;> simp_all

/-- Skipping trivia keeps the readers in step. -/
theorem keepsStep_skip {before : List Char} {r r' : Reader}
    (h : r.InStep source before r') :
    KeepsStep source before (skip r) (skip r') := by
  obtain ⟨q, q', hl, hr, hq⟩ | ⟨e, q, hl, hq⟩ := h.fill
  · have hpending := hq.pending_eq
    have hle := Reader.size_fill_le_of_eq hl
    cases hline : startsLineComment q.pending with
    | true =>
      have hlt := size_advance_advance_lt (ne_nil_of_startsLineComment hline)
      obtain ⟨rest, hp⟩ := exists_of_startsLineComment hline
      obtain ⟨_, slice, p, p', hskip, hskip', hin⟩ | ⟨e, p, hskip, hin⟩ :=
        keepsStep_skipLine ((hq.advance hp).advance (InStep.pending_advance hp))
      · have hle' : p.size ≤ q.advance.advance.size := by
          have hskipped := size_skipLine_le q.advance.advance
          rwa [hskip] at hskipped
        rw [skip_of_line hl hline hskip, skip_of_line hr (hpending ▸ hline) hskip']
        exact (keepsStep_skip hin).behind.behind.behind
      · rw [skip_of_line_error hl hline hskip]
        exact .broken hin
    | false =>
      cases hblock : startsBlockComment q.pending with
      | true =>
        have hlt := size_advance_advance_lt (ne_nil_of_startsBlockComment hblock)
        obtain ⟨rest, hp⟩ := exists_of_startsBlockComment hblock
        obtain ⟨_, slice, p, p', hskip, hskip', hin⟩ | ⟨e, p, hskip, hin⟩ :=
          keepsStep_skipBlock ((hq.advance hp).advance (InStep.pending_advance hp))
        · have hle' : p.size ≤ q.advance.advance.size := by
            have hskipped := size_skipBlock_le q.advance.advance
            rwa [hskip] at hskipped
          rw [skip_of_block hl hline hblock hskip,
            skip_of_block hr (hpending ▸ hline) (hpending ▸ hblock) hskip']
          exact (keepsStep_skip hin).behind.behind.behind
        · rw [skip_of_block_error hl hline hblock hskip]
          exact .broken hin
      | false =>
        have hnone : startsComment q.pending = false := by rw [startsComment, hline, hblock]; rfl
        cases hp : q.pending with
        | nil =>
          have hends : Ends q.pending := ⟨hnone, by simp [hp]⟩
          rw [skip_of_ends hl hends, skip_of_ends hr (hpending ▸ hends)]
          exact .here hq
        | cons c rest =>
          have hhead : q.pending.head? = some c := by rw [hp]; rfl
          cases hblank : isBlank c with
          | true =>
            have hlt := Reader.size_advance_lt (r := q) (by simp [hp])
            rw [skip_of_blank hl hnone hhead hblank,
              skip_of_blank hr (hpending ▸ hnone) (hpending ▸ hhead) hblank]
            exact (keepsStep_skip (hq.advance hp)).behind
          | false =>
            have hends : Ends q.pending := by
              refine ⟨hnone, fun d hd => ?_⟩
              obtain rfl : c = d := Option.some.inj (hhead.symm.trans hd)
              exact hblank
            rw [skip_of_ends hl hends, skip_of_ends hr (hpending ▸ hends)]
            exact .here hq
  · rw [skip_of_error hl]
    exact .broken hq
termination_by r.size
decreasing_by all_goals omega

end Trivia

/-! ## Words -/

namespace Word

open Reader (InStep KeepsStep)

variable {source : Source}

/-- A failure ends the reading of a word. -/
theorem readRest_of_error {r q : Reader} {e : ReadFailure} (read : List Char)
    (h : r.fill = (.error e, q)) : readRest read r = (.error e, q) := by
  rw [readRest]
  split <;> simp_all

/-- Reading a word keeps the readers in step. -/
theorem keepsStep_readRest (read : List Char) {before : List Char} {r r' : Reader}
    (h : r.InStep source before r') :
    KeepsStep source before (readRest read r) (readRest read r') := by
  obtain ⟨q, q', hl, hr, hq⟩ | ⟨e, q, hl, hq⟩ := h.fill
  · have hpending := hq.pending_eq
    have hle := Reader.size_fill_le_of_eq hl
    cases hcontinues : continues q.pending with
    | true =>
      cases hp : q.pending with
      | nil => simp [hp, continues] at hcontinues
      | cons c rest =>
        have hhead : q.pending.head? = some c := by rw [hp]; rfl
        have hlt := Reader.size_advance_lt (r := q) (by simp [hp])
        rw [readRest_of_continues read hl hhead hcontinues,
          readRest_of_continues read hr (hpending ▸ hhead) (hpending ▸ hcontinues)]
        exact (keepsStep_readRest (c :: read) (hq.advance hp)).behind
    | false =>
      rw [readRest_of_stops read hl hcontinues, readRest_of_stops read hr (hpending ▸ hcontinues)]
      exact .here hq
  · rw [readRest_of_error read hl]
    exact .broken hq
termination_by r.size
decreasing_by omega

end Word

namespace Quoted

open Reader (InStep KeepsStep)

variable {source : Source}

/-- Reading octal digits keeps the readers in step. -/
theorem keepsStep_readOctal (count value : Nat) {before : List Char} {r r' : Reader}
    (h : r.InStep source before r') :
    KeepsStep source before (readOctal count value r) (readOctal count value r') := by
  induction count generalizing value before r r' with
  | zero => exact .here h
  | succ count ih =>
    obtain ⟨q, q', hl, hr, hq⟩ | ⟨e, q, hl, hq⟩ := h.fill
    · simp only [readOctal, hl, hr, hq.pending_eq]
      cases hdigit : q.pending.head?.bind octalDigit? with
      | none => exact .here hq
      | some digit =>
        cases hp : q.pending with
        | nil => simp [hp] at hdigit
        | cons c rest => exact (ih _ (hq.advance hp)).behind
    · simp only [readOctal, hl]
      exact .broken hq

/-- Reading an escape keeps the readers in step. -/
theorem keepsStep_readEscape {before : List Char} {r r' : Reader} (h : r.InStep source before r') :
    KeepsStep source before (readEscape r) (readEscape r') := by
  obtain ⟨q, q', hl, hr, hq⟩ | ⟨c, q, q', hl, hr, hq⟩ | ⟨e, q, hl, hq⟩ := h.next
  · simp only [readEscape, hl, hr]
    exact .here hq
  · simp only [readEscape, hl, hr]
    cases hdigit : octalDigit? c with
    | none => exact .ok [c] hq
    | some digit =>
      obtain ⟨value, slice, p, p', hread, hread', hp⟩ | ⟨e, p, hread, hp⟩ :=
        keepsStep_readOctal (octalDigitsAfter digit) digit hq
      · simp only [hread, hread']
        exact (KeepsStep.ok slice hp).behind
      · simp only [hread]
        exact .broken hp
  · simp only [readEscape, hl]
    exact .broken hq

/-- A failure ends the reading of a quoted word. -/
theorem readRest_of_error {r q : Reader} {e : ReadFailure} (read : List Char)
    (h : r.fill = (.error e, q)) : readRest read r = (.error e, q) := by
  rw [readRest]
  split <;> simp_all

/-- A failure in an escape ends the reading of a quoted word. -/
theorem readRest_of_escape_error {r q q' : Reader} {e : ReadFailure} (read : List Char)
    (h : r.fill = (.ok (), q)) (hp : q.pending.head? = some '\\')
    (he : readEscape q.advance = (.error e, q')) : readRest read r = (.error e, q') := by
  rw [readRest]
  split
  · simp_all
  · rename_i p hfill
    cases h.symm.trans hfill
    split
    · simp_all
    · rename_i c rest hpending
      obtain rfl : c = '\\' := by simpa [hpending] using hp
      rw [if_neg (by decide), if_neg (by decide), if_pos rfl]
      split <;> simp_all

/-- Reading a quoted word keeps the readers in step. -/
theorem keepsStep_readRest (read : List Char) {before : List Char} {r r' : Reader}
    (h : r.InStep source before r') :
    KeepsStep source before (readRest read r) (readRest read r') := by
  obtain ⟨q, q', hl, hr, hq⟩ | ⟨e, q, hl, hq⟩ := h.fill
  · have hpending := hq.pending_eq
    have hle := Reader.size_fill_le_of_eq hl
    cases hp : q.pending with
    | nil =>
      rw [readRest_of_nil read hl hp, readRest_of_nil read hr (hpending.trans hp)]
      exact .here hq
    | cons c rest =>
      have hhead : q.pending.head? = some c := by rw [hp]; rfl
      have hhead' : q'.pending.head? = some c := hpending ▸ hhead
      have hlt := Reader.size_advance_lt (r := q) (by simp [hp])
      have hadvance := hq.advance hp
      by_cases hquote : c = '"'
      · subst hquote
        rw [readRest_of_quote read hl hhead, readRest_of_quote read hr hhead']
        exact .ok ['"'] hadvance
      cases hline : isLineEnd c with
      | true =>
        rw [readRest_of_lineEnd read hl hhead hline, readRest_of_lineEnd read hr hhead' hline]
        exact .here hq
      | false =>
        by_cases hslash : c = '\\'
        · subst hslash
          obtain ⟨decoded, slice, p, p', he, he', hin⟩ | ⟨e, p, he, hin⟩ :=
            keepsStep_readEscape hadvance
          · have hle' := size_readEscape_le_of_eq he
            rw [readRest_of_escape read hl hhead he, readRest_of_escape read hr hhead' he']
            exact (keepsStep_readRest _ hin).behind.behind
          · rw [readRest_of_escape_error read hl hhead he]
            exact .broken hin
        · rw [readRest_of_plain read hl hhead hquote hslash hline,
            readRest_of_plain read hr hhead' hquote hslash hline]
          exact (keepsStep_readRest (c :: read) hadvance).behind
  · rw [readRest_of_error read hl]
    exact .broken hq
termination_by r.size
decreasing_by all_goals omega

end Quoted

end CommandTree
