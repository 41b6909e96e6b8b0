import CommandTree.Proofs.Session.Repeating
import CommandTree.Proofs.Source.ReaderCalls

/-!
# Calls that fail

A call on a reader fails where a line cannot be loaded, and the calls behind it go on with whatever
the source has there. A failed call itself moves nothing: what was handed out and what was loaded
stay as they were.

The two come apart later. A line that is not text is dropped, so nothing of it is handed out. But a
medium that fails in the middle of a line leaves the part of the line in front of the failure
pending, and that part is handed out without having been loaded. `Reader.Tracks` is the invariant: a
reader is in the lines of its source, where all that was handed out is loaded, or it is in the
remainder in front of the failure. What was handed out is recorded as long as the reader has not
passed a character of the remainder.
-/

set_option autoImplicit false

namespace CommandTree

/-- The text of the lines of a source. A line that is not text adds nothing to it. -/
def Source.lineText (source : Source) : List Char := source.lines.flatMap Line.chars

/-- The text between the last line and a failure of the medium. -/
def Ending.remainder : Ending → List Char
  | .endOfInput => []
  | .failure remainder _ => remainder

namespace Reader

variable {r q : Reader} {source : Source} {taken : List Char} {e : ReadFailure}

/-! ## One call -/

/-- A reader that is filled has something pending already, or is at the end, or loads a line. -/
theorem fill_eq_ok (h : r.fill = (.ok (), q)) :
    q = r ∨ ∃ c others lines ending, r.pending = [] ∧
      r.ahead = ⟨.text c others :: lines, ending⟩ ∧
      q = { r with
        pending := c :: others
        loaded := (c :: others) :: r.loaded
        ahead := ⟨lines, ending⟩ } := by
  unfold fill at h
  split at h
  · exact .inl (Prod.mk.inj h).2.symm
  · rename_i c others lines ending hpending hahead
    exact .inr ⟨c, others, lines, ending, hpending, hahead, (Prod.mk.inj h).2.symm⟩
  · simp at h
  · exact .inl (Prod.mk.inj h).2.symm
  · simp at h

/-- A call fails where the reader cannot be filled, and leaves it as the attempt does. -/
theorem fill_of_run_error {call : Call} (h : (call.run r).1 = .error e) :
    r.fill = (.error e, (call.run r).2) := by
  rcases hfill : r.fill with ⟨e' | ⟨⟩, q⟩
  · cases call <;>
      simp only [Call.run, peek, peekSecond, next, hfill, Except.error.injEq] at h ⊢ <;> rw [h]
  · cases call <;> simp [Call.run, peek, peekSecond, next, hfill] at h

/-- A call that fails moves no place and loads no text. -/
theorem kept_of_run_error {call : Call} (h : (call.run r).1 = .error e) :
    (call.run r).2.offset = r.offset ∧ (call.run r).2.line = r.line ∧
      (call.run r).2.loadedText = r.loadedText := by
  obtain ⟨-, ⟨_, _, -, -, hq⟩ | ⟨_, _, -, -, hq⟩⟩ := fill_eq_error (fill_of_run_error h)
  · rw [hq]
    exact ⟨rfl, rfl, rfl⟩
  · rw [hq]
    exact ⟨rfl, rfl, rfl⟩

/-- A call takes nothing and fills the reader, or it takes what is pending then. -/
theorem run_snd (r : Reader) (call : Call) :
    (call.taken r = none ∧ (call.run r).2 = r.fill.2) ∨
      (call.taken r = r.fill.2.pending.head? ∧ (call.run r).2 = r.fill.2.advance) := by
  rcases hfill : r.fill with ⟨e | ⟨⟩, q⟩ <;> cases call
  case ok.next =>
    refine .inr ⟨?_, ?_⟩
    · simp [Call.taken, next, hfill, Except.toOption]
    · simp [Call.run, next, hfill]
  all_goals
    refine .inl ⟨?_, ?_⟩
    · simp [Call.taken, next, hfill, Except.toOption]
    · simp [Call.run, peek, peekSecond, next, hfill]

/-! ## The invariant -/

/-- All that was taken is loaded, and what is not loaded of the lines is ahead. -/
structure InLines (r : Reader) (source : Source) (taken : List Char) : Prop where
  loadedText_eq : r.loadedText = taken ++ r.pending
  lineText_eq : source.lineText = r.loadedText ++ r.ahead.lineText
  ending_eq : r.ahead.ending = source.ending

/-- All lines are loaded, and of the remainder behind them `passed` was taken. -/
structure InRemainder (r : Reader) (source : Source) (taken passed : List Char) : Prop where
  taken_eq : taken = source.lineText ++ passed
  loadedText_eq : r.loadedText = source.lineText
  remainder_eq : source.ending.remainder = passed ++ r.pending
  ahead_eq : ∃ message, r.ahead = ⟨[], .failure [] message⟩

/-- The reader of a source is behind the characters that were taken. -/
structure Tracks (r : Reader) (source : Source) (taken : List Char) : Prop where
  offset_eq : r.offset = Bytes.count taken
  place : r.InLines source taken ∨ ∃ passed, r.InRemainder source taken passed

/-- A reader over a source is in front of all of it. -/
theorem tracks_ofSource (source : Source) : (ofSource source).Tracks source [] :=
  ⟨rfl, .inl ⟨rfl, rfl, rfl⟩⟩

/-- A line that is not text has no characters, so what is left of the lines is the same. -/
theorem InLines.drop {lines : List Line} {ending : Ending} (h : r.InLines source taken)
    (hahead : r.ahead = ⟨.undecodable :: lines, ending⟩) :
    InLines { r with ahead := ⟨lines, ending⟩ } source taken := by
  obtain ⟨hloaded, htext, hending⟩ := h
  rw [hahead] at htext hending
  exact ⟨hloaded, htext, hending⟩

/-- Loading a line of text takes it from the lines ahead. -/
theorem InLines.load {c : Char} {others : List Char} {lines : List Line} {ending : Ending}
    (h : r.InLines source taken) (hpending : r.pending = [])
    (hahead : r.ahead = ⟨.text c others :: lines, ending⟩) :
    InLines { r with
      pending := c :: others
      loaded := (c :: others) :: r.loaded
      ahead := ⟨lines, ending⟩ } source taken := by
  obtain ⟨hloaded, htext, hending⟩ := h
  rw [hpending, List.append_nil] at hloaded
  rw [hahead] at htext hending
  have hnew : ((c :: others) :: r.loaded).reverse.flatten = taken ++ c :: others := by
    rw [List.reverse_cons, List.flatten_append, List.flatten_singleton]
    exact congrArg (· ++ c :: others) hloaded
  refine ⟨hnew, ?_, hending⟩
  rw [htext, hloaded, loadedText, hnew, List.append_assoc]
  rfl

/-- Behind the last line, what was taken is the text of the lines. -/
theorem InLines.leave {remainder : List Char} {message : String} (h : r.InLines source taken)
    (hpending : r.pending = []) (hahead : r.ahead = ⟨[], .failure remainder message⟩) :
    InRemainder { r with pending := remainder, ahead := ⟨[], .failure [] message⟩ } source
      taken [] := by
  obtain ⟨hloaded, htext, hending⟩ := h
  rw [hpending, List.append_nil] at hloaded
  rw [hahead] at htext hending
  have hall : source.lineText = r.loadedText := by
    rw [htext]
    exact List.append_nil _
  refine ⟨?_, hall.symm, ?_, message, rfl⟩
  · rw [hall, hloaded, List.append_nil]
  · rw [← hending]
    rfl

/-- Once the remainder was taken nothing follows. -/
theorem InRemainder.stay {passed remainder : List Char} {message : String}
    (h : r.InRemainder source taken passed) (hpending : r.pending = [])
    (hahead : r.ahead = ⟨[], .failure remainder message⟩) :
    InRemainder { r with pending := remainder, ahead := ⟨[], .failure [] message⟩ } source
      taken passed := by
  obtain ⟨_, hempty⟩ := h.ahead_eq
  rw [hahead, Source.mk.injEq, Ending.failure.injEq] at hempty
  obtain ⟨-, rfl, rfl⟩ := hempty
  refine ⟨h.taken_eq, h.loadedText_eq, ?_, _, rfl⟩
  rw [h.remainder_eq, hpending]

/-- In the remainder no lines are ahead. -/
theorem InRemainder.lines_eq_nil {passed : List Char} (h : r.InRemainder source taken passed) :
    r.ahead.lines = [] := by
  obtain ⟨message, hempty⟩ := h.ahead_eq
  rw [hempty]

/-- Making a character available takes none. -/
theorem Tracks.fill (h : r.Tracks source taken) : r.fill.2.Tracks source taken := by
  rcases hfill : r.fill with ⟨e | ⟨⟩, q⟩
  · obtain ⟨hpending, ⟨lines, ending, -, hahead, rfl⟩ | ⟨remainder, message, -, hahead, rfl⟩⟩ :=
      fill_eq_error hfill
    · refine ⟨h.offset_eq, .inl ?_⟩
      rcases h.place with hlines | ⟨passed, hremainder⟩
      · exact hlines.drop hahead
      · have hnone := hremainder.lines_eq_nil
        simp [hahead] at hnone
    · refine ⟨h.offset_eq, .inr ?_⟩
      rcases h.place with hlines | ⟨passed, hremainder⟩
      · exact ⟨[], hlines.leave hpending hahead⟩
      · exact ⟨passed, hremainder.stay hpending hahead⟩
  · obtain rfl | ⟨c, others, lines, ending, hpending, hahead, rfl⟩ := fill_eq_ok hfill
    · exact h
    · refine ⟨h.offset_eq, .inl ?_⟩
      rcases h.place with hlines | ⟨passed, hremainder⟩
      · exact hlines.load hpending hahead
      · have hnone := hremainder.lines_eq_nil
        simp [hahead] at hnone

/-- Passing a character takes it, if there is one. -/
theorem Tracks.advance (h : r.Tracks source taken) :
    r.advance.Tracks source (taken ++ r.pending.head?.toList) := by
  cases hpending : r.pending with
  | nil =>
    have hsame : r.advance = r := by rw [Reader.advance, hpending]
    rw [hsame, List.head?_nil, Option.toList_none, List.append_nil]
    exact h
  | cons c rest =>
    have hadvance : r.advance = { r with
        pending := rest
        offset := r.offset + c.utf8Size
        line := if c = '\n' then r.line + 1 else r.line } := by
      rw [Reader.advance, hpending]
    rw [hadvance, List.head?_cons, Option.toList_some]
    constructor
    · rw [Bytes.count_append, ← h.offset_eq]
      rfl
    · rcases h.place with ⟨hloaded, htext, hending⟩ | ⟨passed, htaken, hloaded, hremainder, hahead⟩
      · refine .inl ⟨?_, htext, hending⟩
        rw [List.append_assoc, List.singleton_append, ← hpending]
        exact hloaded
      · refine .inr ⟨passed ++ [c], ?_, hloaded, ?_, hahead⟩
        · rw [htaken, List.append_assoc]
        · rw [hremainder, hpending, List.append_assoc, List.singleton_append]

/-- A call takes what it hands out. -/
theorem Tracks.run (h : r.Tracks source taken) (call : Call) :
    (call.run r).2.Tracks source (taken ++ (call.taken r).toList) := by
  obtain ⟨htaken, hrun⟩ | ⟨htaken, hrun⟩ := r.run_snd call
  · rw [htaken, hrun, Option.toList_none, List.append_nil]
    exact h.fill
  · rw [htaken, hrun]
    exact h.fill.advance

/-- Calls take what they hand out, one after the other. -/
theorem Tracks.after (h : r.Tracks source taken) (calls : List Call) :
    (Call.after r calls).Tracks source (taken ++ Call.takenBy r calls) := by
  induction calls generalizing r taken with
  | nil =>
    rw [Call.takenBy, List.append_nil]
    exact h
  | cons call calls ih =>
    rw [Call.takenBy, ← List.append_assoc]
    exact ih (h.run call)

/-! ## What is left -/

/-- The characters that can still be handed out. -/
def left (r : Reader) : List Char := r.pending ++ (r.ahead.lineText ++ r.ahead.ending.remainder)

/-- Making a character available leaves as much to hand out. -/
theorem left_fill (r : Reader) : r.fill.2.left = r.left := by
  rcases hfill : r.fill with ⟨e | ⟨⟩, q⟩
  · obtain ⟨hpending, ⟨lines, ending, -, hahead, rfl⟩ | ⟨remainder, message, -, hahead, rfl⟩⟩ :=
      fill_eq_error hfill
    · rw [left, left, hahead]
      rfl
    · rw [left, left, hpending, hahead]
      exact List.append_nil remainder
  · obtain rfl | ⟨c, others, lines, ending, hpending, hahead, rfl⟩ := fill_eq_ok hfill
    · rfl
    · rw [left, left, hpending, hahead]
      simp [Source.lineText, Line.chars]

/-- What is left is the next character and what is left behind it. -/
theorem left_advance (r : Reader) : r.pending.head?.toList ++ r.advance.left = r.left := by
  unfold advance
  split
  · rename_i hpending
    rw [hpending]
    rfl
  · rename_i c rest hpending
    rw [left, left, hpending]
    rfl

/-- What a call hands out is the first of what was left. -/
theorem left_run (r : Reader) (call : Call) :
    (call.taken r).toList ++ (call.run r).2.left = r.left := by
  obtain ⟨htaken, hrun⟩ | ⟨htaken, hrun⟩ := r.run_snd call
  · rw [htaken, hrun]
    exact r.left_fill
  · rw [htaken, hrun, left_advance, left_fill]

/-- What calls hand out and what is left behind them is what was left before. -/
theorem takenBy_append_left (r : Reader) (calls : List Call) :
    Call.takenBy r calls ++ (Call.after r calls).left = r.left := by
  induction calls generalizing r with
  | nil => rfl
  | cons call calls ih => rw [Call.takenBy, Call.after, List.append_assoc, ih, left_run]

/-- A bound on the attempts to take a character that get something out of a reader. -/
def attempts (r : Reader) : Nat := r.pending.length + 2 * r.ahead.size

/-- As long as something is left, an attempt to take a character gets something out of the
reader. -/
theorem attempts_next_lt (h : r.left ≠ []) : r.next.2.attempts < r.attempts := by
  rcases r with ⟨pending, offset, line, loaded, ⟨lines, ending⟩⟩
  cases pending with
  | cons c rest => simp [attempts, next, fill, advance]
  | nil =>
    cases lines with
    | cons l lines =>
      cases l <;> simp [attempts, next, fill, advance, Source.size, Line.sizeAll, Line.size]
      omega
    | nil =>
      cases ending with
      | endOfInput => exact absurd rfl h
      | failure remainder message =>
        have hpos : 0 < remainder.length := List.length_pos_iff.mpr h
        simp [attempts, next, fill, Source.size, Line.sizeAll, Ending.size]
        omega

/-- Taking characters over and over hands out all that is left. -/
theorem exists_takenBy_replicate (r : Reader) :
    ∃ n, Call.takenBy r (List.replicate n .next) = r.left := by
  by_cases h : r.left = []
  · exact ⟨0, h.symm⟩
  · have hlt := attempts_next_lt h
    obtain ⟨n, hn⟩ := exists_takenBy_replicate r.next.2
    refine ⟨n + 1, ?_⟩
    rw [List.replicate_succ, Call.takenBy, ← r.left_run .next]
    exact congrArg _ hn
termination_by r.attempts

/-! ## What is recorded -/

/-- The characters that calls handed out are the first bytes, as many as the offset says, of the
text that is loaded behind the calls, and there are that many bytes. -/
structure Recorded (start : Reader) (calls : List Call) : Prop where
  offset_le : (Call.after start calls).offset ≤
    (Bytes.encode (Call.after start calls).loadedText).length
  taken_eq : Bytes.encode (Call.takenBy start calls) =
    (Bytes.encode (Call.after start calls).loadedText).take (Call.after start calls).offset

/-- Calls are recorded if the text that is loaded starts with what they handed out. -/
theorem recorded_of_loadedText {start : Reader} {calls : List Call} {rest : List Char}
    (hoffset : (Call.after start calls).offset = Bytes.count (Call.takenBy start calls))
    (hloaded : (Call.after start calls).loadedText = Call.takenBy start calls ++ rest) :
    Recorded start calls := by
  have hbytes : Bytes.encode (Call.after start calls).loadedText =
      Bytes.encode (Call.takenBy start calls) ++ Bytes.encode rest := by
    rw [hloaded, Bytes.encode_append]
  have hlength : (Call.after start calls).offset =
      (Bytes.encode (Call.takenBy start calls)).length := by
    rw [hoffset, Bytes.length_encode]
  constructor
  · rw [hbytes, hlength, List.length_append]
    omega
  · rw [hbytes, hlength, List.take_left']
    rfl

/-- What was handed out is recorded exactly as long as it is text of the lines. -/
theorem recorded_iff_isPrefix (source : Source) (calls : List Call) :
    Recorded (ofSource source) calls ↔
      Call.takenBy (ofSource source) calls <+: source.lineText := by
  have htracks := (tracks_ofSource source).after calls
  rw [List.nil_append] at htracks
  rcases htracks.place with hlines | ⟨passed, hremainder⟩
  · refine iff_of_true (recorded_of_loadedText htracks.offset_eq hlines.loadedText_eq) ?_
    rw [hlines.lineText_eq, hlines.loadedText_eq, List.append_assoc]
    exact List.prefix_append _ _
  · -- what was taken is the text of the lines and what was passed of the remainder
    have htaken := hremainder.taken_eq
    constructor
    · intro hrecorded
      have hle := hrecorded.offset_le
      rw [htracks.offset_eq, hremainder.loadedText_eq, Bytes.length_encode, htaken,
        Bytes.count_append] at hle
      have hpassed : passed = [] := Bytes.count_eq_zero.mp (by omega)
      exact ⟨[], by rw [htaken, hpassed, List.append_nil, List.append_nil]⟩
    · intro hfront
      have hle := hfront.length_le
      rw [htaken, List.length_append] at hle
      have hpassed : passed = [] := List.length_eq_zero_iff.mp (by omega)
      have hloaded : (Call.after (ofSource source) calls).loadedText =
          Call.takenBy (ofSource source) calls ++ [] := by
        rw [hremainder.loadedText_eq, htaken, hpassed, List.append_nil, List.append_nil]
      exact recorded_of_loadedText htracks.offset_eq hloaded

/-- A call that fails changes neither the offset nor the line nor what is loaded, whatever was
called before. The characters that are handed out are those of the lines and of the remainder in
front of a failure of the medium, in order. They are recorded as long as none of the remainder is
among them, so they are recorded whatever is called exactly if there is no remainder. -/
theorem calls_are_recorded_iff (bytes : List UInt8) (failure : Option String) :
    let source := Source.ofBytes bytes failure
    let start := ofSource source
    (∀ (calls : List Call) (call : Call) (e : ReadFailure),
      let r := Call.after start calls
      (call.run r).1 = .error e → (call.run r).2.offset = r.offset ∧
        (call.run r).2.line = r.line ∧ (call.run r).2.loadedText = r.loadedText) ∧
    (∀ calls : List Call,
      Call.takenBy start calls <+: source.lineText ++ source.ending.remainder ∧
      (Recorded start calls ↔ Call.takenBy start calls <+: source.lineText)) ∧
    ((∀ calls : List Call, Recorded start calls) ↔ source.ending.remainder = []) := by
  intro source start
  have hfront : ∀ calls,
      Call.takenBy start calls <+: source.lineText ++ source.ending.remainder := by
    intro calls
    exact ⟨_, takenBy_append_left start calls⟩
  refine ⟨fun calls call e => kept_of_run_error,
    fun calls => ⟨hfront calls, recorded_iff_isPrefix source calls⟩, ?_, ?_⟩
  · intro h
    obtain ⟨n, hn⟩ := exists_takenBy_replicate start
    have hlines := (recorded_iff_isPrefix source _).mp (h (List.replicate n .next))
    have hle : (source.lineText ++ source.ending.remainder).length ≤ source.lineText.length := by
      have := hlines.length_le
      rwa [hn] at this
    rw [List.length_append] at hle
    exact List.length_eq_zero_iff.mp (by omega)
  · intro hremainder calls
    have hlines := hfront calls
    rw [hremainder, List.append_nil] at hlines
    exact (recorded_iff_isPrefix source calls).mpr hlines

/-- The first attempt to read the bytes `ab` fails and leaves them pending. The next call hands out
a character although nothing was loaded. -/
theorem unrecorded_behind_failure :
    ¬ Recorded (ofSource (.ofBytes [0x61, 0x62] (some "boom"))) [.next, .next] := by
  intro h
  have hle := h.offset_le
  revert hle
  decide +kernel

end Reader

end CommandTree
