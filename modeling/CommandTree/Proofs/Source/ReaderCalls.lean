import CommandTree.Proofs.Lexis.Standing
import CommandTree.Proofs.Source.Encoding
import Mathlib.Data.List.Induction

/-!
# Sequences of calls on a reader

The users of a reader look at one character or at two and take characters, in any order. Over an
undamaged text the reader is a cursor: taking a character moves it by one until the text is used up,
and looking leaves it where it is. What a call returns, the offset and the line depend on where the
cursor is and on nothing else.

What has been loaded depends on the calls besides, because a line is taken from the source when a
call looks at a character of it. `Reader.Follows` is the invariant: the loaded lines are the first
lines of the text, the last of them has been looked at, and as long as there are more lines nothing
beyond the loaded ones has been.
-/

set_option autoImplicit false

namespace CommandTree

/-! ## Lines that are looked at -/

namespace Source

/-- The lines that hold the first `k` characters. -/
def linesHolding : Nat → List (List Char) → List (List Char)
  | 0, _ => []
  | _ + 1, [] => []
  | k + 1, line :: lines => line :: linesHolding (k + 1 - line.length) lines

/-- If the last of some lines has a character among the first `k` and they hold these, then they are
the lines that hold them. -/
theorem linesHolding_append {front behind : List (List Char)} {k : Nat}
    (hlast : ∀ lines line, front = lines ++ [line] → lines.flatten.length < k)
    (hhold : behind ≠ [] → k ≤ front.flatten.length) :
    linesHolding k (front ++ behind) = front := by
  induction front generalizing k with
  | nil =>
    cases behind with
    | nil => cases k <;> rfl
    | cons line lines =>
      obtain rfl : k = 0 := Nat.le_zero.mp (hhold (List.cons_ne_nil line lines))
      rfl
  | cons line front ih =>
    have hpos : 0 < k := by
      obtain ⟨lines, last, hlines⟩ := (List.eq_nil_or_concat (line :: front)).resolve_left
        (List.cons_ne_nil line front)
      exact Nat.lt_of_le_of_lt (Nat.zero_le _) (hlast lines last (by simpa using hlines))
    obtain ⟨k, rfl⟩ := Nat.exists_eq_add_one_of_ne_zero (Nat.ne_of_gt hpos)
    rw [List.cons_append, linesHolding, ih]
    · intro lines last hfront
      have hlt := hlast (line :: lines) last (by rw [hfront, List.cons_append])
      rw [List.flatten_cons, List.length_append] at hlt
      omega
    · intro hbehind
      have hle := hhold hbehind
      rw [List.flatten_cons, List.length_append] at hle
      omega

end Source

/-- A text has as many bytes as are counted. -/
theorem Bytes.length_encode (cs : List Char) : (encode cs).length = count cs := by
  induction cs with
  | nil => rfl
  | cons c cs ih =>
    have hcons : encode (c :: cs) = String.utf8EncodeChar c ++ encode cs := List.flatMap_cons
    rw [hcons, List.length_append, String.length_utf8EncodeChar, ih, count_cons]

/-! ## Calls -/

namespace Reader

/-- A call on a reader. -/
inductive Call where
  /-- Looks at the next character. -/
  | peek
  /-- Looks at the next character and at the one after it. -/
  | peekSecond
  /-- Takes the next character. -/
  | next
deriving DecidableEq, Repr

namespace Call

/-- Makes a call. -/
def run (r : Reader) : Call → Except ReadFailure (Option Char) × Reader
  | peek => r.peek
  | peekSecond => r.peekSecond
  | next => r.next

/-- The character that a call takes, if it takes one. -/
def taken (r : Reader) : Call → Option Char
  | next => r.next.1.toOption.join
  | _ => none

/-- The reader behind some calls. -/
def after (r : Reader) : List Call → Reader
  | [] => r
  | call :: calls => after (call.run r).2 calls

/-- The characters that calls take, in order. -/
def takenBy (r : Reader) : List Call → List Char
  | [] => []
  | call :: calls => (call.taken r).toList ++ takenBy (call.run r).2 calls

/-- What a call returns in front of a text: the next character, or the one after it if both are on
the same line. -/
def returns (behind : List Char) : Call → Option Char
  | peekSecond =>
    match behind with
    | c :: d :: _ => if c = '\n' then none else some d
    | _ => none
  | _ => behind.head?

/-- How many characters of a text calls have looked at. Every call looks at the one behind those
that the calls before it have taken. -/
def seen (calls : List Call) : Nat :=
  if calls = [] then 0 else calls.dropLast.count next + 1

/-- Calls are made one after the other. -/
theorem after_append (r : Reader) (calls calls' : List Call) :
    after r (calls ++ calls') = after (after r calls) calls' := by
  induction calls generalizing r with
  | nil => rfl
  | cons call calls ih => exact ih (call.run r).2

/-- The characters of calls are taken in the order of the calls. -/
theorem takenBy_append (r : Reader) (calls calls' : List Call) :
    takenBy r (calls ++ calls') = takenBy r calls ++ takenBy (after r calls) calls' := by
  induction calls generalizing r with
  | nil => rfl
  | cons call calls ih =>
    rw [List.cons_append, takenBy, takenBy, ih, List.append_assoc]
    rfl

/-- The last call looks at the character behind those that were taken before. -/
theorem seen_concat (calls : List Call) (call : Call) :
    seen (calls ++ [call]) = calls.count next + 1 := by
  rw [seen, if_neg (List.append_ne_nil_of_right_ne_nil calls (List.cons_ne_nil call [])),
    List.dropLast_concat]

/-- No call looks further than at the character behind those that were taken. -/
theorem seen_le (calls : List Call) : seen calls ≤ calls.count next + 1 := by
  rw [seen]
  split
  · exact Nat.zero_le _
  · exact Nat.add_le_add_right ((List.dropLast_sublist calls).count_le next) 1

end Call

/-! ## The invariant -/

/-- The reader has handed out `taken` characters of a text, as far as there are that many, and the
first `seen` characters have been looked at. -/
structure Follows (r : Reader) (text : List Char) (taken seen : Nat) : Prop
    extends r.Stands (text.take taken) (text.drop taken) where
  /-- The loaded lines are followed by those that were not loaded, of which nothing was seen. -/
  lines_eq : ∃ lines, r.ahead = ⟨lines.map Line.ofChars, .endOfInput⟩ ∧
    Source.textLines text = r.loaded.reverse ++ lines ∧ (lines ≠ [] → seen ≤ r.loadedText.length)
  /-- What is loaded was handed out or is pending. -/
  loadedText_eq : r.loadedText = text.take taken ++ r.pending
  /-- The last loaded line was seen. -/
  last_seen : ∀ line others, r.loaded = line :: others → others.reverse.flatten.length < seen
  /-- Pending is part of one line. -/
  newline_notMem : '\n' ∉ r.pending.dropLast

variable {r : Reader} {text : List Char} {taken seen : Nat}

/-- A reader over a text has handed out nothing and looked at nothing. -/
theorem follows_ofSource (text : List Char) :
    (ofSource (Source.ofChars text)).Follows text 0 0 where
  toStands := stands_ofSource text
  lines_eq := ⟨Source.textLines text, Source.ofChars_eq text, rfl, fun _ => Nat.zero_le _⟩
  loadedText_eq := rfl
  last_seen := by
    intro line others hloaded
    contradiction
  newline_notMem := List.not_mem_nil

/-- What is loaded is followed by the lines that were not loaded. -/
theorem Follows.exists_rest (h : r.Follows text taken seen) :
    ∃ lines, r.ahead = ⟨lines.map Line.ofChars, .endOfInput⟩ ∧
      Source.textLines text = r.loaded.reverse ++ lines ∧
      text.take taken ++ (r.pending ++ lines.flatten) = text ∧
      (lines ≠ [] → seen ≤ r.loadedText.length) := by
  obtain ⟨lines, hahead, hlines, hhold⟩ := h.lines_eq
  refine ⟨lines, hahead, hlines, ?_, hhold⟩
  rw [← List.append_assoc, ← h.loadedText_eq, loadedText, ← List.flatten_append, ← hlines,
    Source.flatten_textLines]

/-- If something follows the characters that were taken, there are as many as were asked for. -/
theorem length_take_of_append {rest : List Char} (h : text.take taken ++ rest = text)
    (hne : rest ≠ []) : (text.take taken).length = taken := by
  have hlength := congrArg List.length h
  have hpos := List.length_pos_iff.mpr hne
  rw [List.length_append, List.length_take] at hlength
  rw [List.length_take]
  omega

/-- To see more that is loaded, or to look beyond the end, changes nothing. -/
theorem Follows.mono {k : Nat} (h : r.Follows text taken seen) (hle : seen ≤ k)
    (hhold : k ≤ r.loadedText.length ∨ r.ahead.lines = []) : r.Follows text taken k := by
  obtain ⟨lines, hahead, hlines, -⟩ := h.lines_eq
  refine ⟨h.toStands, ⟨lines, hahead, hlines, fun hne => ?_⟩, h.loadedText_eq,
    fun line others heq => Nat.lt_of_lt_of_le (h.last_seen line others heq) hle, h.newline_notMem⟩
  refine hhold.resolve_right ?_
  rw [hahead]
  exact mt List.map_eq_nil_iff.mp hne

/-- A character that is looked at is loaded with its line. -/
theorem Follows.fill (h : r.Follows text taken seen) (hseen : seen ≤ taken + 1) :
    ∃ r', r.fill = (.ok (), r') ∧ r'.Faces (text.take taken) (text.drop taken) ∧
      r'.Follows text taken (taken + 1) := by
  obtain ⟨r', hfill, hfaces⟩ := h.toStands.fill
  refine ⟨r', hfill, hfaces, ?_⟩
  obtain ⟨lines, hahead, hlines, htext, -⟩ := h.exists_rest
  have hlength : r.pending ++ lines.flatten ≠ [] → (text.take taken).length = taken :=
    length_take_of_append htext
  unfold Reader.fill at hfill
  cases hpending : r.pending with
  | cons c others =>
    rw [hpending] at hfill
    obtain rfl : r = r' := (Prod.mk.inj hfill).2
    refine h.mono hseen (Or.inl ?_)
    rw [h.loadedText_eq, List.length_append, hlength (by simp [hpending]), hpending,
      List.length_cons]
    omega
  | nil =>
    rw [hpending, hahead] at hfill
    cases lines with
    | nil =>
      obtain rfl : r = r' := (Prod.mk.inj hfill).2
      exact h.mono hseen (Or.inr (by rw [hahead, List.map_nil]))
    | cons line lines =>
      have hmem : line ∈ Source.textLines text := by
        rw [hlines]
        exact List.mem_append_right _ List.mem_cons_self
      obtain ⟨hne, hnewline⟩ := Source.of_mem_textLines hmem
      obtain ⟨c, others, rfl⟩ := List.exists_cons_of_ne_nil hne
      obtain rfl := (Prod.mk.inj hfill).2
      replace hlength := hlength (by simp)
      -- the line starts behind what was handed out
      have hstart : r.loaded.reverse.flatten = text.take taken := by
        have hloaded := h.loadedText_eq
        rwa [loadedText, hpending, List.append_nil] at hloaded
      have hnew : ((c :: others) :: r.loaded).reverse.flatten = text.take taken ++ c :: others := by
        rw [List.reverse_cons, List.flatten_append, hstart, List.flatten_singleton]
      refine ⟨hfaces.toStands, ⟨lines, rfl, ?_, fun _ => ?_⟩, hnew, ?_, hnewline⟩
      · rw [hlines, List.reverse_cons, List.append_assoc, List.singleton_append]
      · rw [loadedText, hnew, List.length_append, hlength, List.length_cons]
        omega
      · rintro _ _ heq
        obtain ⟨-, rfl⟩ := List.cons.inj heq
        rw [hstart, hlength]
        exact Nat.lt_succ_self taken

/-- Handing out a character moves the reader by one, unless the text is used up. -/
theorem Follows.advance (h : r.Follows text taken seen)
    (hfaces : r.Faces (text.take taken) (text.drop taken)) :
    r.advance.Follows text (taken + 1) seen := by
  cases hbehind : text.drop taken with
  | nil =>
    have hle : text.length ≤ taken := List.drop_eq_nil_iff.mp hbehind
    have htake : text.take (taken + 1) = text.take taken := by
      rw [List.take_of_length_le hle, List.take_of_length_le (Nat.le_succ_of_le hle)]
    have hdrop : text.drop (taken + 1) = text.drop taken := by
      rw [hbehind, List.drop_eq_nil_iff]
      exact Nat.le_succ_of_le hle
    have hadvance : r.advance = r := by
      rw [hbehind] at hfaces
      rw [Reader.advance, hfaces.pending_nil]
    obtain ⟨hstands, hlines, hloaded, hlast, hnewline⟩ := h
    rw [hadvance]
    exact ⟨by rwa [htake, hdrop], hlines, by rwa [htake], hlast, hnewline⟩
  | cons c cs =>
    have htake : text.take (taken + 1) = text.take taken ++ [c] := by
      rw [List.take_add, hbehind]
      rfl
    have hdrop : text.drop (taken + 1) = cs := by
      rw [← List.drop_drop, hbehind]
      rfl
    have hstands : r.advance.Stands (text.take (taken + 1)) (text.drop (taken + 1)) := by
      rw [htake, hdrop]
      rw [hbehind] at hfaces
      exact hfaces.advance
    obtain ⟨others, hpending⟩ : ∃ others, r.pending = c :: others := by
      rw [hbehind] at hfaces
      exact hfaces.pending_cons
    obtain ⟨-, hlines, hloaded, hlast, hnewline⟩ := h
    rw [hpending] at hloaded hnewline
    have hadvance : r.advance = ⟨others, r.offset + c.utf8Size,
        if c = '\n' then r.line + 1 else r.line, r.loaded, r.ahead⟩ := by
      rw [Reader.advance, hpending]
    rw [hadvance] at hstands ⊢
    refine ⟨hstands, hlines, ?_, hlast, ?_⟩
    · rw [htake, List.append_assoc]
      exact hloaded
    · exact fun hmem => hnewline (by
        cases others with
        | nil => contradiction
        | cons d others => exact List.mem_cons_of_mem c hmem)

/-- A newline is the last of what is pending, and what is pending ends in one unless it is the last
of the text. -/
theorem Follows.head?_tail_pending (h : r.Follows text taken seen)
    (hfaces : r.Faces (text.take taken) (text.drop taken)) :
    r.pending.tail.head? = Call.peekSecond.returns (text.drop taken) := by
  obtain ⟨rest, -, hbehind, hlast⟩ := hfaces.pending_eq
  have hnewline := h.newline_notMem
  cases hpending : r.pending with
  | nil =>
    have hnil : text.drop taken = [] :=
      Classical.byContradiction fun hne => hfaces.pending_ne_nil hne hpending
    rw [hnil]
    rfl
  | cons c others =>
    rw [hpending] at hbehind hlast hnewline
    rw [hbehind]
    cases others with
    | nil =>
      cases rest with
      | nil => rfl
      | cons d rest =>
        obtain rfl : c = '\n' := by simpa using hlast
        rfl
    | cons d others =>
      have hc : c ≠ '\n' := by
        rintro rfl
        exact hnewline List.mem_cons_self
      exact (if_neg hc).symm

/-- What one call returns, and where it leaves the reader. -/
theorem Follows.run (h : r.Follows text taken seen) (hseen : seen ≤ taken + 1) (call : Call) :
    (call.run r).1 = .ok (call.returns (text.drop taken)) ∧
      (call.run r).2.Follows text (taken + [call].count .next) (taken + 1) := by
  obtain ⟨r', hfill, hfaces, hfollows⟩ := h.fill hseen
  cases call with
  | peek =>
    have hrun : Call.peek.run r = (.ok r'.pending.head?, r') := by
      rw [Call.run, Reader.peek, hfill]
    rw [hrun, hfaces.head?_pending]
    exact ⟨rfl, hfollows⟩
  | peekSecond =>
    have hrun : Call.peekSecond.run r = (.ok r'.pending.tail.head?, r') := by
      rw [Call.run, Reader.peekSecond, hfill]
    rw [hrun, hfollows.head?_tail_pending hfaces]
    exact ⟨rfl, hfollows⟩
  | next =>
    have hrun : Call.next.run r = (.ok r'.pending.head?, r'.advance) := by
      rw [Call.run, Reader.next, hfill]
    rw [hrun, hfaces.head?_pending]
    exact ⟨rfl, hfollows.advance hfaces⟩

/-! ## Runs -/

/-- Calls leave the reader behind the characters that they take. -/
theorem follows_after (text : List Char) (calls : List Call) :
    (Call.after (ofSource (Source.ofChars text)) calls).Follows text (calls.count .next)
        (Call.seen calls) ∧
      Call.takenBy (ofSource (Source.ofChars text)) calls = text.take (calls.count .next) := by
  induction calls using List.reverseRecOn with
  | nil => exact ⟨follows_ofSource text, rfl⟩
  | append_singleton calls call ih =>
    obtain ⟨hfollows, htaken⟩ := ih
    obtain ⟨hreturns, hafter⟩ := hfollows.run (Call.seen_le calls) call
    rw [Call.after_append, Call.takenBy_append, Call.seen_concat, List.count_append]
    refine ⟨hafter, ?_⟩
    rw [htaken, Call.takenBy, Call.takenBy, List.append_nil]
    cases call with
    | peek => exact List.append_nil _
    | peekSecond => exact List.append_nil _
    | next =>
      have hnext : Call.next.taken (Call.after (ofSource (Source.ofChars text)) calls) =
          text[calls.count .next]? := by
        rw [Call.taken, ← List.head?_drop]
        exact congrArg (fun result => result.toOption.join) hreturns
      rw [hnext]
      exact List.take_add_one.symm

/-- The loaded text is that of the lines that were looked at. -/
theorem Follows.loadedText_eq_linesHolding (h : r.Follows text taken seen) :
    r.loadedText = (Source.linesHolding seen (Source.textLines text)).flatten := by
  obtain ⟨lines, -, hlines, hhold⟩ := h.lines_eq
  rw [loadedText, hlines, Source.linesHolding_append]
  · intro front line hfront
    have hlast := h.last_seen line front.reverse (by rw [← List.reverse_inj, hfront]; simp)
    rwa [List.reverse_reverse] at hlast
  · exact hhold

/-- Calls on a reader of a text take its characters in order, and then none. Any further call
returns the next character, or the one after it on the same line, as they stand in the text. The
offset and the line are those behind the characters that were taken, so looking at characters does
not change them. And what is loaded are the first lines of the text, up to the last one that was
looked at. -/
theorem calls_hand_out_text (text : List Char) (calls : List Call) :
    let start := ofSource (.ofBytes (Bytes.encode text) none)
    let r := Call.after start calls
    let taken := calls.count .next
    Call.takenBy start calls = text.take taken ∧
      (∀ call : Call, (call.run r).1 = .ok (call.returns (text.drop taken))) ∧
      r.offset = (Bytes.encode (text.take taken)).length ∧
      r.line = 1 + (text.take taken).count '\n' ∧
      (∀ call : Call, call ≠ .next → (call.run r).2.offset = r.offset ∧
        (call.run r).2.line = r.line) ∧
      r.loadedText = (Source.linesHolding (Call.seen calls) (Source.textLines text)).flatten := by
  intro start r taken
  have hstart : start = ofSource (Source.ofChars text) :=
    congrArg ofSource (Source.ofBytes_of_decode? (Source.decode?_encode text))
  obtain ⟨hfollows, htaken⟩ := follows_after text calls
  rw [← hstart] at hfollows htaken
  have hrun := hfollows.run (Call.seen_le calls)
  refine ⟨htaken, fun call => (hrun call).1, ?_, hfollows.line_eq, ?_,
    hfollows.loadedText_eq_linesHolding⟩
  · rw [Bytes.length_encode]
    exact hfollows.offset_eq
  · intro call hcall
    have hafter := (hrun call).2
    rw [List.count_singleton, beq_false_of_ne hcall] at hafter
    exact ⟨hafter.offset_eq.trans hfollows.offset_eq.symm,
      hafter.line_eq.trans hfollows.line_eq.symm⟩

/-- A second look does not reach over the end of a line, even where the next line is empty. After
the end there is nothing to take, and the last line has no newline. -/
theorem calls_hand_out_text_with_empty_line :
    let text := ['é', '\n', '\n', 'x']
    let start := ofSource (.ofBytes (Bytes.encode text) none)
    let r := Call.after start [.next, .peekSecond]
    (Call.peekSecond.run r).1 = .ok none ∧ r.offset = 2 ∧ r.line = 1 ∧
      (Call.peek.run r).2.offset = r.offset ∧ r.loadedText = ['é', '\n'] ∧
      Call.takenBy start [.next, .next, .next, .peek, .next, .next] = text := by
  intro text start r
  obtain ⟨-, hreturns, hoffset, hline, hlooks, hloaded⟩ :=
    calls_hand_out_text text [.next, .peekSecond]
  refine ⟨hreturns .peekSecond, ?_, hline, (hlooks .peek (by decide)).1, ?_,
    (calls_hand_out_text text [.next, .next, .next, .peek, .next, .next]).1⟩
  · rw [hoffset]
    decide
  · rw [hloaded]
    decide

end Reader

end CommandTree
