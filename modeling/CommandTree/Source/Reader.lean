import CommandTree.Source

/-!
# Reading a source character by character

A reader hands out the characters of a source in order and lets its user look at the next one
and, on the same line, at the one after it. It takes a new line from the source only when a
character of it is asked for, so the text loaded so far is all that a diagnostic may show.

A line that is not UTF-8 is dropped with a failure, and reading goes on behind it. When the
medium fails in the middle of a line, the remainder becomes readable although the attempt
failed; it is never counted as loaded.

`Reader.size` bounds what is still to come. No operation enlarges it, and handing out a character
makes it smaller, which is why every loop over a reader ends.
-/

set_option autoImplicit false

namespace CommandTree

/-- Why a source could not be read on. -/
inductive ReadFailure where
  /-- The bytes of the next line are not UTF-8. -/
  | notUtf8
  /-- The medium failed. -/
  | medium (message : String)
deriving DecidableEq, Repr

namespace ReadFailure

/-- What the system says about the failure. -/
def message : ReadFailure → String
  | notUtf8 => "stream did not contain valid UTF-8"
  | medium text => text

end ReadFailure

/-- A position in a source together with what lies ahead and what was loaded. -/
structure Reader where
  /-- The characters of the current line that were not handed out yet. -/
  pending : List Char
  /-- The number of bytes handed out. -/
  offset : Nat
  /-- One more than the number of newlines handed out. -/
  line : Nat
  /-- The lines loaded so far, the latest first. -/
  loaded : List (List Char)
  /-- The lines that were not loaded yet. -/
  ahead : Source
deriving Repr

namespace Reader

/-- A reader at the start of a source. -/
def ofSource (source : Source) : Reader := ⟨[], 0, 1, [], source⟩

/-- All text loaded so far: whole lines, of which the last may not be handed out entirely. -/
def loadedText (r : Reader) : List Char := r.loaded.reverse.flatten

/-- Makes the next character available, loading a line if the current one is used up. On success
nothing is pending only at the end of input. -/
def fill (r : Reader) : Except ReadFailure Unit × Reader :=
  match r.pending, r.ahead with
  | _ :: _, _ => (.ok (), r)
  | [], ⟨.text first others :: lines, ending⟩ =>
    (.ok (), { r with
      pending := first :: others
      loaded := (first :: others) :: r.loaded
      ahead := ⟨lines, ending⟩ })
  | [], ⟨.undecodable :: lines, ending⟩ =>
    (.error .notUtf8, { r with ahead := ⟨lines, ending⟩ })
  | [], ⟨[], .endOfInput⟩ => (.ok (), r)
  | [], ⟨[], .failure remainder message⟩ =>
    (.error (.medium message), { r with
      pending := remainder
      ahead := ⟨[], .failure [] message⟩ })

/-- Hands out the first pending character, if there is one. -/
def advance (r : Reader) : Reader :=
  match r.pending with
  | [] => r
  | c :: rest =>
    { r with
      pending := rest
      offset := r.offset + c.utf8Size
      line := if c = '\n' then r.line + 1 else r.line }

/-- The next character, which stays in place; none at the end of input. -/
def peek (r : Reader) : Except ReadFailure (Option Char) × Reader :=
  match r.fill with
  | (.ok (), r) => (.ok r.pending.head?, r)
  | (.error e, r) => (.error e, r)

/-- The character after the next one, if both are on the same line. -/
def peekSecond (r : Reader) : Except ReadFailure (Option Char) × Reader :=
  match r.fill with
  | (.ok (), r) => (.ok r.pending.tail.head?, r)
  | (.error e, r) => (.error e, r)

/-- Hands out the next character; none at the end of input. -/
def next (r : Reader) : Except ReadFailure (Option Char) × Reader :=
  match r.fill with
  | (.ok (), r) => (.ok r.pending.head?, r.advance)
  | (.error e, r) => (.error e, r)

end Reader

/-! ### What is still to come -/

/-- A line counts for as many steps as it takes to get past it. -/
def Line.size : Line → Nat
  | .text _ others => others.length + 1
  | .undecodable => 1

/-- The remainder before a failure can still be handed out. -/
def Ending.size : Ending → Nat
  | .endOfInput => 0
  | .failure remainder _ => remainder.length

/-- The steps it takes to get past lines. -/
def Line.sizeAll : List Line → Nat
  | [] => 0
  | l :: lines => l.size + sizeAll lines

/-- A bound on the steps it takes to get through a source. -/
def Source.size (s : Source) : Nat := Line.sizeAll s.lines + s.ending.size

/-- A bound on the characters that are still to come. -/
def Reader.size (r : Reader) : Nat := r.pending.length + r.ahead.size

namespace Reader

/-- While characters of the current line are left nothing is loaded. -/
theorem fill_of_pending {r : Reader} (h : r.pending ≠ []) : r.fill = (.ok (), r) := by
  obtain ⟨c, rest, hp⟩ := List.exists_cons_of_ne_nil h
  unfold fill
  rw [hp]

/-- Making a character available leaves no more to come than before. -/
theorem size_fill_le (r : Reader) : r.fill.2.size ≤ r.size := by
  rcases r with ⟨pending, offset, line, loaded, ⟨lines, ending⟩⟩
  cases pending with
  | cons c rest => exact Nat.le_refl _
  | nil =>
    cases lines with
    | cons l lines =>
      cases l with
      | text first others =>
        simp [fill, size, Source.size, Line.sizeAll, Line.size]
        omega
      | undecodable => simp [fill, size, Source.size, Line.sizeAll, Line.size]
    | nil => cases ending <;> simp [fill, size, Source.size, Line.sizeAll, Ending.size]

/-- If making a character available leads from `r` to `r'`, then no more is to come from `r'` than
from `r`. -/
theorem size_fill_le_of_eq {r r' : Reader} {x : Except ReadFailure Unit}
    (h : r.fill = (x, r')) : r'.size ≤ r.size := by
  have := size_fill_le r
  rwa [h] at this

/-- Passing a character leaves no more to come than before. -/
theorem size_advance_le (r : Reader) : r.advance.size ≤ r.size := by
  unfold advance
  split
  · exact Nat.le_refl _
  · rename_i h
    simp [size, h]

/-- Passing a character that is pending leaves less to come. -/
theorem size_advance_lt {r : Reader} (h : r.pending ≠ []) : r.advance.size < r.size := by
  unfold advance
  split
  · contradiction
  · rename_i h
    simp [size, h]

/-- Looking at the next character leaves no more to come than before. -/
theorem size_peek_le (r : Reader) : r.peek.2.size ≤ r.size := by
  have h := size_fill_le r
  unfold peek
  split <;> simp_all

/-- Handing out a character leaves no more to come than before, even if it fails. -/
theorem size_next_le (r : Reader) : r.next.2.size ≤ r.size := by
  have h := size_fill_le r
  unfold next
  split <;> rename_i q hq <;> rw [hq] at h
  · exact Nat.le_trans (size_advance_le q) h
  · exact h

/-- Handing out a character leaves less to come. -/
theorem size_next_lt {r r' : Reader} {c : Char} (h : r.next = (.ok (some c), r')) :
    r'.size < r.size := by
  have hle := size_fill_le r
  unfold next at h
  split at h
  · rename_i q hq
    rw [hq] at hle
    simp only [Prod.mk.injEq, Except.ok.injEq] at h
    obtain ⟨hc, rfl⟩ := h
    have hne : q.pending ≠ [] := by
      intro hnil
      simp [hnil] at hc
    exact Nat.lt_of_lt_of_le (size_advance_lt hne) hle
  · simp at h

/-- If a look leads from `r` to `r'`, then no more is to come from `r'` than from `r`. -/
theorem size_peek_le_of_eq {r r' : Reader} {x : Except ReadFailure (Option Char)}
    (h : r.peek = (x, r')) : r'.size ≤ r.size := by
  have := size_peek_le r
  rwa [h] at this

end Reader

end CommandTree
