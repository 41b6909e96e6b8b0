import CommandTree.Token.Trivia

/-!
# Bare words

A bare word is a run of printable ASCII without braces, semicolons and double quotes. It also ends
where a comment starts, so `a//b` is the word `a` before a comment.
-/

set_option autoImplicit false

namespace CommandTree.Word

/-- The characters that need no quotes. -/
def isWordChar (c : Char) : Bool :=
  '!' ≤ c && c ≤ '~' && c != '{' && c != '}' && c != ';' && c != '"'

/-- Whether the characters at hand carry a bare word on. -/
def continues (cs : List Char) : Bool :=
  cs.head?.any isWordChar && !Trivia.startsComment cs

/-- Reads the rest of a bare word whose first characters, latest first, are `read`. -/
def readRest (read : List Char) (r : Reader) : Except ReadFailure (List Char) × Reader :=
  match _h : r.fill with
  | (.error e, r') => (.error e, r')
  | (.ok (), r') =>
    match _hp : r'.pending with
    | [] => (.ok read.reverse, r')
    | c :: rest =>
      if continues (c :: rest) then readRest (c :: read) r'.advance else (.ok read.reverse, r')
termination_by r.size
decreasing_by
  exact Nat.lt_of_lt_of_le (Reader.size_advance_lt (by simp [_hp])) (Reader.size_fill_le_of_eq _h)

/-- Reads a bare word. Its first character is tested like every other. -/
def read (r : Reader) : Except ReadFailure (List Char) × Reader := readRest [] r

/-- A character that carries the word on is passed and belongs to the word. -/
theorem readRest_of_continues {r r' : Reader} {c : Char} (read : List Char)
    (h : r.fill = (.ok (), r')) (hp : r'.pending.head? = some c)
    (hc : continues r'.pending = true) :
    readRest read r = readRest (c :: read) r'.advance := by
  rw [readRest]
  split
  · simp_all
  · rename_i q hq
    obtain rfl : r' = q := by simpa [h] using hq
    split <;> simp_all

/-- Reading the rest of a word leaves no more to come than before. -/
theorem size_readRest_le (read : List Char) (r : Reader) :
    (readRest read r).2.size ≤ r.size := by
  fun_induction readRest read r with
  | case1 _ r e r' h => exact Reader.size_fill_le_of_eq h
  | case2 _ r r' h hp => exact Reader.size_fill_le_of_eq h
  | case3 _ r r' h c rest hp hc ih =>
    exact Nat.le_trans ih (Nat.le_trans (Reader.size_advance_le r') (Reader.size_fill_le_of_eq h))
  | case4 _ r r' h c rest hp hc => exact Reader.size_fill_le_of_eq h

/-- Reading a word leaves no more to come than before, also where no word stands. -/
theorem size_read_le (r : Reader) : (read r).2.size ≤ r.size := size_readRest_le [] r

/-- A pending character that passes the test is the first one of the word. -/
theorem read_of_continues {r : Reader} {c : Char} {rest : List Char} (hp : r.pending = c :: rest)
    (hc : continues (c :: rest) = true) : read r = readRest [c] r.advance :=
  readRest_of_continues [] (Reader.fill_of_pending (by simp [hp])) (by simp [hp]) (by rw [hp, hc])

/-- A word that the pending character starts takes at least that character. -/
theorem size_read_lt {r : Reader} {c : Char} {rest : List Char} (hp : r.pending = c :: rest)
    (hc : continues (c :: rest) = true) : (read r).2.size < r.size := by
  rw [read_of_continues hp hc]
  exact Nat.lt_of_le_of_lt (size_readRest_le [c] r.advance) (Reader.size_advance_lt (by simp [hp]))

end CommandTree.Word
