import CommandTree.Token.Word

/-!
# Quoted words

A word between double quotes may hold any text. A backslash starts an escape: a letter for a
control character, one to three octal digits for a character up to U+00FF, or the character that
follows, taken as it is. A newline or a carriage return that is not escaped ends the word as the
closing quote does, but is not part of it.

`Quoted.write` is the other direction: it leaves a word bare when it would be read back as that
single word, and otherwise quotes it with the fewest escapes.
-/

set_option autoImplicit false

namespace CommandTree.Quoted

/-- The control characters that have a letter of their own after a backslash. -/
def controlOfLetter : Char → Option Char
  | 'a' => some '\x07'
  | 'b' => some '\x08'
  | 'f' => some '\x0c'
  | 'n' => some '\n'
  | 'r' => some '\r'
  | 't' => some '\t'
  | 'v' => some '\x0b'
  | _ => none

/-- The value of an octal digit. -/
def octalDigit? (c : Char) : Option Nat :=
  if '0' ≤ c ∧ c ≤ '7' then some (c.toNat - '0'.toNat) else none

/-- Reads up to `count` more octal digits of a number that starts with `value`. -/
def readOctal : (count : Nat) → (value : Nat) → Reader → Except ReadFailure Nat × Reader
  | 0, value, r => (.ok value, r)
  | count + 1, value, r =>
    match r.fill with
    | (.error e, r') => (.error e, r')
    | (.ok (), r') =>
      match r'.pending.head?.bind octalDigit? with
      | some digit => readOctal count (value * 8 + digit) r'.advance
      | none => (.ok value, r')

/-- The number of digits that may follow the first digit of an octal escape, so that no escape
goes beyond U+00FF. -/
def octalDigitsAfter (first : Nat) : Nat := if first ≤ 3 then 2 else 1

/-- Reads what follows a backslash; at the end of input there is nothing, and nothing results. -/
def readEscape (r : Reader) : Except ReadFailure (Option Char) × Reader :=
  match r.next with
  | (.error e, r') => (.error e, r')
  | (.ok none, r') => (.ok none, r')
  | (.ok (some c), r') =>
    match octalDigit? c with
    | some digit =>
      match readOctal (octalDigitsAfter digit) digit r' with
      | (.error e, r'') => (.error e, r'')
      | (.ok value, r'') => (.ok (some (Char.ofNat value)), r'')
    | none => (.ok (some ((controlOfLetter c).getD c)), r')

/-- The characters that end a quoted word without belonging to it. -/
def isLineEnd (c : Char) : Bool := c == '\n' || c == '\r'

/-- Reading octal digits leaves no more to come than before. -/
theorem size_readOctal_le (count value : Nat) (r : Reader) :
    (readOctal count value r).2.size ≤ r.size := by
  fun_induction readOctal count value r with
  | case1 value r => exact Nat.le_refl _
  | case2 value r count e r' h => exact Reader.size_fill_le_of_eq h
  | case3 value r count r' h digit hd ih =>
    exact Nat.le_trans ih (Nat.le_trans (Reader.size_advance_le r') (Reader.size_fill_le_of_eq h))
  | case4 value r count r' h hd => exact Reader.size_fill_le_of_eq h

/-- If reading octal digits leads from `r` to `r'`, then no more is to come from `r'` than from
`r`. -/
theorem size_readOctal_le_of_eq {count value : Nat} {r r' : Reader}
    {x : Except ReadFailure Nat} (h : readOctal count value r = (x, r')) : r'.size ≤ r.size := by
  have := size_readOctal_le count value r
  rwa [h] at this

/-- Reading what is behind a backslash leaves no more to come than before. -/
theorem size_readEscape_le (r : Reader) : (readEscape r).2.size ≤ r.size := by
  have hn := Reader.size_next_le r
  unfold readEscape
  split <;> rename_i h <;> simp only [h] at hn
  · exact hn
  · exact hn
  · split
    · split <;> rename_i h'
      · exact Nat.le_trans (size_readOctal_le_of_eq h') hn
      · exact Nat.le_trans (size_readOctal_le_of_eq h') hn
    · exact hn

/-- If reading an escape leads from `r` to `r'`, then no more is to come from `r'` than from `r`. -/
theorem size_readEscape_le_of_eq {r r' : Reader} {x : Except ReadFailure (Option Char)}
    (h : readEscape r = (x, r')) : r'.size ≤ r.size := by
  have := size_readEscape_le r
  rwa [h] at this

/-- Reads the rest of a quoted word whose first characters, latest first, are `read`. -/
def readRest (read : List Char) (r : Reader) : Except ReadFailure (List Char) × Reader :=
  match _h : r.fill with
  | (.error e, r') => (.error e, r')
  | (.ok (), r') =>
    match _hp : r'.pending with
    | [] => (.ok read.reverse, r')
    | c :: _ =>
      if c = '"' then (.ok read.reverse, r'.advance)
      else if isLineEnd c then (.ok read.reverse, r')
      else if c = '\\' then
        match _he : readEscape r'.advance with
        | (.error e, r'') => (.error e, r'')
        | (.ok none, r'') => readRest read r''
        | (.ok (some decoded), r'') => readRest (decoded :: read) r''
      else readRest (c :: read) r'.advance
termination_by r.size
decreasing_by
  all_goals
    have hlt : r'.advance.size < r'.size := Reader.size_advance_lt (by simp [_hp])
    have hle := Reader.size_fill_le_of_eq _h
  · exact Nat.lt_of_le_of_lt (size_readEscape_le_of_eq _he) (Nat.lt_of_lt_of_le hlt hle)
  · exact Nat.lt_of_le_of_lt (size_readEscape_le_of_eq _he) (Nat.lt_of_lt_of_le hlt hle)
  · exact Nat.lt_of_lt_of_le hlt hle

/-- Reads a quoted word whose opening quote is the pending character. -/
def read (r : Reader) : Except ReadFailure (List Char) × Reader := readRest [] r.advance

/-- Reading the rest of a quoted word leaves no more to come than before. -/
theorem size_readRest_le (read : List Char) (r : Reader) :
    (readRest read r).2.size ≤ r.size := by
  fun_induction readRest read r with
  | case1 _ r e r' h => exact Reader.size_fill_le_of_eq h
  | case2 _ r r' h hp => exact Reader.size_fill_le_of_eq h
  | case3 _ r r' h rest hp =>
    exact Nat.le_trans (Reader.size_advance_le r') (Reader.size_fill_le_of_eq h)
  | case4 _ r r' h c rest hp hq hl => exact Reader.size_fill_le_of_eq h
  | case5 _ r r' =>
    exact Nat.le_trans (size_readEscape_le_of_eq ‹_›)
      (Nat.le_trans (Reader.size_advance_le r') (Reader.size_fill_le_of_eq ‹_›))
  | case6 _ r r' _ _ _ _ _ _ _ ih =>
    exact Nat.le_trans ih (Nat.le_trans (size_readEscape_le_of_eq ‹_›)
      (Nat.le_trans (Reader.size_advance_le r') (Reader.size_fill_le_of_eq ‹_›)))
  | case7 _ r r' _ _ _ _ _ _ _ _ ih =>
    exact Nat.le_trans ih (Nat.le_trans (size_readEscape_le_of_eq ‹_›)
      (Nat.le_trans (Reader.size_advance_le r') (Reader.size_fill_le_of_eq ‹_›)))
  | case8 _ r r' h c rest hp hq hl hb ih =>
    exact Nat.le_trans ih (Nat.le_trans (Reader.size_advance_le r') (Reader.size_fill_le_of_eq h))

/-- Reading a quoted word takes its opening quote at least. -/
theorem size_read_le (r : Reader) : (read r).2.size ≤ r.advance.size :=
  size_readRest_le [] r.advance

/-! ### Writing -/

/-- Whether a comment starts anywhere in a text. -/
def holdsComment : List Char → Bool
  | [] => false
  | c :: cs => Trivia.startsComment (c :: cs) || holdsComment cs

/-- Whether a text is a word without quotes. -/
def isBare (cs : List Char) : Bool :=
  !cs.isEmpty && cs.all Word.isWordChar && !holdsComment cs

/-- The written form of one character between quotes. -/
def escape (c : Char) : List Char :=
  if c = '"' then ['\\', '"']
  else if c = '\\' then ['\\', '\\']
  else if c = '\n' then ['\\', 'n']
  else if c = '\r' then ['\\', 'r']
  else if c = '\t' then ['\\', 't']
  else [c]

/-- The characters of a word as written in a command file. -/
def writeChars (cs : List Char) : List Char :=
  if isBare cs then cs else '"' :: cs.flatMap escape ++ ['"']

/-- A word as written in a command file: bare if possible, else quoted. -/
def write (word : String) : String := String.ofList (writeChars word.toList)

end CommandTree.Quoted
