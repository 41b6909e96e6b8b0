import CommandTree.Yaml.YamlText

/-!
# Scalars of YAML text

A scalar is written without quotes, in quotes of one of two kinds, or as a block of lines. In the
first three styles a scalar may go on over several lines: the blanks around a line break do not
count, a single line break stands for a space, and of several line breaks the first does not
count. A block scalar keeps its lines and either keeps its line breaks or folds them in the same
way, except around lines that start with a blank; what becomes of the line breaks at its end is
said in front of it.

Every reader here consumes at least one character of what it reads and leaves the rest, which is
why no reader of a text can go on forever.
-/

set_option autoImplicit false

namespace CommandTree

/-- How a scalar is written. -/
inductive ScalarStyle where
  /-- Without quotes. -/
  | plain
  /-- In quotes of either kind. -/
  | quoted
  /-- As a block of lines. -/
  | literal
  /-- As a block of lines that are joined. -/
  | folded
deriving DecidableEq, Repr

namespace YamlText

/-! ### Gaps between words -/

/-- The blanks and line breaks between two words of a scalar, latest first. -/
inductive Gap where
  /-- Blanks within a line. -/
  | blanks (cs : List Char)
  /-- Line breaks. The first one is missing if it is escaped. -/
  | breaks (first : Option Char) (others : List Char)
deriving DecidableEq, Repr

namespace Gap

/-- Nothing between two characters. -/
def empty : Gap := blanks []

/-- Whether there is a line break. -/
def isBroken : Gap → Bool
  | blanks _ => false
  | breaks _ _ => true

/-- A gap with one more blank, which does not count behind a line break. -/
def addBlank (c : Char) : Gap → Gap
  | blanks cs => blanks (c :: cs)
  | breaks first others => breaks first others

/-- A gap with one more line break, in front of which blanks do not count. -/
def addBreak (c : Char) : Gap → Gap
  | blanks _ => breaks (some c) []
  | breaks first others => breaks first (c :: others)

/-- The characters that a gap stands for, latest first: a line feed before further line breaks
does not count, and a lone one stands for a space. -/
def folded : Gap → List Char
  | blanks cs => cs
  | breaks none others => others
  | breaks (some '\n') [] => [' ']
  | breaks (some '\n') others => others
  | breaks (some c) others => others ++ [c]

end Gap

/-! ### Plain scalars -/

/-- Whether a plain scalar may start with a character that the rest follows. -/
def startsPlain (inFlow : Bool) (c : Char) (rest : List Char) : Bool :=
  if c == '-' then !rest.head?.any isBlank
  else if c == '?' || c == ':' then !inFlow && !endsWord rest
  else !(isBlank c || isBreak c || isFlowIndicator c ||
    ['#', '&', '*', '!', '|', '>', '\x27', '"', '%', '@', '\x60'].contains c)

/-- Whether a plain scalar ends in front of a character that the rest follows, behind a gap. Outside
brackets it ends where a line does not reach its margin. -/
def endsPlain (inFlow : Bool) (margin : Nat) (gap : Gap) (p : Place) (c : Char)
    (rest : List Char) : Bool :=
  (c == '#' && gap != .empty) ||
    (gap.isBroken && !inFlow && p.column < margin) ||
    (p.column == 0 && startsWithDocumentMark (c :: rest)) ||
    (c == ':' && endsWord rest) ||
    (inFlow && isFlowIndicator c)

/-- Reads a plain scalar on: its characters, the gap behind it, and the rest. What is read already
is given latest first. Within brackets a colon may not stand in front of an indicator, and no tab
may stand before the margin of a further line. -/
def readPlain (inFlow : Bool) (margin : Nat) (read : List Char) (gap : Gap) (p : Place)
    (cs : List Char) : Option (List Char × Gap × Cursor) :=
  match cs with
  | [] => some (read.reverse, gap, ⟨p, []⟩)
  | c :: rest =>
    if isBlank c then
      if gap.isBroken && c == '\t' && p.column < margin then none
      else readPlain inFlow margin read (gap.addBlank c) (p.after c) rest
    else if isBreak c then readPlain inFlow margin read (gap.addBreak c) p.nextLine rest
    else if inFlow && c == ':' && rest.head?.any (fun n => isFlowIndicator n || n == '?') then none
    else if endsPlain inFlow margin gap p c rest then some (read.reverse, gap, ⟨p, c :: rest⟩)
    else readPlain inFlow margin (c :: (gap.folded ++ read)) .empty (p.after c) rest

/-- Reading a plain scalar leaves no more characters than before. -/
theorem length_readPlain_le {inFlow : Bool} {margin : Nat} {read cs text : List Char}
    {gap gap' : Gap} {p : Place} {c : Cursor}
    (h : readPlain inFlow margin read gap p cs = some (text, gap', c)) :
    c.rest.length ≤ cs.length := by
  fun_induction readPlain inFlow margin read gap p cs with
  | case1 =>
    obtain ⟨-, -, rfl⟩ : _ ∧ _ ∧ _ := by simpa using h
    exact Nat.le_refl _
  | case2 => simp at h
  | case3 _ _ _ _ _ _ _ ih => exact Nat.le_succ_of_le (ih h)
  | case4 _ _ _ _ _ _ _ ih => exact Nat.le_succ_of_le (ih h)
  | case5 => simp at h
  | case6 =>
    obtain ⟨-, -, rfl⟩ : _ ∧ _ ∧ _ := by simpa using h
    exact Nat.le_refl _
  | case7 _ _ _ _ _ _ _ _ _ ih => exact Nat.le_succ_of_le (ih h)

/-! ### Scalars in quotes -/

/-- The value of a hexadecimal number of a fixed number of digits, and what follows it. -/
def readHex : (count : Nat) → (value : Nat) → List Char → Option (Nat × List Char)
  | 0, value, cs => some (value, cs)
  | _ + 1, _, [] => none
  | count + 1, value, c :: cs =>
    match digitIn? 16 c with
    | some digit => readHex count (value * 16 + digit) cs
    | none => none

/-- Reading hexadecimal digits leaves no more characters than before. -/
theorem length_readHex_le {count value code : Nat} {cs rest : List Char}
    (h : readHex count value cs = some (code, rest)) : rest.length ≤ cs.length := by
  fun_induction readHex count value cs with
  | case1 => simp_all
  | case2 => simp at h
  | case3 _ _ _ _ _ _ ih => exact Nat.le_succ_of_le (ih h)
  | case4 => simp at h

/-- The number of hexadecimal digits that follow a letter after a backslash. -/
def hexLength? : Char → Option Nat
  | 'x' => some 2
  | 'u' => some 4
  | 'U' => some 8
  | _ => none

/-- The character that a letter after a backslash stands for. -/
def escaped? : Char → Option Char
  | '0' => some '\x00'
  | 'a' => some '\x07'
  | 'b' => some '\x08'
  | 't' => some '\t'
  | '\t' => some '\t'
  | 'n' => some '\n'
  | 'v' => some '\x0b'
  | 'f' => some '\x0c'
  | 'r' => some '\r'
  | 'e' => some '\x1b'
  | ' ' => some ' '
  | '"' => some '"'
  | '/' => some '/'
  | '\\' => some '\\'
  | 'N' => some '\u0085'
  | '_' => some '\u00a0'
  | 'L' => some '\u2028'
  | 'P' => some '\u2029'
  | _ => none

/-- A character that is written after a backslash, the number of characters that it is written in,
and what follows them. -/
def readEscape (cs : List Char) :
    Option (Char × Nat × { rest : List Char // rest.length ≤ cs.length }) :=
  match cs with
  | [] => none
  | c :: rest =>
    match hexLength? c with
    | some count =>
      match h : readHex count 0 rest with
      | some (code, more) =>
        if code.isValidChar then
          some (Char.ofNat code, count + 1, ⟨more, Nat.le_succ_of_le (length_readHex_le h)⟩)
        else none
      | none => none
    | none => (escaped? c).map fun char => (char, 1, ⟨rest, length_le_cons c rest⟩)

/-- Reads a scalar in double quotes on, up to the quote that ends it. What is read already is given
latest first. -/
def readDouble (read : List Char) (gap : Gap) (p : Place) (cs : List Char) :
    Option (List Char × Cursor) :=
  match cs with
  | [] => none
  | c :: rest =>
    if isBlank c then readDouble read (gap.addBlank c) (p.after c) rest
    else if isBreak c then readDouble read (gap.addBreak c) p.nextLine rest
    else if p.column == 0 && startsWithDocumentMark (c :: rest) then none
    else if c == '"' then some ((gap.folded ++ read).reverse, ⟨p.after c, rest⟩)
    else if c == '\\' then
      if rest.head?.any isBreak then
        readDouble (gap.folded ++ read) (.breaks none []) p.nextLine rest.tail
      else
        match readEscape rest with
        | some (char, count, ⟨more, _⟩) =>
          readDouble (char :: (gap.folded ++ read)) .empty (p.ahead (count + 1)) more
        | none => none
    else readDouble (c :: (gap.folded ++ read)) .empty (p.after c) rest
termination_by cs.length
decreasing_by
  all_goals simp only [List.length_cons, List.length_tail]
  all_goals omega

/-- Reads a scalar in single quotes on, up to the quote that ends it. Two quotes stand for one. What
is read already is given latest first. -/
def readSingle (read : List Char) (gap : Gap) (p : Place) (cs : List Char) :
    Option (List Char × Cursor) :=
  match cs with
  | [] => none
  | c :: rest =>
    if isBlank c then readSingle read (gap.addBlank c) (p.after c) rest
    else if isBreak c then readSingle read (gap.addBreak c) p.nextLine rest
    else if p.column == 0 && startsWithDocumentMark (c :: rest) then none
    else if c == '\x27' then
      match rest with
      | next :: more =>
        if next == '\x27' then
          readSingle (next :: (gap.folded ++ read)) .empty (p.ahead 2) more
        else some ((gap.folded ++ read).reverse, ⟨p.after c, rest⟩)
      | [] => some ((gap.folded ++ read).reverse, ⟨p.after c, []⟩)
    else readSingle (c :: (gap.folded ++ read)) .empty (p.after c) rest

/-- Reading a scalar in double quotes leaves no more characters than before. -/
theorem length_readDouble_le {read cs text : List Char} {gap : Gap} {p : Place} {c : Cursor}
    (h : readDouble read gap p cs = some (text, c)) : c.rest.length ≤ cs.length := by
  fun_induction readDouble read gap p cs with
  | case1 => simp at h
  | case2 _ _ _ _ _ _ ih => exact Nat.le_succ_of_le (ih h)
  | case3 _ _ _ _ _ _ _ ih => exact Nat.le_succ_of_le (ih h)
  | case4 => simp at h
  | case5 =>
    obtain ⟨-, rfl⟩ : _ ∧ _ := by simpa using h
    exact Nat.le_succ _
  | case6 _ _ _ _ rest _ _ _ _ _ _ ih =>
    have hle := ih h
    simp only [List.length_tail, List.length_cons] at hle ⊢
    omega
  | case7 _ _ _ _ rest _ _ _ _ _ _ char count more hmore _ ih =>
    exact Nat.le_succ_of_le (Nat.le_trans (ih h) hmore)
  | case8 => simp at h
  | case9 _ _ _ _ _ _ _ _ _ _ ih => exact Nat.le_succ_of_le (ih h)

/-- Reading a scalar in single quotes leaves no more characters than before. -/
theorem length_readSingle_le {read cs text : List Char} {gap : Gap} {p : Place} {c : Cursor}
    (h : readSingle read gap p cs = some (text, c)) : c.rest.length ≤ cs.length := by
  fun_induction readSingle read gap p cs with
  | case1 => simp at h
  | case2 _ _ _ _ _ _ ih => exact Nat.le_succ_of_le (ih h)
  | case3 _ _ _ _ _ _ _ ih => exact Nat.le_succ_of_le (ih h)
  | case4 => simp at h
  | case5 _ _ _ _ _ _ _ _ _ _ _ ih =>
    exact Nat.le_succ_of_le (Nat.le_succ_of_le (ih h))
  | case6 =>
    obtain ⟨-, rfl⟩ : _ ∧ _ := by simpa using h
    exact Nat.le_succ _
  | case7 =>
    obtain ⟨-, rfl⟩ : _ ∧ _ := by simpa using h
    exact Nat.zero_le _
  | case8 _ _ _ _ _ _ _ _ _ ih => exact Nat.le_succ_of_le (ih h)

/-! ### Block scalars -/

/-- What becomes of the line breaks at the end of a block scalar. -/
inductive Chomping where
  /-- None is kept. -/
  | strip
  /-- The one that ends the last line with text is kept. -/
  | clip
  /-- All are kept. -/
  | keep
deriving DecidableEq, Repr

namespace Chomping

/-- The character that asks for a treatment. -/
def ofChar? : Char → Option Chomping
  | '-' => some strip
  | '+' => some keep
  | _ => none

end Chomping

/-- What is said in front of a block scalar. -/
structure BlockHeader where
  /-- What becomes of the line breaks at its end. -/
  chomping : Chomping
  /-- By how much it is indented, if that is said. -/
  indent : Option Nat
deriving DecidableEq, Repr

namespace BlockHeader

/-- The indentation that a digit asks for. -/
def indent? (c : Char) : Option Nat := if isDigit c && c != '0' then digitIn? 10 c else none

/-- The header that some characters make up: a digit and a sign in either order, each of which may
be missing. -/
def ofChars? : List Char → Option BlockHeader
  | [] => some ⟨.clip, none⟩
  | [c] =>
    match Chomping.ofChar? c with
    | some chomping => some ⟨chomping, none⟩
    | none => (indent? c).map fun indent => ⟨.clip, some indent⟩
  | [c, d] =>
    match Chomping.ofChar? c with
    | some chomping => (indent? d).map fun indent => ⟨chomping, some indent⟩
    | none =>
      (indent? c).bind fun indent =>
        (Chomping.ofChar? d).map fun chomping => ⟨chomping, some indent⟩
  | _ => none

/-- Whether a character may be part of a header. -/
def isHeaderChar (c : Char) : Bool := c == '-' || c == '+' || isDigit c

end BlockHeader

/-- The column up to which the first line with text is indented, or the longest of the lines with
nothing but spaces before it if that is more. No tab may stand there. -/
def measureIndent (most column : Nat) : List Char → Option Nat
  | [] => some (max most column)
  | c :: cs =>
    if c == ' ' then measureIndent most (column + 1) cs
    else if c == '\t' then none
    else if isBreak c then measureIndent (max most column) 0 cs
    else some (max most column)

/-- The lines of a block scalar that were read already. -/
structure BlockLines where
  /-- The text up to the last line with text, latest first. -/
  text : List Char
  /-- The line break that ended that line. -/
  ending : Option Char
  /-- The line breaks of the empty lines after it, latest first. -/
  others : List Char
  /-- Whether that line starts with a blank. -/
  startsBlank : Bool

namespace BlockLines

/-- No lines. -/
def empty : BlockLines := ⟨[], none, [], false⟩

/-- What the line breaks in front of a line become that starts with a character. A line feed is
folded unless one of the lines that it separates starts with a blank. -/
def joint (lines : BlockLines) (isFolded : Bool) (c : Char) : List Char :=
  if isFolded && lines.ending == some '\n' && !lines.startsBlank && !isBlank c then
    if lines.others.isEmpty then [' '] else lines.others
  else lines.others ++ lines.ending.toList

/-- Starts a further line with a character. -/
def startLine (lines : BlockLines) (isFolded : Bool) (c : Char) : BlockLines :=
  ⟨c :: (lines.joint isFolded c ++ lines.text), none, [], isBlank c⟩

/-- The text of a block scalar. -/
def chomped (lines : BlockLines) (chomping : Chomping) : List Char :=
  match chomping with
  | .strip => lines.text.reverse
  | .clip => (lines.ending.toList ++ lines.text).reverse
  | .keep => (lines.others ++ lines.ending.toList ++ lines.text).reverse

end BlockLines

/-- Reads the lines of a block scalar on, within a line or at the margin of one, up to a line with
text that is not indented as far. -/
def readLines (isFolded : Bool) (indent : Nat) (withinLine : Bool) (lines : BlockLines) (p : Place)
    (cs : List Char) : Option (BlockLines × Cursor) :=
  match cs with
  | [] => some (lines, ⟨p, []⟩)
  | c :: rest =>
    if withinLine then
      if isBreak c then
        readLines isFolded indent false { lines with ending := some c } p.nextLine rest
      else
        readLines isFolded indent true { lines with text := c :: lines.text } (p.after c) rest
    else if isBreak c then
      readLines isFolded indent false { lines with others := c :: lines.others } p.nextLine rest
    else if p.column < indent then
      if c == ' ' then readLines isFolded indent false lines (p.after c) rest
      else if c == '\t' then none
      else some (lines, ⟨p, c :: rest⟩)
    else readLines isFolded indent true (lines.startLine isFolded c) (p.after c) rest

/-- Reading the lines of a block scalar leaves no more characters than before. -/
theorem length_readLines_le {isFolded withinLine : Bool} {indent : Nat} {lines lines' : BlockLines}
    {p : Place} {cs : List Char} {c : Cursor}
    (h : readLines isFolded indent withinLine lines p cs = some (lines', c)) :
    c.rest.length ≤ cs.length := by
  fun_induction readLines isFolded indent withinLine lines p cs with
  | case1 =>
    obtain ⟨-, rfl⟩ : _ ∧ _ := by simpa using h
    exact Nat.le_refl _
  | case2 _ _ _ _ _ ih => exact Nat.le_succ_of_le (ih h)
  | case3 _ _ _ _ _ ih => exact Nat.le_succ_of_le (ih h)
  | case4 _ _ _ _ _ _ _ ih => exact Nat.le_succ_of_le (ih h)
  | case5 _ _ _ _ _ _ _ _ _ ih => exact Nat.le_succ_of_le (ih h)
  | case6 => simp at h
  | case7 =>
    obtain ⟨-, rfl⟩ : _ ∧ _ := by simpa using h
    exact Nat.le_refl _
  | case8 _ _ _ _ _ _ _ _ ih => exact Nat.le_succ_of_le (ih h)

/-- Reads a block scalar from behind the character that announces it. It is indented at least up to
the margin, and by at least one character. -/
def readBlock (isFolded : Bool) (margin : Nat) (p : Place) (cs : List Char) :
    Option (List Char × Remainder cs) :=
  let start := skipWhile BlockHeader.isHeaderChar p cs
  match BlockHeader.ofChars? (cs.takeWhile BlockHeader.isHeaderChar),
    skipLine? start.place start.rest with
  | some header, some ⟨⟨p', body⟩, hb⟩ =>
    let indent? :=
      match header.indent with
      | some more => some (margin - 1 + more)
      | none => (measureIndent 0 0 body).map fun indent => max indent (max margin 1)
    match indent? with
    | none => none
    | some indent =>
      match h : readLines isFolded indent false .empty p' body with
      | none => none
      | some (lines, c) =>
        some (lines.chomped header.chomping,
          ⟨c, Nat.le_trans (length_readLines_le h) (Nat.le_trans hb start.length_le)⟩)
  | _, _ => none

end YamlText

end CommandTree
