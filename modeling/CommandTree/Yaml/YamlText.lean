/-!
# Characters and places of YAML text

A YAML text is read character by character. Lines end at line feeds and at the two separators of
lines and paragraphs; the other ways to end a line are read as a line feed. The column of a
character counts the characters before it on its line and decides which block it belongs to; its
offset counts their bytes and limits how far a name may be from its colon.

Between tokens stand blanks, comments and line breaks. `skipTrivia` passes over them and says
whether a name may start behind them.
-/

set_option autoImplicit false

namespace CommandTree.YamlText

/-! ### Classes of characters -/

/-- A character that YAML text may hold. -/
def isAllowed (c : Char) : Bool :=
  c == '\t' || c == '\n' || c == '\r' || (' ' ≤ c && c ≤ '~') || c == '\u0085' ||
    ('\u00a0' ≤ c && c != '\ufffe' && c != '\uffff')

/-- A character that ends a line. -/
def isBreak (c : Char) : Bool := c == '\n' || c == '\u2028' || c == '\u2029'

/-- A blank within a line. -/
def isBlank (c : Char) : Bool := c == ' ' || c == '\t'

/-- A decimal digit. -/
def isDigit (c : Char) : Bool := '0' ≤ c && c ≤ '9'

/-- A character that names of anchors, tags and directives consist of. -/
def isNameChar (c : Char) : Bool :=
  isDigit c || ('A' ≤ c && c ≤ 'Z') || ('a' ≤ c && c ≤ 'z') || c == '_' || c == '-'

/-- A character that has a meaning of its own within brackets. -/
def isFlowIndicator (c : Char) : Bool :=
  c == ',' || c == '[' || c == ']' || c == '\x7b' || c == '\x7d'

/-- Whether a blank, a line break or the end of the text comes next. -/
def endsWord (cs : List Char) : Bool := cs.head?.all fun c => isBlank c || isBreak c

/-- Whether a word of three times the same character comes next. -/
def startsWithMark (mark : Char) : List Char → Bool
  | a :: b :: c :: rest => a == mark && b == mark && c == mark && endsWord rest
  | _ => false

/-- Whether a mark that starts or ends a document comes next. -/
def startsWithDocumentMark (cs : List Char) : Bool :=
  startsWithMark '-' cs || startsWithMark '.' cs

/-- A text in which the ways to end a line that do not separate lines or paragraphs are written as
a line feed. -/
def withLineFeeds : List Char → List Char
  | '\r' :: '\n' :: cs => '\n' :: withLineFeeds cs
  | '\r' :: cs => '\n' :: withLineFeeds cs
  | '\u0085' :: cs => '\n' :: withLineFeeds cs
  | c :: cs => c :: withLineFeeds cs
  | [] => []

/-- The value of a digit in a base. -/
def digitIn? (base : Nat) (c : Char) : Option Nat :=
  let value :=
    if isDigit c then c.toNat - '0'.toNat
    else if 'a' ≤ c ∧ c ≤ 'f' then c.toNat - 'a'.toNat + 10
    else if 'A' ≤ c ∧ c ≤ 'F' then c.toNat - 'A'.toNat + 10
    else base
  if value < base then some value else none

/-- The natural number that a nonempty row of digits stands for. -/
def naturalIn? (base : Nat) : List Char → Option Nat
  | [] => none
  | cs => cs.foldlM (fun n c => (digitIn? base c).map (n * base + ·)) 0

/-! ### Places -/

/-- The place of a character in a text. -/
structure Place where
  /-- The line. -/
  line : Nat
  /-- The number of characters before it on the line. -/
  column : Nat
  /-- The number of bytes before it on the line. -/
  offset : Nat
deriving DecidableEq, Repr

namespace Place

/-- The start of a text. -/
def start : Place := ⟨0, 0, 0⟩

/-- The start of the next line. -/
def nextLine (p : Place) : Place := ⟨p.line + 1, 0, 0⟩

/-- The place behind a character that does not end its line. -/
def after (p : Place) (c : Char) : Place := ⟨p.line, p.column + 1, p.offset + c.utf8Size⟩

/-- The place behind some characters of one byte that do not end their line. -/
def ahead (p : Place) (count : Nat) : Place := ⟨p.line, p.column + count, p.offset + count⟩

end Place

/-- A place in a text and the characters from there on. -/
structure Cursor where
  /-- The place. -/
  place : Place
  /-- The characters from there on. -/
  rest : List Char

/-- A cursor that has moved on from some characters. -/
structure Remainder (cs : List Char) extends Cursor where
  /-- The characters that are left are no more than there were. -/
  length_le : rest.length ≤ cs.length

/-- What is left of less is left of more. -/
def Remainder.ofShorter {cs cs' : List Char} (r : Remainder cs) (h : cs.length ≤ cs'.length) :
    Remainder cs' :=
  ⟨r.toCursor, Nat.le_trans r.length_le h⟩

/-- A text with a character in front is no shorter. -/
theorem length_le_cons (c : Char) (cs : List Char) : cs.length ≤ (c :: cs).length :=
  Nat.le_succ cs.length

/-- What is left of a text is left of a longer one. -/
def Remainder.ofTail {cs : List Char} (r : Remainder cs) (c : Char) : Remainder (c :: cs) :=
  r.ofShorter (length_le_cons c cs)

/-! ### Between tokens -/

/-- Skips blanks, comments and line breaks in front of a token: whether a name may start there, and
where that is. Whether a name may start and whether the rest of the line is a comment is known for
the place before. Outside brackets a name may start on every new line, and a tab does not stand
where a name may start. A mark of byte order may start a line. -/
def skipTrivia (inFlow nameAllowed inComment : Bool) (p : Place) (cs : List Char) : Bool × Cursor :=
  match cs with
  | [] => (nameAllowed, ⟨p, []⟩)
  | c :: rest =>
    if isBreak c then skipTrivia inFlow (nameAllowed || !inFlow) false p.nextLine rest
    else if inComment || c == ' ' || (c == '\t' && (inFlow || !nameAllowed)) ||
        (c == '\ufeff' && p.column == 0) then
      skipTrivia inFlow nameAllowed inComment (p.after c) rest
    else if c == '#' then skipTrivia inFlow nameAllowed true (p.after c) rest
    else (nameAllowed, ⟨p, c :: rest⟩)

/-- Skipping blanks and comments leaves no more characters than before. -/
theorem length_skipTrivia_le (inFlow nameAllowed inComment : Bool) (p : Place) (cs : List Char) :
    (skipTrivia inFlow nameAllowed inComment p cs).2.rest.length ≤ cs.length := by
  fun_induction skipTrivia inFlow nameAllowed inComment p cs with
  | case1 => exact Nat.le_refl _
  | case2 _ _ _ _ _ _ ih => exact Nat.le_succ_of_le ih
  | case3 _ _ _ _ _ _ _ ih => exact Nat.le_succ_of_le ih
  | case4 _ _ _ _ _ _ _ _ ih => exact Nat.le_succ_of_le ih
  | case5 => exact Nat.le_refl _

/-- Skips characters of a kind within a line. -/
def skipWhile (kind : Char → Bool) (p : Place) (cs : List Char) : Remainder cs :=
  ⟨⟨(cs.takeWhile kind).foldl Place.after p, cs.dropWhile kind⟩,
    (List.dropWhile_sublist kind).length_le⟩

/-- Skips the rest of a line, on which nothing but a comment may stand. -/
def skipLine? (p : Place) (cs : List Char) : Option (Remainder cs) :=
  let r := skipWhile isBlank p cs
  let r' := if r.rest.head? == some '#' then
    (skipWhile (!isBreak ·) r.place r.rest).ofShorter r.length_le else r
  match r' with
  | ⟨⟨p', []⟩, _⟩ => some ⟨⟨p', []⟩, Nat.zero_le _⟩
  | ⟨⟨p', c :: rest⟩, h⟩ =>
    if isBreak c then some ⟨⟨p'.nextLine, rest⟩, Nat.le_of_succ_le h⟩ else none

end CommandTree.YamlText
