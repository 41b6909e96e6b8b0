/-!
# Sources

A source is what a command file looks like to a reader that takes it a line at a time: lines of
text, each with its newline, lines that are not UTF-8, and at the end either the end of input or
a failure of the medium. A source is made from bytes by cutting after each newline byte and
decoding every piece by itself, so damage is confined to the line it lies in.

The main fact about cutting is `Source.flatten_cut`: the pieces and the remainder, put together
again, are the list that was cut.
-/

set_option autoImplicit false

namespace CommandTree

/-- One line of a source. -/
inductive Line where
  /-- A line of text, which has at least one character, with its newline if it has one. -/
  | text (first : Char) (others : List Char)
  /-- A line whose bytes are not UTF-8. -/
  | undecodable
deriving DecidableEq, Repr

/-- What follows the last line of a source. -/
inductive Ending where
  /-- Nothing follows. -/
  | endOfInput
  /-- Every attempt to read on fails with `message`; the first attempt still delivers
  `remainder`, the text between the last newline and the failure. -/
  | failure (remainder : List Char) (message : String)
deriving DecidableEq, Repr

/-- A text that may be damaged, as a sequence of lines and an ending. -/
structure Source where
  /-- The lines in order. -/
  lines : List Line
  /-- What follows them. -/
  ending : Ending
deriving DecidableEq, Repr

namespace Line

/-- The characters of a line; a line that is not text has none. -/
def chars : Line → List Char
  | text first others => first :: others
  | undecodable => []

/-- A line of text with the given characters, of which there should be at least one. -/
def ofChars : List Char → Line
  | first :: others => text first others
  | [] => undecodable

end Line

namespace Source

/-- Adds one element in front of a cut list: an element that `stops` closes a piece of its own,
any other joins the first piece, or the remainder when there is no piece. -/
def cutStep {α : Type} (stops : α → Bool) (a : α) :
    List (List α) × List α → List (List α) × List α
  | (pieces, remainder) =>
    if stops a then ([a] :: pieces, remainder)
    else
      match pieces with
      | [] => ([], a :: remainder)
      | piece :: others => ((a :: piece) :: others, remainder)

/-- Cuts a list after every element that `stops`. The first component holds the closed pieces,
the second what is left behind the last of them. -/
def cut {α : Type} (stops : α → Bool) (as : List α) : List (List α) × List α :=
  as.foldr (cutStep stops) ([], [])

/-- Cutting nothing gives no piece and no remainder. -/
@[simp] theorem cut_nil {α : Type} (stops : α → Bool) : cut stops [] = ([], []) := rfl

/-- An element is cut off, or put in front of the first piece or of the remainder. -/
@[simp] theorem cut_cons {α : Type} (stops : α → Bool) (a : α) (as : List α) :
    cut stops (a :: as) = cutStep stops a (cut stops as) := rfl

/-- The pieces and the remainder put one behind the other are what was cut. -/
theorem flatten_cut {α : Type} (stops : α → Bool) (as : List α) :
    (cut stops as).1.flatten ++ (cut stops as).2 = as := by
  induction as with
  | nil => rfl
  | cons a as ih =>
    rw [cut_cons]
    rcases h : cut stops as with ⟨pieces, remainder⟩
    rw [h] at ih
    simp only [cutStep]
    split
    · simpa using ih
    · cases pieces <;> simpa using ih

/-- The decoded characters of a piece of bytes, if it is UTF-8. -/
def decode? (bytes : List UInt8) : Option (List Char) :=
  (ByteArray.mk bytes.toArray).utf8Decode?.map Array.toList

/-- The line that a piece of bytes stands for. -/
def decodeLine (bytes : List UInt8) : Line :=
  match decode? bytes with
  | some chars => Line.ofChars chars
  | none => .undecodable

/-- The byte that ends a line. -/
def newlineByte : UInt8 := 10

/-- The source of a byte sequence. With `failure` the medium fails with that message after the
last byte; the unterminated text before the failure is then kept only if it is UTF-8. -/
def ofBytes (bytes : List UInt8) (failure : Option String) : Source :=
  let (pieces, remainder) := cut (· == newlineByte) bytes
  match failure with
  | some message => ⟨pieces.map decodeLine, .failure ((decode? remainder).getD []) message⟩
  | none =>
    ⟨pieces.map decodeLine ++ if remainder.isEmpty then [] else [decodeLine remainder],
      .endOfInput⟩

/-- The source of an undamaged text. -/
def ofChars (chars : List Char) : Source :=
  let (pieces, remainder) := cut (· == '\n') chars
  ⟨pieces.map Line.ofChars ++ if remainder.isEmpty then [] else [Line.ofChars remainder],
    .endOfInput⟩

/-- The source of an undamaged text. -/
def ofString (text : String) : Source := ofChars text.toList

/-- A source whose first read fails, as a directory does when it is read as a file. -/
def unreadable (message : String) : Source := ⟨[], .failure [] message⟩

end Source

end CommandTree
