import CommandTree.Text.Blank
import CommandTree.Text.Split

/-!
# Differences between two texts, line by line

Two texts are compared by lines that both have in the same order. These are found by a table with an
entry for each pair of lines, which is followed back from its last entry, and what is not among them
was removed from the one text or added in the other. Neighbouring lines that share a fate are a run,
and the runs in their order are the difference.

A run is shown as the lines of a text, so a last line that is empty is not shown. A common text that
consists of one empty line counts as no common line.
-/

set_option autoImplicit false

namespace CommandTree.LineDiff

variable {α : Type} [DecidableEq α]

/-! ### Common lines -/

/-- The entry of a table for the lines numbered `i` and `j`, given whether these are equal. The
table holds rows of the given width, one after the other, and is complete up to this entry. -/
def entry (width : Nat) (table : Array Nat) (equal : Bool) (i j : Nat) : Nat :=
  let left := table.getD (i * width + j - 1) 0
  let above := table.getD ((i - 1) * width + j) 0
  if equal then
    if i = 0 ∨ j = 0 then 1 else table.getD ((i - 1) * width + j - 1) 0 + 1
  else if i = 0 then
    if j = 0 then 0 else left
  else if j = 0 then above
  else max left above

/-- The table of two lists of lines. -/
def tableOf (old new : List α) : Array Nat :=
  old.zipIdx.foldl (fun table (a, i) =>
    new.zipIdx.foldl (fun table (b, j) =>
      table.push (entry new.length table (a == b) i j)) table) #[]

/-- Follows a table back from the entry for the first lines of two lists, which are in reverse, and
collects the common lines in front of those in `found`. Lines that differ lead to the entry on the
left if it is greater than the one above, or if nothing is above. The entry on the left of a row is
the last one of the row before, and following it ends the search. -/
def follow (width : Nat) (table : Array Nat) : (old new found : List α) → List α
  | a :: old, b :: new, found =>
    if a = b then follow width table old new (a :: found)
    else if old.isEmpty ∧ new.isEmpty then found
    else if old.isEmpty ∨ table.getD ((old.length - 1) * width + new.length) 0 <
        table.getD (old.length * width + new.length - 1) 0 then
      follow width table (a :: old) new found
    else follow width table old (b :: new) found
  | _, _, found => found
termination_by old new => old.length + new.length

/-- Lines that two lists have in common, in order. -/
def common (old new : List α) : List α :=
  follow new.length (tableOf old new) old.reverse new.reverse []

/-! ### Changes -/

/-- What became of a line. -/
inductive Fate where
  /-- Both texts have the line. -/
  | kept
  /-- Only the old text has the line. -/
  | removed
  /-- Only the new text has the line. -/
  | added
deriving DecidableEq, Repr

/-- A line and what became of it. -/
structure Change (α : Type) where
  /-- What became of the line. -/
  fate : Fate
  /-- The line. -/
  line : α
deriving DecidableEq, Repr

/-- The changes from one list of lines to another when the lines in the first argument are kept. -/
def changes : (common old new : List α) → List (Change α)
  | [], old, new => old.map (.mk .removed) ++ new.map (.mk .added)
  | c :: common, old, new =>
    (old.takeWhile (· != c)).map (.mk .removed) ++ (new.takeWhile (· != c)).map (.mk .added) ++
      .mk .kept c ::
        changes common (old.dropWhile (· != c)).tail (new.dropWhile (· != c)).tail

/-- The longest stretches of changes that share a fate. -/
def runs (changes : List (Change α)) : List (List (Change α)) :=
  changes.splitBy fun a b => a.fate == b.fate

/-! ### Texts -/

/-- A list of lines, which has no line if it has only an empty one. -/
def present : List (List Char) → List (List Char)
  | [[]] => []
  | lines => lines

/-- The changes from one text to another, both without the blanks at their ends. -/
def changesOfTexts (old new : String) : List (Change (List Char)) :=
  let oldLines := Split.parts '\n' (Blank.trimEnd old.toList)
  let newLines := Split.parts '\n' (Blank.trimEnd new.toList)
  changes (present (common oldLines newLines)) (present oldLines) (present newLines)

/-- A line without the carriage return it ends in. -/
def dropReturn (line : List Char) : List Char :=
  if line.getLast? = some '\r' then line.dropLast else line

/-- The lines of a run as they are shown: all but the last lose a carriage return at the end, and
the last is left out if it is empty. -/
def shownLines : List (List Char) → List (List Char)
  | [] => []
  | [last] => if last.isEmpty then [] else [last]
  | line :: next :: lines => dropReturn line :: shownLines (next :: lines)

/-- The mark in front of the lines of a run. -/
def Fate.mark : Fate → Char
  | kept => ' '
  | removed => '-'
  | added => '+'

/-- The lines of a run with their marks. -/
def showRun (run : List (Change (List Char))) : List String :=
  match run with
  | [] => []
  | change :: _ =>
    (shownLines (run.map Change.line)).map fun line => String.ofList (change.fate.mark :: line)

/-- The difference between two texts, as lines with marks. -/
def marked (old new : String) : List String :=
  (runs (changesOfTexts old new)).flatMap showRun

end CommandTree.LineDiff
