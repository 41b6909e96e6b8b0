import CommandTree.Diagnostic
import CommandTree.Text.Blank
import CommandTree.Text.Bytes

/-!
# Labels

A diagnostic that carries its text labels stretches of it. The stretch for a span is the part of
it that lies in the text. An empty span labels the character it stands before; where there is none
it moves back onto the last character that is not blank, since nothing could be seen behind it.
-/

set_option autoImplicit false

namespace CommandTree

/-- A stretch of a text with what is said about it. -/
structure Label where
  /-- What is said. -/
  text : String
  /-- The offset of the first byte. -/
  offset : Nat
  /-- The number of bytes. -/
  length : Nat
deriving DecidableEq, Repr

namespace Label

/-- The last character of a text before the blanks it ends in, as offset and length; an empty
stretch at `otherwise` if there is none. -/
def lastVisible (before : List Char) (otherwise : Nat) : Nat × Nat :=
  let visible := Blank.trimEnd before
  match visible.getLast? with
  | some c => (Bytes.count visible - c.utf8Size, c.utf8Size)
  | none => (otherwise, 0)

/-- The offset and length of the stretch of a text that a span labels. -/
def range (span : Span) (text : List Char) : Nat × Nat :=
  let size := Bytes.count text
  let start := min span.start size
  if !span.isEmpty then (start, min span.length (size - start))
  else
    match Bytes.cut? text start with
    | some (_, c :: _) => (start, c.utf8Size)
    | some (before, []) => lastVisible before start
    | none => (start, 0)

/-- The label of a span in a text. -/
def ofSpan (span : Span) (text : List Char) (label : String) : Label :=
  let (offset, length) := range span text
  ⟨label, offset, length⟩

end Label

namespace Diagnostic

/-- The labels of a diagnostic: its own place under its message, then the other places. Places
mean nothing without the text they are in, so without one there are no labels. -/
def labels? (d : Diagnostic) : Option (List Label) :=
  match d.source with
  | none => none
  | some source =>
    let text := source.text.toList
    let own := d.span.toList.map fun span => Label.ofSpan span text d.message
    let others := d.related.map fun place => Label.ofSpan place.span text place.label
    let labels := own ++ others
    if labels.isEmpty then none else some labels

end Diagnostic

end CommandTree
