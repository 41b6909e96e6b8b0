import CommandTree.TokenStream.Reading

/-!
# Parameters of the built-in types

Truth values take no parameter, strings take one of three keywords, and numbers take up to two
bounds. A bound is a literal of its kind or one of the words `min` and `max`, which stand for the
extremes; an omitted bound is the extreme as well. A bound that is wrong is reported before the
next one is read, and bounds in the wrong order are reported at the second.
-/

set_option autoImplicit false

namespace CommandTree

/-- Reads the mode of a string type. -/
def StringMode.read : Reading Diagnostic StringMode := do
  let token ← Reading.next
  match token.value.word? with
  | none => Reading.fail (.atSpan (.missingStringMode token.value) token.span)
  | some word =>
    match StringMode.ofKeyword? word with
    | some mode => pure mode
    | none => Reading.fail (.atSpan (.unknownStringMode word) token.span)

namespace NumberKind

/-- The number that a word stands for as a bound. -/
def bound (kind : NumberKind) (word : Located String) : Except Diagnostic kind.Value :=
  if word.value = "min" then .ok kind.least
  else if word.value = "max" then .ok kind.greatest
  else
    match kind.read word.value with
    | .error e => .error (.atSpan (.malformedBound kind word.value e) word.span)
    | .ok none => .error (.atSpan (.boundNotANumber kind word.value) word.span)
    | .ok (some value) => .ok value

/-- Reads up to two bounds. -/
def readBounds (kind : NumberKind) : Reading Diagnostic (kind.Value × kind.Value) := do
  match ← Reading.nextWord? with
  | none => pure (kind.least, kind.greatest)
  | some lowerWord =>
    let lower ← Reading.ofExcept (kind.bound lowerWord)
    match ← Reading.nextWord? with
    | none => pure (lower, kind.greatest)
    | some upperWord =>
      let upper ← Reading.ofExcept (kind.bound upperWord)
      if kind.place upper < kind.place lower then
        Reading.fail (.atSpan (.invertedBounds kind lower upper) upperWord.span)
      else pure (lower, upper)

/-- Reading bounds only takes tokens and looks at them, so it leaves no more to come than before. -/
theorem forward_readBounds (kind : NumberKind) : kind.readBounds.Forward := by
  refine Reading.Forward.nextWord?.bind fun first => ?_
  cases first with
  | none => exact .pure _
  | some lowerWord =>
    refine (Reading.Forward.ofExcept _).bind fun lower => ?_
    refine Reading.Forward.nextWord?.bind fun second => ?_
    cases second with
    | none => exact .pure _
    | some upperWord =>
      refine (Reading.Forward.ofExcept _).bind fun upper => ?_
      split
      · exact .fail _
      · exact .pure _

end NumberKind

/-- Reading a mode only takes tokens and looks at them. -/
theorem StringMode.forward_read : StringMode.read.Forward := by
  refine Reading.Forward.next.bind fun token => ?_
  split
  · exact .fail _
  · split
    · exact .pure _
    · exact .fail _

namespace Builtin

/-- Reads the parameters of a built-in type. -/
def read : Builtin → Reading Diagnostic ArgType
  | bool => pure .bool
  | string => do
    let mode ← StringMode.read
    pure (.string mode)
  | number kind => do
    let bounds ← kind.readBounds
    pure (.number kind bounds.1 bounds.2)

/-- Reading the parameters of a built-in type only takes tokens and looks at them. -/
theorem forward_read (b : Builtin) : b.read.Forward := by
  cases b with
  | bool => exact .pure _
  | string => exact StringMode.forward_read.bind fun _ => .pure _
  | number kind => exact kind.forward_readBounds.bind fun _ => .pure _

end Builtin

end CommandTree
