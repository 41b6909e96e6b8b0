import CommandTree.Number.Literal
import CommandTree.Number.Shortest

/-!
# The four kinds of number

A bound of an argument is an integer of 32 or 64 bits or a binary number of single or double
precision. Each kind says what its values are, which are the extremes, how they compare, and how
they are read and written; everything else about bounds is the same for all four.
-/

set_option autoImplicit false

namespace CommandTree

/-- A kind of number. -/
inductive NumberKind where
  /-- Integers of 32 bits. -/
  | integer
  /-- Integers of 64 bits. -/
  | long
  /-- Binary numbers of single precision. -/
  | float
  /-- Binary numbers of double precision. -/
  | double
deriving DecidableEq, Repr

namespace NumberKind

/-- The name of a kind in a command file. -/
def name : NumberKind → String
  | integer => "integer"
  | long => "long"
  | float => "float"
  | double => "double"

/-- The numbers of a kind. -/
abbrev Value : NumberKind → Type
  | integer => Whole 32
  | long => Whole 64
  | float => Binary Format.single
  | double => Binary Format.double

instance : (kind : NumberKind) → DecidableEq kind.Value
  | integer => inferInstanceAs (DecidableEq (Whole 32))
  | long => inferInstanceAs (DecidableEq (Whole 64))
  | float => inferInstanceAs (DecidableEq (Binary Format.single))
  | double => inferInstanceAs (DecidableEq (Binary Format.double))

/-- The most negative finite number of a kind. -/
def least : (kind : NumberKind) → kind.Value
  | integer => Whole.least 32
  | long => Whole.least 64
  | float => Binary.least Format.single
  | double => Binary.least Format.double

/-- The greatest finite number of a kind. -/
def greatest : (kind : NumberKind) → kind.Value
  | integer => Whole.greatest 32
  | long => Whole.greatest 64
  | float => Binary.greatest Format.single
  | double => Binary.greatest Format.double

/-- The place of a number in the order of its kind; the two zeros of a binary kind share one. -/
def place : (kind : NumberKind) → kind.Value → Int
  | integer, w => w.value
  | long, w => w.value
  | float, b => b.place
  | double, b => b.place

/-- Equality as numbers. -/
def same (kind : NumberKind) (a b : kind.Value) : Bool := kind.place a == kind.place b

/-- The text of a number. -/
def text : (kind : NumberKind) → kind.Value → String
  | integer, w => String.ofList w.text
  | long, w => String.ofList w.text
  | float, b => String.ofList b.text
  | double, b => String.ofList b.text

/-- Reads a number of a kind. The binary kinds have a text that is not a number; it is read as
`none`. -/
def read : (kind : NumberKind) → String → Except NumberError (Option kind.Value)
  | integer, text => (Whole.read 32 text.toList).map some
  | long, text => (Whole.read 64 text.toList).map some
  | float, text => (Literal.read text.toList).map (Literal.toBinary? Format.single)
  | double, text => (Literal.read text.toList).map (Literal.toBinary? Format.double)

/-- All kinds. -/
def all : List NumberKind := [integer, long, float, double]

end NumberKind

end CommandTree
