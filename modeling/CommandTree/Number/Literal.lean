import CommandTree.Number.Binary
import CommandTree.Number.Whole

/-!
# Texts of numbers with a fraction

A literal is an optional sign before one of the names `inf`, `infinity` and `nan`, in letters of
either case, or before decimal digits with an optional point among them and an optional exponent.
There must be a digit before the exponent and, if there is an exponent, in it.
-/

set_option autoImplicit false

namespace CommandTree

/-- What a literal stands for. -/
inductive Literal where
  /-- Not a number. -/
  | notANumber
  /-- An infinite number. -/
  | infinite (negative : Bool)
  /-- A decimal with a sign. -/
  | decimal (negative : Bool) (value : Decimal)
deriving DecidableEq, Repr

namespace Literal

/-- Whether a character is a decimal digit. -/
def isDigit (c : Char) : Bool := (Decimal.digit? c).isSome

/-- Reads the exponent after its mark: an optional sign and at least one digit. -/
def readExponent (cs : List Char) : Option Int :=
  let (negative, ds) := Whole.splitSign cs
  if ds.isEmpty || !ds.all isDigit then none
  else some (if negative then -(Decimal.ofDigits ds : Int) else Decimal.ofDigits ds)

/-- Splits a point and the digits after it off a text. -/
def splitFraction : List Char → List Char × List Char
  | '.' :: cs => cs.span isDigit
  | cs => ([], cs)

/-- Reads an unsigned decimal. -/
def readDecimal (cs : List Char) : Option Decimal :=
  let (whole, rest) := cs.span isDigit
  let (fraction, rest) := splitFraction rest
  if whole.isEmpty && fraction.isEmpty then none
  else
    let coefficient := Decimal.ofDigits (whole ++ fraction)
    match rest with
    | [] => some ⟨coefficient, -fraction.length⟩
    | mark :: cs =>
      if mark = 'e' ∨ mark = 'E' then
        (readExponent cs).map fun exponent => ⟨coefficient, exponent - fraction.length⟩
      else none

/-- Reads a literal. -/
def read (cs : List Char) : Except NumberError Literal :=
  if cs.isEmpty then .error .emptyFraction
  else
    let (negative, body) := Whole.splitSign cs
    let name := String.ofList (body.map Char.toLower)
    if name = "inf" ∨ name = "infinity" then .ok (.infinite negative)
    else if name = "nan" then .ok .notANumber
    else
      match readDecimal body with
      | some d => .ok (.decimal negative d)
      | none => .error .invalidFraction

/-- The number of a format that a literal stands for, if it is one. -/
def toBinary? (f : Format) : Literal → Option (Binary f)
  | notANumber => none
  | infinite negative => some (Binary.infinite f negative)
  | decimal negative d => some (Binary.ofDecimal f negative d)

end Literal

end CommandTree
