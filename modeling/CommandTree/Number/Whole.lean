import CommandTree.Number.Decimal

/-!
# Whole numbers of limited width

A `Whole bits` is an integer that fits into `bits` bits with a sign. It is written with decimal
digits and read from an optional sign and decimal digits. Reading goes from left to right and
reports the first character at which the text stops being acceptable: one that is no digit, or
one that takes the number out of range.
-/

set_option autoImplicit false

namespace CommandTree

/-- Why a text is not a number. -/
inductive NumberError where
  /-- An integer was expected and the text is empty. -/
  | emptyInteger
  /-- A character of an integer is not a digit. -/
  | invalidDigit
  /-- The integer is above the range. -/
  | tooLarge
  /-- The integer is below the range. -/
  | tooSmall
  /-- A number with a fraction was expected and the text is empty. -/
  | emptyFraction
  /-- The text is not a number with a fraction. -/
  | invalidFraction
deriving DecidableEq, Repr

namespace NumberError

/-- The wording of a number error. -/
def message : NumberError → String
  | emptyInteger => "cannot parse integer from empty string"
  | invalidDigit => "invalid digit found in string"
  | tooLarge => "number too large to fit in target type"
  | tooSmall => "number too small to fit in target type"
  | emptyFraction => "cannot parse float from empty string"
  | invalidFraction => "invalid float literal"

end NumberError

/-- The numbers of a width are those from minus its limit up to below its limit. -/
def Whole.limit (bits : Nat) : Nat := Nat.pow 2 (bits - 1)

/-- The limit of every width is positive, so zero is an integer of that width. -/
theorem Whole.limit_pos (bits : Nat) : 0 < limit bits := Nat.pow_pos (by decide)

/-- An integer that fits into a signed word of the given width. -/
structure Whole (bits : Nat) where
  /-- The integer. -/
  value : Int
  /-- It is not below the range. -/
  lower : -(Whole.limit bits : Int) ≤ value
  /-- It is not above the range. -/
  upper : value < Whole.limit bits
deriving DecidableEq

namespace Whole

variable {bits : Nat}

/-- The least number of a width. -/
def least (bits : Nat) : Whole bits :=
  ⟨-(limit bits : Int), Int.le_refl _, by have := limit_pos bits; omega⟩

/-- The greatest number of a width. -/
def greatest (bits : Nat) : Whole bits :=
  ⟨(limit bits : Int) - 1, by have := limit_pos bits; omega, by omega⟩

/-- The number of a width with a given value, if it is in range. -/
def ofInt? (bits : Nat) (value : Int) : Option (Whole bits) :=
  if h : -(limit bits : Int) ≤ value ∧ value < limit bits then some ⟨value, h.1, h.2⟩ else none

instance : LE (Whole bits) := ⟨fun a b => a.value ≤ b.value⟩

instance (a b : Whole bits) : Decidable (a ≤ b) :=
  inferInstanceAs (Decidable (a.value ≤ b.value))

/-- The decimal text of a number. -/
def text (w : Whole bits) : List Char :=
  (if w.value < 0 then ['-'] else []) ++ Decimal.digits w.value.natAbs

/-- Reads digits below a sign: `negative` tells which way they count, and `read` is what the digits
before came to. -/
def readDigits (bits : Nat) (negative : Bool) (read : Nat) :
    List Char → Except NumberError Nat
  | [] => .ok read
  | c :: cs =>
    match Decimal.digit? c with
    | none => .error .invalidDigit
    | some d =>
      let value := read * 10 + d
      if negative ∧ limit bits < value then .error .tooSmall
      else if ¬negative ∧ limit bits ≤ value then .error .tooLarge
      else readDigits bits negative value cs

/-- Splits a sign off a text. -/
def splitSign : List Char → Bool × List Char
  | '-' :: cs => (true, cs)
  | '+' :: cs => (false, cs)
  | cs => (false, cs)

/-- Reads a number of a width from a text. -/
def read (bits : Nat) (cs : List Char) : Except NumberError (Whole bits) :=
  if cs.isEmpty then .error .emptyInteger
  else
    let (negative, ds) := splitSign cs
    if ds.isEmpty then .error .invalidDigit
    else
      match readDigits bits negative 0 ds with
      | .error e => .error e
      | .ok n =>
        match ofInt? bits (if negative then -(n : Int) else n) with
        | some w => .ok w
        | none => .error (if negative then .tooSmall else .tooLarge)

end Whole

end CommandTree
