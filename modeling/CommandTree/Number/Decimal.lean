/-!
# Decimal numbers

A decimal number is a natural coefficient times a power of ten. It is the common ground between
the text of a number and its binary value: texts are read into decimals, binary values are
rounded to decimals, and decimals are laid out in one of two ways.
-/

set_option autoImplicit false

namespace CommandTree

/-- The number `coefficient · 10 ^ exponent`. -/
structure Decimal where
  /-- The digits, read as a natural number. -/
  coefficient : Nat
  /-- The power of ten they are multiplied by. -/
  exponent : Int
deriving DecidableEq, Repr

namespace Decimal

/-- The digit characters of a natural number. -/
def digits (n : Nat) : List Char := Nat.toDigits 10 n

/-- The number of digits of a natural number; zero has one. -/
def digitCount (n : Nat) : Nat := (digits n).length

/-- The value of a digit character. -/
def digit? (c : Char) : Option Nat :=
  if '0' ≤ c ∧ c ≤ '9' then some (c.toNat - '0'.toNat) else none

/-- The number that a list of digit characters stands for; other characters count as zero. -/
def ofDigits (cs : List Char) : Nat :=
  cs.foldl (fun n c => n * 10 + (digit? c).getD 0) 0

/-- The same number with a coefficient that does not end in a zero; zero becomes `0 · 10 ^ 0`. -/
def trim (d : Decimal) : Decimal :=
  if h : d.coefficient = 0 then ⟨0, 0⟩
  else if d.coefficient % 10 = 0 then trim ⟨d.coefficient / 10, d.exponent + 1⟩
  else d
termination_by d.coefficient
decreasing_by exact Nat.div_lt_self (Nat.pos_of_ne_zero h) (by decide)

/-- The exponent of the leading digit. -/
def magnitude (d : Decimal) : Int := (digitCount d.coefficient : Int) + d.exponent - 1

/-- The number as a fraction of naturals. -/
def numerator (d : Decimal) : Nat := d.coefficient * Nat.pow 10 d.exponent.toNat

/-- The denominator that belongs to `numerator`. -/
def denominator (d : Decimal) : Nat := Nat.pow 10 (-d.exponent).toNat

/-- A row of zeros. -/
def zeros (n : Nat) : List Char := List.replicate n '0'

/-- The number without an exponent: as many zeros as it takes on either side, and no point when
the number is integral. -/
def positional (d : Decimal) : List Char :=
  let ds := digits d.coefficient
  if 0 ≤ d.exponent then ds ++ zeros d.exponent.toNat
  else
    let places := (-d.exponent).toNat
    if places < ds.length then
      ds.take (ds.length - places) ++ '.' :: ds.drop (ds.length - places)
    else '0' :: '.' :: zeros (places - ds.length) ++ ds

/-- The number with an exponent: one digit, a point if more digits follow, and a signed power. -/
def scientific (d : Decimal) : List Char :=
  let mantissa :=
    match digits d.coefficient with
    | first :: second :: rest => first :: '.' :: second :: rest
    | ds => ds
  let sign := if d.magnitude < 0 then '-' else '+'
  mantissa ++ 'e' :: sign :: digits d.magnitude.natAbs

end Decimal

end CommandTree
