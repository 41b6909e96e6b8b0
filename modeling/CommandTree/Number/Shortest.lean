import CommandTree.Number.Binary

/-!
# The shortest decimal of a binary number

The text of a binary number is the decimal of fewest digits that is read back as the same number,
and among those of equally few digits the nearest to it. For each number of digits only the two
neighbours of the magnitude on that decimal grid have to be tried: if any decimal of the grid is
read back as the number, one of the two is.

What is left to a format of text is which of two equally near neighbours wins, and when an
exponent is written. `Layout` collects the decisions that differ.
-/

set_option autoImplicit false

namespace CommandTree

/-- Which of two equally near decimals is taken. -/
inductive Tie where
  /-- The larger one. -/
  | upwards
  /-- The one whose last digit is even. -/
  | toEven
deriving DecidableEq, Repr

namespace Format

/-- A coefficient on the decimal grid `10 ^ exponent` as a quotient: the magnitude of an index
divided by the step of the grid. -/
def onGrid (f : Format) (index : Nat) (exponent : Int) : Nat × Nat :=
  (f.units index * Nat.pow 10 (-exponent).toNat, Nat.pow 2 f.scale * Nat.pow 10 exponent.toNat)

/-- The exponent of the leading decimal digit of a positive quotient. -/
def leadingExponent (numerator denominator : Nat) : Int :=
  if denominator ≤ numerator then
    (Decimal.digitCount (numerator / denominator) : Int) - 1
  else
    Int.neg (Decimal.digitCount ((denominator + numerator - 1) / numerator - 1))

/-- Whether a decimal is read back as the magnitude with the given index. -/
def readsBack (f : Format) (index : Nat) (d : Decimal) : Bool := f.ofDecimal d == index

/-- Among the two neighbours of a magnitude on a decimal grid the nearest one that is read back
as that magnitude. -/
def neighbour? (f : Format) (tie : Tie) (index : Nat) (exponent : Int) : Option Decimal :=
  let (numerator, denominator) := f.onGrid index exponent
  let below := numerator / denominator
  let rest := 2 * (numerator % denominator)
  let lower : Decimal := ⟨below, exponent⟩
  let upper : Decimal := ⟨below + 1, exponent⟩
  let upperFirst :=
    denominator < rest ∨ (rest = denominator ∧ (tie = .upwards ∨ below % 2 = 1))
  let ordered := if upperFirst then [upper, lower] else [lower, upper]
  ordered.find? (f.readsBack index)

/-- The exact decimal of a magnitude, which has a digit for every binary place. -/
def exactDecimal (f : Format) (index : Nat) : Decimal :=
  ⟨f.units index * Nat.pow 5 f.scale, -f.scale⟩

/-- No format needs more decimal digits than this to tell its numbers apart. -/
def digitLimit (f : Format) : Nat := (f.fractionBits + 1) * 30103 / 100000 + 2

/-- The shortest decimal of a finite magnitude. -/
def shortest (f : Format) (tie : Tie) (index : Nat) : Decimal :=
  if index = 0 then ⟨0, 0⟩
  else
    let leading := leadingExponent (f.units index) (Nat.pow 2 f.scale)
    let grids := (List.range f.digitLimit).map fun count : Nat => leading - count
    ((grids.findSome? (f.neighbour? tie index)).getD (f.exactDecimal index)).trim

end Format

namespace Binary

variable {f : Format}

/-- The plain text of a number: never an exponent, and no point when it is integral. -/
def text (b : Binary f) : List Char :=
  (if b.negative then ['-'] else []) ++
    if b.isInfinite then ['i', 'n', 'f'] else (f.shortest .upwards b.index).positional

end Binary

/-- How numbers are laid out where an exponent may be used: within a range of magnitudes they are
written plainly, outside with an exponent. -/
structure Layout where
  /-- The least exponent of the leading digit that is written plainly. -/
  leastPlain : Int
  /-- The greatest exponent of the leading digit that is written plainly. -/
  mostPlain : Int
  /-- Which of two equally near decimals is taken. -/
  tie : Tie
deriving DecidableEq, Repr

namespace Layout

/-- The text of a decimal; integral numbers that are written plainly end in a point and a zero. -/
def write (l : Layout) (d : Decimal) : List Char :=
  if l.leastPlain ≤ d.magnitude ∧ d.magnitude ≤ l.mostPlain then
    d.positional ++ if 0 ≤ d.exponent then ['.', '0'] else []
  else d.scientific

/-- The text of a number; infinities have none. -/
def text? {f : Format} (l : Layout) (b : Binary f) : Option (List Char) :=
  if b.isInfinite then none
  else
    let sign := if b.negative then ['-'] else []
    some (sign ++ if b.index = 0 then ['0', '.', '0'] else l.write (f.shortest l.tie b.index))

end Layout

end CommandTree
