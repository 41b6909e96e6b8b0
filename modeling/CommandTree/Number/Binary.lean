import CommandTree.Number.Decimal

/-!
# Binary numbers of limited precision

A binary format has a fraction field and an exponent field. The magnitudes it can hold, in order,
are numbered from zero to infinity by those two fields read as one natural number, the *index*.
Every finite magnitude is a whole number of least units, `Format.units`, so that comparing,
rounding and reading need no more than arithmetic on natural numbers. A `Binary` is a sign and an
index; it may be infinite, but it is always a number.
-/

set_option autoImplicit false

namespace CommandTree

/-- A binary format. -/
structure Format where
  /-- The width of the fraction field. -/
  fractionBits : Nat
  /-- The width of the exponent field. -/
  exponentBits : Nat
deriving DecidableEq, Repr

namespace Format

/-- The 32-bit format. -/
def single : Format := ⟨23, 8⟩

/-- The 64-bit format. -/
def double : Format := ⟨52, 11⟩

/-- The index of infinity: all bits of the exponent field, no bit of the fraction field. -/
def infinity (f : Format) : Nat := (Nat.pow 2 f.exponentBits - 1) * Nat.pow 2 f.fractionBits

/-- The least unit is two to the power of minus `scale`. -/
def scale (f : Format) : Nat := Nat.pow 2 (f.exponentBits - 1) - 2 + f.fractionBits

/-- The finite magnitude with a given index, in least units. Where the exponent field is zero the
fraction counts by itself; elsewhere it has a leading one and is shifted. -/
def units (f : Format) (index : Nat) : Nat :=
  let exponent := index / Nat.pow 2 f.fractionBits
  let fraction := index % Nat.pow 2 f.fractionBits
  if exponent = 0 then fraction
  else (Nat.pow 2 f.fractionBits + fraction) * Nat.pow 2 (exponent - 1)

/-- The natural number nearest to a quotient, the even one of two that are equally near. -/
def roundHalfEven (numerator denominator : Nat) : Nat :=
  let quotient := numerator / denominator
  let rest := 2 * (numerator % denominator)
  if denominator < rest ∨ (rest = denominator ∧ quotient % 2 = 1) then quotient + 1 else quotient

/-- The index of the magnitude nearest to a quotient. Magnitudes past the largest finite one are
infinite. -/
def nearest (f : Format) (numerator denominator : Nat) : Nat :=
  let scaled := numerator * Nat.pow 2 f.scale
  let shift := (scaled / denominator).log2 - f.fractionBits
  min f.infinity
    (shift * Nat.pow 2 f.fractionBits +
      roundHalfEven scaled (denominator * Nat.pow 2 shift))

/-- Decimals from `10 ^ reach` on are infinite, and those below `10 ^ -reach` are zero. -/
def reach (f : Format) : Int := Nat.pow 2 f.exponentBits

/-- The index of the magnitude nearest to a decimal. -/
def ofDecimal (f : Format) (d : Decimal) : Nat :=
  if d.coefficient = 0 ∨ d.magnitude < -f.reach then 0
  else if f.reach ≤ d.magnitude then f.infinity
  else f.nearest d.numerator d.denominator

/-- The nearest number of a fraction is at most the one that stands for infinity. -/
theorem nearest_le (f : Format) (numerator denominator : Nat) :
    f.nearest numerator denominator ≤ f.infinity := Nat.min_le_left _ _

/-- The nearest number of a decimal is at most the one that stands for infinity. -/
theorem ofDecimal_le (f : Format) (d : Decimal) : f.ofDecimal d ≤ f.infinity := by
  unfold ofDecimal
  split
  · exact Nat.zero_le _
  · split
    · exact Nat.le_refl _
    · exact nearest_le _ _ _

end Format

/-- A number of a binary format, possibly infinite. -/
structure Binary (f : Format) where
  /-- Whether the number carries a minus sign; zero may. -/
  negative : Bool
  /-- The index of the magnitude. -/
  index : Nat
  /-- The magnitude is infinite at most. -/
  le_infinity : index ≤ f.infinity
deriving DecidableEq

namespace Binary

variable {f : Format}

/-- The largest finite number. -/
def greatest (f : Format) : Binary f := ⟨false, f.infinity - 1, Nat.sub_le _ _⟩

/-- The most negative finite number. -/
def least (f : Format) : Binary f := ⟨true, f.infinity - 1, Nat.sub_le _ _⟩

/-- An infinite number. -/
def infinite (f : Format) (negative : Bool) : Binary f := ⟨negative, f.infinity, Nat.le_refl _⟩

/-- The number nearest to a signed decimal. -/
def ofDecimal (f : Format) (negative : Bool) (d : Decimal) : Binary f :=
  ⟨negative, f.ofDecimal d, Format.ofDecimal_le f d⟩

/-- The number of format `f` nearest to a number of another format. -/
def convert {g : Format} (f : Format) (b : Binary g) : Binary f :=
  if b.index = g.infinity then infinite f b.negative
  else ⟨b.negative, f.nearest (g.units b.index) (Nat.pow 2 g.scale), Format.nearest_le _ _ _⟩

/-- Whether the number is infinite. -/
def isInfinite (b : Binary f) : Bool := b.index == f.infinity

/-- The place of the number among all numbers of its format. The two zeros share one place. -/
def place (b : Binary f) : Int := if b.negative then -b.index else b.index

instance : LE (Binary f) := ⟨fun a b => a.place ≤ b.place⟩

instance (a b : Binary f) : Decidable (a ≤ b) :=
  inferInstanceAs (Decidable (a.place ≤ b.place))

/-- Equality as numbers, for which the sign of zero does not matter. -/
def same (a b : Binary f) : Bool := a.place == b.place

/-- The bits of the number: the sign, the exponent field and the fraction field. -/
def bits (b : Binary f) : Nat :=
  b.index + if b.negative then Nat.pow 2 (f.exponentBits + f.fractionBits) else 0

end Binary

end CommandTree
