import CommandTree.Number.Shortest
import CommandTree.Proofs.Number.Digits

/-!
# Rounding decimals to binary numbers

The index of the magnitude nearest to a decimal depends on the value of the decimal alone, not on
how the value is divided into a coefficient and a power of ten. So a decimal may be trimmed, or
written out with all its zeros, before it is read back.

A magnitude of a format is nearest to itself: it is a whole number of units, and the spacing of the
magnitudes around it divides it. The exact decimal of a magnitude is therefore read back as that
magnitude, and the shortest decimal is as well, because it is only chosen among decimals that are.
-/

set_option autoImplicit false

namespace CommandTree.Format

variable (f : Format)

/-! ## Values -/

/-- Rounding a fraction does not depend on how it is expanded. -/
theorem roundHalfEven_mul_left {k : Nat} (hk : 0 < k) (a b : Nat) :
    roundHalfEven (k * a) (k * b) = roundHalfEven a b := by
  have hlt : k * b < 2 * (k * (a % b)) ↔ b < 2 * (a % b) := by
    rw [Nat.mul_left_comm]
    exact Nat.mul_lt_mul_left hk
  have heq : 2 * (k * (a % b)) = k * b ↔ 2 * (a % b) = b := by
    rw [Nat.mul_left_comm]
    exact Nat.mul_right_inj (Nat.ne_of_gt hk)
  simp only [roundHalfEven, Nat.mul_div_mul_left a b hk, Nat.mul_mod_mul_left, hlt, heq]

/-- Rounding a whole number gives that number. -/
theorem roundHalfEven_mul_self {d : Nat} (hd : 0 < d) (q : Nat) : roundHalfEven (q * d) d = q := by
  simp [roundHalfEven, Nat.mul_div_cancel q hd]
  omega

/-- The nearest magnitude depends on the quotient alone. -/
theorem nearest_mul_left {k : Nat} (hk : 0 < k) (a b : Nat) :
    f.nearest (k * a) (k * b) = f.nearest a b := by
  simp only [nearest, Nat.mul_assoc, Nat.mul_div_mul_left _ b hk, roundHalfEven_mul_left hk]

/-- A factor of ten may stand in the coefficient or in the power of ten. -/
theorem ofDecimal_ten_mul (c : Nat) (e : Int) :
    f.ofDecimal ⟨10 * c, e⟩ = f.ofDecimal ⟨c, e + 1⟩ := by
  by_cases hc : c = 0
  · simp [ofDecimal, hc]
  have hpos : 0 < c := Nat.pos_of_ne_zero hc
  have hmagnitude : Decimal.magnitude ⟨10 * c, e⟩ = Decimal.magnitude ⟨c, e + 1⟩ := by
    simp only [Decimal.magnitude, Decimal.digitCount_ten_mul hpos]
    omega
  have hnearest : f.nearest (Decimal.numerator ⟨10 * c, e⟩) (Decimal.denominator ⟨10 * c, e⟩) =
      f.nearest (Decimal.numerator ⟨c, e + 1⟩) (Decimal.denominator ⟨c, e + 1⟩) := by
    simp only [Decimal.numerator, Decimal.denominator, Nat.pow_eq]
    by_cases he : 0 ≤ e
    · have htoNat : (e + 1).toNat = e.toNat + 1 := by omega
      have hzero : (-e).toNat = 0 := by omega
      have hzero' : (-(e + 1)).toNat = 0 := by omega
      rw [htoNat, hzero, hzero', Nat.pow_succ, Nat.mul_comm 10 c, Nat.mul_assoc,
        Nat.mul_comm 10]
    · have htoNat : (-e).toNat = (-(e + 1)).toNat + 1 := by omega
      have hzero : e.toNat = 0 := by omega
      have hzero' : (e + 1).toNat = 0 := by omega
      rw [htoNat, hzero, hzero', Nat.pow_succ, Nat.pow_zero, Nat.mul_one, Nat.mul_one,
        Nat.mul_comm (10 ^ _) 10]
      exact f.nearest_mul_left (by decide) _ _
  have hcoefficient : 10 * c ≠ 0 := by omega
  simp only [ofDecimal, hmagnitude, hnearest, hc, hcoefficient, false_or]

/-- Zeros at the end of the digits may be counted into the exponent. -/
theorem ofDecimal_mul_pow (c k : Nat) (e : Int) :
    f.ofDecimal ⟨c * 10 ^ k, e⟩ = f.ofDecimal ⟨c, e + k⟩ := by
  induction k generalizing e with
  | zero => simp
  | succ k ih =>
    rw [Nat.pow_succ, ← Nat.mul_assoc, Nat.mul_comm _ 10, ofDecimal_ten_mul, ih]
    congr 2
    omega

/-- Trimming the zeros at the end of a decimal does not change the nearest number. -/
theorem ofDecimal_trim (d : Decimal) : f.ofDecimal d.trim = f.ofDecimal d := by
  fun_induction Decimal.trim d with
  | case1 d hzero => simp [ofDecimal, hzero]
  | case2 d hzero hten ih =>
    rw [ih, ← ofDecimal_ten_mul]
    congr 2
    omega
  | case3 d hzero hten => rfl

/-- A decimal with all its zeros written out has the same value. -/
theorem ofDecimal_unfold (d : Decimal) :
    f.ofDecimal ⟨d.coefficient * 10 ^ d.exponent.toNat, min d.exponent 0⟩ = f.ofDecimal d := by
  rw [ofDecimal_mul_pow]
  congr 2
  omega

/-! ## Magnitudes -/

/-- A magnitude is a significand times the spacing of the magnitudes around it. The significand has
at most one bit more than the fraction field, and that bit is set where the spacing is not the
least. -/
theorem exists_significand (index : Nat) :
    ∃ significand shift, f.units index = significand * 2 ^ shift ∧
      shift * 2 ^ f.fractionBits + significand = index ∧ significand < 2 ^ (f.fractionBits + 1) ∧
      (shift ≠ 0 → 2 ^ f.fractionBits ≤ significand) := by
  have hpos : 0 < 2 ^ f.fractionBits := Nat.pow_pos (by decide)
  have hlt := Nat.mod_lt index hpos
  have hdiv := Nat.div_add_mod index (2 ^ f.fractionBits)
  rw [Nat.mul_comm] at hdiv
  have hsucc : 2 ^ (f.fractionBits + 1) = 2 ^ f.fractionBits * 2 := Nat.pow_succ ..
  unfold units
  simp only [Nat.pow_eq]
  generalize index % 2 ^ f.fractionBits = fraction at *
  generalize index / 2 ^ f.fractionBits = exponent at *
  cases exponent with
  | zero => exact ⟨fraction, 0, by simp, by omega, by omega, by simp⟩
  | succ shift =>
    refine ⟨2 ^ f.fractionBits + fraction, shift, by simp, ?_, by omega, by omega⟩
    rw [Nat.add_mul, Nat.one_mul] at hdiv
    omega

/-- The position of the leading bit tells by how much a significand is shifted. -/
theorem log2_units {significand shift : Nat} (hlt : significand < 2 ^ (f.fractionBits + 1))
    (hle : shift ≠ 0 → 2 ^ f.fractionBits ≤ significand) :
    (significand * 2 ^ shift).log2 - f.fractionBits = shift := by
  by_cases hshift : shift = 0
  · subst hshift
    by_cases hzero : significand = 0
    · simp [hzero]
    · have := (Nat.log2_lt hzero).mpr hlt
      rw [Nat.pow_zero, Nat.mul_one]
      omega
  · have hle := hle hshift
    have hpos : 0 < 2 ^ f.fractionBits := Nat.pow_pos (by decide)
    have hne : significand * 2 ^ shift ≠ 0 :=
      Nat.mul_ne_zero (by omega) (Nat.ne_of_gt (Nat.pow_pos (by decide)))
    have hupper : (significand * 2 ^ shift).log2 < f.fractionBits + 1 + shift := by
      rw [Nat.log2_lt hne, Nat.pow_add]
      exact Nat.mul_lt_mul_of_pos_right hlt (Nat.pow_pos (by decide))
    have hlower : f.fractionBits + shift ≤ (significand * 2 ^ shift).log2 := by
      rw [Nat.le_log2 hne, Nat.pow_add]
      exact Nat.mul_le_mul_right _ hle
    omega

/-- A magnitude is nearest to itself, as whatever quotient it is given. -/
theorem nearest_units {index k : Nat} (hindex : index ≤ f.infinity) (hk : 0 < k) :
    f.nearest (f.units index * k) (2 ^ f.scale * k) = index := by
  obtain ⟨significand, shift, hunits, hsum, hlt, hle⟩ := f.exists_significand index
  have hscale : 0 < 2 ^ f.scale * k := Nat.mul_pos (Nat.pow_pos (by decide)) hk
  have hspacing : 0 < 2 ^ f.scale * k * 2 ^ shift := Nat.mul_pos hscale (Nat.pow_pos (by decide))
  have hscaled : f.units index * k * 2 ^ f.scale = f.units index * (2 ^ f.scale * k) := by
    rw [Nat.mul_assoc, Nat.mul_comm k]
  have hwhole : f.units index * (2 ^ f.scale * k) =
      significand * (2 ^ f.scale * k * 2 ^ shift) := by
    rw [hunits, Nat.mul_assoc, Nat.mul_comm (2 ^ shift)]
  simp only [nearest, Nat.pow_eq]
  rw [hscaled, Nat.mul_div_cancel _ hscale, hunits, f.log2_units hlt hle, ← hunits, hwhole,
    roundHalfEven_mul_self hspacing, hsum, Nat.min_eq_right hindex]

/-- A number of a format is the nearest one of that format. -/
theorem convert_self (b : Binary f) : b.convert f = b := by
  obtain ⟨negative, index, hindex⟩ := b
  unfold Binary.convert
  split
  · rename_i hinfinite
    obtain rfl : index = f.infinity := hinfinite
    rfl
  · have hnearest := f.nearest_units hindex Nat.one_pos
    simp only [Nat.mul_one] at hnearest
    simp only [Nat.pow_eq, hnearest]

/-! ## Shortest decimals -/

/-- The bounds that a format has to respect for its exact decimals not to be taken for zeros or
infinities. -/
structure Usual (f : Format) : Prop where
  /-- There are fewer places in the fraction than behind the point. -/
  fractionBits_le : f.fractionBits ≤ f.scale
  /-- There are fewer places behind the point than there are exponents. -/
  scale_le : f.scale ≤ 2 ^ f.exponentBits

/-- Single precision respects the bounds. -/
theorem usual_single : Usual single := ⟨by decide, by decide⟩

/-- Double precision respects the bounds. -/
theorem usual_double : Usual double := ⟨by decide, by decide⟩

variable {f}

/-- A finite number is less than the first one that is infinite, in units of the smallest number. -/
theorem units_lt {index : Nat} (hindex : index < f.infinity) :
    f.units index < 2 ^ (f.fractionBits + 2 ^ f.exponentBits) := by
  obtain ⟨significand, shift, hunits, hsum, hlt, -⟩ := f.exists_significand index
  have hpos : 0 < 2 ^ f.fractionBits := Nat.pow_pos (by decide)
  have hshift : shift < 2 ^ f.exponentBits - 1 := by
    have hmul : shift * 2 ^ f.fractionBits < (2 ^ f.exponentBits - 1) * 2 ^ f.fractionBits := by
      have : index < (2 ^ f.exponentBits - 1) * 2 ^ f.fractionBits := hindex
      omega
    exact Nat.lt_of_mul_lt_mul_right hmul
  have hle : f.fractionBits + 1 + shift ≤ f.fractionBits + 2 ^ f.exponentBits := by omega
  calc f.units index = significand * 2 ^ shift := hunits
    _ < 2 ^ (f.fractionBits + 1) * 2 ^ shift :=
      Nat.mul_lt_mul_of_pos_right hlt (Nat.pow_pos (by decide))
    _ = 2 ^ (f.fractionBits + 1 + shift) := (Nat.pow_add ..).symm
    _ ≤ 2 ^ (f.fractionBits + 2 ^ f.exponentBits) := Nat.pow_le_pow_right (by decide) hle

/-- Only the first number is zero. -/
theorem units_pos {index : Nat} (h : index ≠ 0) : 0 < f.units index := by
  obtain ⟨significand, shift, hunits, hsum, -, hle⟩ := f.exists_significand index
  have hpos : 0 < 2 ^ f.fractionBits := Nat.pow_pos (by decide)
  have hsignificand : 0 < significand := by
    by_cases hshift : shift = 0
    · subst hshift
      omega
    · have := hle hshift
      omega
  rw [hunits]
  exact Nat.mul_pos hsignificand (Nat.pow_pos (by decide))

/-- The exact decimal of a number is nearest to that number. -/
theorem ofDecimal_exactDecimal (hf : f.Usual) {index : Nat} (hzero : index ≠ 0)
    (hindex : index < f.infinity) : f.ofDecimal (f.exactDecimal index) = index := by
  have hcoefficient : 0 < f.units index * 5 ^ f.scale :=
    Nat.mul_pos (units_pos hzero) (Nat.pow_pos (by decide))
  have hcount : Decimal.digitCount (f.units index * 5 ^ f.scale) ≤
      2 ^ f.exponentBits + f.scale := by
    have hpos : 0 < 2 ^ f.exponentBits := Nat.pow_pos (by decide)
    rw [Decimal.digitCount_le_iff (by omega)]
    have hle := hf.fractionBits_le
    calc f.units index * 5 ^ f.scale
        < 2 ^ (f.fractionBits + 2 ^ f.exponentBits) * 5 ^ f.scale :=
          Nat.mul_lt_mul_of_pos_right (units_lt hindex) (Nat.pow_pos (by decide))
      _ ≤ 2 ^ (2 ^ f.exponentBits + f.scale) * 5 ^ (2 ^ f.exponentBits + f.scale) :=
          Nat.mul_le_mul (Nat.pow_le_pow_right (by decide) (by omega))
            (Nat.pow_le_pow_right (by decide) (by omega))
      _ = 10 ^ (2 ^ f.exponentBits + f.scale) := (Nat.mul_pow 2 5 _).symm
  have hfirst := Decimal.digitCount_pos (f.units index * 5 ^ f.scale)
  have hscale := hf.scale_le
  have hreach : f.reach = (2 ^ f.exponentBits : Nat) := rfl
  have hmagnitude : (f.exactDecimal index).magnitude =
      (Decimal.digitCount (f.units index * 5 ^ f.scale) : Int) - f.scale - 1 := by
    simp only [Decimal.magnitude, exactDecimal, Nat.pow_eq]
    omega
  have hnumerator : (f.exactDecimal index).numerator = f.units index * 5 ^ f.scale := by
    have hzero : (-(f.scale : Int)).toNat = 0 := by omega
    simp [Decimal.numerator, exactDecimal, hzero]
  have hdenominator : (f.exactDecimal index).denominator = 2 ^ f.scale * 5 ^ f.scale := by
    have hscale : (- -(f.scale : Int)).toNat = f.scale := by omega
    rw [← Nat.mul_pow]
    simp [Decimal.denominator, exactDecimal]
  -- neither of the shortcuts for decimals that are out of reach is taken
  have hlow : ¬ ((f.exactDecimal index).coefficient = 0 ∨
      (f.exactDecimal index).magnitude < -f.reach) := by
    have hne : (f.exactDecimal index).coefficient ≠ 0 := Nat.ne_of_gt hcoefficient
    rw [hmagnitude, hreach]
    omega
  have hhigh : ¬ f.reach ≤ (f.exactDecimal index).magnitude := by
    rw [hmagnitude, hreach]
    omega
  rw [ofDecimal, if_neg hlow, if_neg hhigh, hnumerator, hdenominator]
  exact f.nearest_units (Nat.le_of_lt hindex) (Nat.pow_pos (by decide))

/-- A neighbouring decimal that is found is nearest to the number. -/
theorem readsBack_of_neighbour? {tie : Tie} {index : Nat} {exponent : Int} {d : Decimal}
    (h : f.neighbour? tie index exponent = some d) : f.ofDecimal d = index := by
  unfold neighbour? at h
  have hreads := List.find?_some h
  simpa [readsBack] using hreads

/-- The shortest decimal of a magnitude is read back as that magnitude. -/
theorem ofDecimal_shortest (hf : f.Usual) (tie : Tie) {index : Nat} (hindex : index < f.infinity) :
    f.ofDecimal (f.shortest tie index) = index := by
  unfold shortest
  by_cases hzero : index = 0
  · simp [hzero, ofDecimal]
  · simp only [hzero, if_false, ofDecimal_trim]
    generalize hgrids : (List.range f.digitLimit).map _ = grids
    cases hfound : grids.findSome? (f.neighbour? tie index) with
    | none => exact ofDecimal_exactDecimal hf hzero hindex
    | some d =>
      obtain ⟨exponent, -, hneighbour⟩ := List.exists_of_findSome?_eq_some hfound
      exact readsBack_of_neighbour? hneighbour

end CommandTree.Format
