import CommandTree.Number.NumberKind
import CommandTree.Proofs.Number.Rounding
import Mathlib.Data.List.TakeDrop

/-!
# Texts of numbers are read back

The text of a number of any kind is read back as exactly that number, the sign of a zero included.
For the binary kinds the plain text of a decimal is read as a decimal of the same value, and the
shortest decimal of a number is nearest to it.
-/

set_option autoImplicit false

namespace CommandTree

namespace Literal

/-- Digits are split off a text up to a character that is none. -/
theorem span_isDigit {ds : List Char} (rest : List Char) (hds : ∀ c ∈ ds, isDigit c = true)
    (hrest : rest.head?.all (!isDigit ·) = true) : (ds ++ rest).span isDigit = (ds, rest) := by
  rw [List.span_eq_takeWhile_dropWhile, List.takeWhile_append_of_pos hds,
    List.dropWhile_append_of_pos hds]
  cases rest with
  | nil => simp
  | cons c cs =>
    have hc : isDigit c = false := by simpa using hrest
    simp [hc]

/-- A numeral is read as a decimal without places. -/
theorem readDecimal_of_digits {ds : List Char} (hds : ∀ c ∈ ds, isDigit c = true)
    (hne : ds ≠ []) : readDecimal ds = some ⟨Decimal.ofDigits ds, 0⟩ := by
  have hspan := span_isDigit [] hds rfl
  rw [List.append_nil] at hspan
  unfold readDecimal
  rw [hspan]
  simp [splitFraction, hne]

/-- A numeral with a point is read as a decimal with as many places as there are digits behind the
point. -/
theorem readDecimal_of_point {ds fs : List Char} (hds : ∀ c ∈ ds, isDigit c = true)
    (hfs : ∀ c ∈ fs, isDigit c = true) (hne : ds ≠ []) :
    readDecimal (ds ++ '.' :: fs) = some ⟨Decimal.ofDigits (ds ++ fs), -fs.length⟩ := by
  have hspan := span_isDigit ('.' :: fs) hds rfl
  have hfraction := span_isDigit [] hfs rfl
  rw [List.append_nil] at hfraction
  unfold readDecimal
  rw [hspan]
  simp only [splitFraction]
  rw [hfraction]
  simp [hne]

/-- The plain text of a decimal is read as the decimal with all its zeros written out. -/
theorem readDecimal_positional (d : Decimal) :
    readDecimal d.positional =
      some ⟨d.coefficient * 10 ^ d.exponent.toNat, min d.exponent 0⟩ := by
  have hdigits : ∀ c ∈ Decimal.digits d.coefficient, isDigit c = true :=
    fun c hc => Decimal.isDigit_of_mem_digits hc
  have hzeros : ∀ n, ∀ c ∈ Decimal.zeros n, isDigit c = true :=
    fun n c hc => Decimal.isDigit_of_mem_zeros hc
  have hne := Decimal.digits_ne_nil d.coefficient
  unfold Decimal.positional
  by_cases hexponent : 0 ≤ d.exponent
  · have hall : ∀ c ∈ Decimal.digits d.coefficient ++ Decimal.zeros d.exponent.toNat,
        isDigit c = true := List.forall_mem_append.mpr ⟨hdigits, hzeros _⟩
    rw [if_pos hexponent, readDecimal_of_digits hall (by simp [hne]),
      Decimal.ofDigits_append_zeros, Int.min_eq_right hexponent]
  have htoNat : d.exponent.toNat = 0 := by omega
  have hmin : min d.exponent 0 = d.exponent := by omega
  rw [if_neg hexponent, htoNat, Nat.pow_zero, Nat.mul_one, hmin]
  generalize hplaces : (-d.exponent).toNat = places
  have hvalue : d.exponent = -(places : Int) := by omega
  have hpos : 0 < places := by omega
  by_cases hpoint : places < (Decimal.digits d.coefficient).length
  · -- the point stands among the digits
    simp only [hpoint, if_true]
    have hsplit := List.take_append_drop ((Decimal.digits d.coefficient).length - places)
      (Decimal.digits d.coefficient)
    have hwhole : (Decimal.digits d.coefficient).take
        ((Decimal.digits d.coefficient).length - places) ≠ [] := by
      rw [← List.length_pos_iff, List.length_take]
      omega
    rw [readDecimal_of_point (fun c hc => hdigits c (List.mem_of_mem_take hc))
      (fun c hc => hdigits c (List.mem_of_mem_drop hc)) hwhole, hsplit, Decimal.ofDigits_digits,
      List.length_drop, hvalue]
    congr 3
    omega
  · -- there is only a zero before the point
    simp only [hpoint, if_false]
    have hfraction : ∀ c ∈ Decimal.zeros (places - (Decimal.digits d.coefficient).length) ++
        Decimal.digits d.coefficient, isDigit c = true :=
      List.forall_mem_append.mpr ⟨hzeros _, hdigits⟩
    have hread := readDecimal_of_point (hzeros 1) hfraction (by decide)
    rw [← List.append_assoc, Decimal.zeros_append_zeros, Decimal.ofDigits_zeros_append] at hread
    have hlength : (Decimal.zeros (places - (Decimal.digits d.coefficient).length) ++
        Decimal.digits d.coefficient).length = places := by
      simp only [Decimal.zeros, List.length_append, List.length_replicate]
      omega
    rw [hlength] at hread
    rw [hvalue]
    exact hread

/-- The plain text of a decimal starts with a digit. -/
theorem exists_positional_cons (d : Decimal) :
    ∃ c cs, d.positional = c :: cs ∧ isDigit c = true := by
  obtain ⟨c, cs, hcs⟩ := List.exists_cons_of_ne_nil (Decimal.digits_ne_nil d.coefficient)
  have hc : isDigit c = true := by
    refine Decimal.isDigit_of_mem_digits (n := d.coefficient) ?_
    rw [hcs]
    exact List.mem_cons_self
  unfold Decimal.positional
  rw [hcs]
  split
  · exact ⟨c, _, rfl, hc⟩
  · dsimp only
    split
    · rename_i hexponent hpoint
      obtain ⟨k, hk⟩ : ∃ k, (c :: cs).length - (-d.exponent).toNat = k + 1 :=
        ⟨(c :: cs).length - (-d.exponent).toNat - 1, by omega⟩
      simp only [hk]
      exact ⟨c, _, rfl, hc⟩
    · exact ⟨'0', _, rfl, rfl⟩

/-- Digits have no lower case of their own. -/
theorem toLower_of_isDigit {c : Char} (hc : isDigit c = true) : c.toLower = c := by
  have hle : c.val ≤ '9'.val := (Decimal.isDigit_iff.mp hc).2
  unfold Char.toLower
  rw [dif_neg]
  rintro ⟨hge, -⟩
  exact absurd (UInt32.le_trans hge hle) (by decide)

/-- The sign and the plain text of a decimal are read as such. -/
theorem read_positional (negative : Bool) (d : Decimal) :
    read ((if negative then ['-'] else []) ++ d.positional) =
      .ok (.decimal negative ⟨d.coefficient * 10 ^ d.exponent.toNat, min d.exponent 0⟩) := by
  obtain ⟨c, cs, hpositional, hc⟩ := exists_positional_cons d
  have hread := readDecimal_positional d
  rw [hpositional] at hread ⊢
  have hsplit : Whole.splitSign ((if negative then ['-'] else []) ++ c :: cs) =
      (negative, c :: cs) := by
    cases negative with
    | true => rfl
    | false => exact Whole.splitSign_of_isDigit hc cs
  have hname : ∀ name : String, name.toList.head?.any isDigit = false →
      String.ofList ((c :: cs).map Char.toLower) ≠ name := by
    rintro _ hhead rfl
    rw [String.toList_ofList, List.map_cons, toLower_of_isDigit hc] at hhead
    simp [hc] at hhead
  have hinf : ¬ (String.ofList ((c :: cs).map Char.toLower) = "inf" ∨
      String.ofList ((c :: cs).map Char.toLower) = "infinity") :=
    not_or.mpr ⟨hname "inf" (by decide), hname "infinity" (by decide)⟩
  have hnan := hname "nan" (by decide)
  have hne : ((if negative then ['-'] else []) ++ c :: cs).isEmpty = false := by simp
  unfold read
  rw [hne, hsplit]
  simp only [Bool.false_eq_true, if_false]
  rw [if_neg hinf, if_neg hnan, hread]

end Literal

namespace Binary

/-- An infinity is known by its sign. -/
theorem infinite_of_isInfinite {f : Format} {b : Binary f} (h : b.isInfinite = true) :
    infinite f b.negative = b := by
  obtain ⟨negative, index, hle⟩ := b
  obtain rfl : index = f.infinity := by simpa [isInfinite] using h
  rfl

/-- A decimal that is nearest to a number is read as that number. -/
theorem ofDecimal_of_eq {f : Format} {b : Binary f} {d : Decimal} (h : f.ofDecimal d = b.index) :
    ofDecimal f b.negative d = b := by
  obtain ⟨negative, index, hle⟩ := b
  obtain rfl : f.ofDecimal d = index := h
  rfl

/-- The text of a binary number is read back as the number, and so is the sign of a zero. -/
theorem toBinary?_text {f : Format} (hf : f.Usual) (b : Binary f) :
    (Literal.read b.text).map (Literal.toBinary? f) = .ok (some b) := by
  unfold text
  by_cases hinfinite : b.isInfinite = true
  · have hread : Literal.read ((if b.negative then ['-'] else []) ++ ['i', 'n', 'f']) =
        .ok (.infinite b.negative) := by
      cases b.negative <;> rfl
    rw [if_pos hinfinite, hread, Except.map, Literal.toBinary?, infinite_of_isInfinite hinfinite]
  · have hindex : b.index < f.infinity := by
      have hne : b.index ≠ f.infinity := by simpa [isInfinite] using hinfinite
      have hle := b.le_infinity
      omega
    have hvalue : f.ofDecimal ⟨_, _⟩ = b.index :=
      (f.ofDecimal_unfold (f.shortest .upwards b.index)).trans
        (Format.ofDecimal_shortest hf .upwards hindex)
    rw [if_neg hinfinite, Literal.read_positional, Except.map, Literal.toBinary?,
      ofDecimal_of_eq hvalue]

end Binary

namespace NumberKind

/-- The text of a number is read back as the number. -/
theorem read_text (kind : NumberKind) (value : kind.Value) :
    kind.read (kind.text value) = .ok (some value) := by
  cases kind with
  | integer => simp [read, text, Whole.read_text, Except.map]
  | long => simp [read, text, Whole.read_text, Except.map]
  | float => simpa [read, text] using Binary.toBinary?_text Format.usual_single value
  | double => simpa [read, text] using Binary.toBinary?_text Format.usual_double value

end NumberKind

end CommandTree
