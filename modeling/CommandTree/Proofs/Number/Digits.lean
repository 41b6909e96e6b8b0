import CommandTree.Number.Literal
import Mathlib.Algebra.Group.Nat.Defs

/-!
# Digits and the numbers they stand for

The decimal digits of a natural number are read back as that number, with leading zeros in front of
them as well as with zeros behind them as far as the latter are counted. Integers of limited width
follow: their reader checks the range at every digit, and no part of the digits of a number exceeds
the number.
-/

set_option autoImplicit false

namespace CommandTree

namespace Decimal

/-- The digits are the characters from the first one to the last one. -/
theorem isDigit_iff {c : Char} : Literal.isDigit c = true ↔ '0' ≤ c ∧ c ≤ '9' := by
  unfold Literal.isDigit digit?
  split <;> simp_all

/-- A digit has the value by which it is behind the first one. -/
theorem digit?_of_isDigit {c : Char} (h : Literal.isDigit c = true) :
    digit? c = some (c.toNat - '0'.toNat) := by
  rw [digit?, if_pos (isDigit_iff.mp h)]

/-- The numeral of a number consists of digits. -/
theorem isDigit_of_mem_digits {n : Nat} {c : Char} (h : c ∈ digits n) :
    Literal.isDigit c = true := by
  have hdigit := Nat.isDigit_of_mem_toDigits (by decide) (by decide) h
  simp only [Char.isDigit, Bool.and_eq_true, decide_eq_true_eq] at hdigit
  exact isDigit_iff.mpr ⟨hdigit.1, hdigit.2⟩

/-- Zeros are digits. -/
theorem isDigit_of_mem_zeros {n : Nat} {c : Char} (h : c ∈ zeros n) :
    Literal.isDigit c = true := by
  rw [(List.mem_replicate.mp h).2]
  decide

/-- On digits, `ofDigits` is what the library has. -/
theorem ofDigits_eq {cs : List Char} (h : ∀ c ∈ cs, Literal.isDigit c = true) :
    ofDigits cs = Nat.ofDigitChars 10 cs 0 := by
  have hfold : ∀ n, cs.foldl (fun n c => n * 10 + (digit? c).getD 0) n =
      Nat.ofDigitChars 10 cs n := by
    induction cs with
    | nil => exact fun n => rfl
    | cons c cs ih =>
      intro n
      obtain ⟨hc, hcs⟩ := List.forall_mem_cons.mp h
      rw [List.foldl_cons, ih hcs, Nat.ofDigitChars_cons, digit?_of_isDigit hc, Nat.mul_comm]
      rfl
  exact hfold 0

/-- A numeral has the value of its number. -/
theorem ofDigits_digits (n : Nat) : ofDigits (digits n) = n := by
  rw [ofDigits_eq fun c hc => isDigit_of_mem_digits hc]
  exact Nat.ofDigitChars_ten_toDigits

/-- Zeros in front of a numeral do not change its value. -/
theorem ofDigits_zeros_append (k n : Nat) : ofDigits (zeros k ++ digits n) = n := by
  have hdigits : ∀ c ∈ zeros k ++ digits n, Literal.isDigit c = true := by
    intro c hc
    rcases List.mem_append.mp hc with h | h
    · exact isDigit_of_mem_zeros h
    · exact isDigit_of_mem_digits h
  rw [ofDigits_eq hdigits, Nat.ofDigitChars_append, zeros, Nat.ofDigitChars_replicate_zero,
    Nat.mul_zero]
  exact Nat.ofDigitChars_ten_toDigits

/-- A zero behind a numeral makes its value ten times as great. -/
theorem ofDigits_append_zeros (n k : Nat) : ofDigits (digits n ++ zeros k) = n * 10 ^ k := by
  have hdigits : ∀ c ∈ digits n ++ zeros k, Literal.isDigit c = true := by
    intro c hc
    rcases List.mem_append.mp hc with h | h
    · exact isDigit_of_mem_digits h
    · exact isDigit_of_mem_zeros h
  rw [ofDigits_eq hdigits, Nat.ofDigitChars_append, zeros, Nat.ofDigitChars_replicate_zero, digits,
    Nat.ofDigitChars_ten_toDigits, Nat.mul_comm]

/-- Zeros behind zeros are zeros. -/
theorem zeros_append_zeros (m n : Nat) : zeros m ++ zeros n = zeros (m + n) :=
  List.replicate_append_replicate

/-- Every number has a digit. -/
theorem digits_ne_nil (n : Nat) : digits n ≠ [] := Nat.toDigits_ne_nil

/-- Every number has at least one digit. -/
theorem digitCount_pos (n : Nat) : 0 < digitCount n := Nat.length_toDigits_pos

/-- Ten times a number has one digit more, unless the number is zero. -/
theorem digitCount_ten_mul {n : Nat} (h : 0 < n) : digitCount (10 * n) = digitCount n + 1 := by
  have happend := Nat.toDigits_append_toDigits (b := 10) (d := 0) (by decide) h (by decide)
  rw [Nat.add_zero] at happend
  unfold digitCount digits
  rw [← happend, List.length_append]
  rfl

/-- A number has at most so many digits if it is less than that power of ten. -/
theorem digitCount_le_iff {n k : Nat} (h : 0 < k) : digitCount n ≤ k ↔ n < 10 ^ k :=
  Nat.length_toDigits_le_iff (by decide) h

end Decimal

namespace Whole

variable {bits : Nat}

/-- A text that starts with a digit has no sign. -/
theorem splitSign_of_isDigit {c : Char} (hc : Literal.isDigit c = true) (cs : List Char) :
    splitSign (c :: cs) = (false, c :: cs) := by
  unfold splitSign
  split
  · simp_all [Literal.isDigit, Decimal.digit?]
  · simp_all [Literal.isDigit, Decimal.digit?]
  · rfl

/-- Reading on never makes the value of a numeral smaller. -/
theorem le_ofDigitChars (n : Nat) (cs : List Char) : n ≤ Nat.ofDigitChars 10 cs n := by
  rw [Nat.ofDigitChars_eq_ofDigitChars_zero]
  have hpos : 0 < 10 ^ cs.length := Nat.pow_pos (by decide)
  have hle : 1 * n ≤ 10 ^ cs.length * n := Nat.mul_le_mul_right n hpos
  omega

/-- Digits whose number is in range are read as that number, because what comes out in the middle is
no greater. -/
theorem readDigits_of_digits {negative : Bool} {cs : List Char} (read : Nat)
    (hdigits : ∀ c ∈ cs, Literal.isDigit c = true)
    (hrange : Nat.ofDigitChars 10 cs read < limit bits + if negative then 1 else 0) :
    readDigits bits negative read cs = .ok (Nat.ofDigitChars 10 cs read) := by
  induction cs generalizing read with
  | nil => rfl
  | cons c cs ih =>
    obtain ⟨hc, hcs⟩ := List.forall_mem_cons.mp hdigits
    rw [Nat.ofDigitChars_cons] at hrange ⊢
    have hle := le_ofDigitChars (10 * read + (c.toNat - '0'.toNat)) cs
    have ih := ih _ hcs hrange
    rw [Nat.mul_comm 10 read] at hle ih hrange ⊢
    rw [readDigits, Decimal.digit?_of_isDigit hc]
    generalize c.toNat - '0'.toNat = d at hle ih hrange ⊢
    cases negative with
    | true =>
      simp only [if_true] at hrange
      have hnot : ¬ limit bits < read * 10 + d := by omega
      simpa [hnot] using ih
    | false =>
      simp only [Bool.false_eq_true, if_false] at hrange
      have hnot : ¬ limit bits ≤ read * 10 + d := by omega
      simpa [hnot] using ih

/-- The value of an integer of a width is an integer of that width. -/
theorem ofInt?_value (w : Whole bits) : ofInt? bits w.value = some w := by
  rw [ofInt?, dif_pos ⟨w.lower, w.upper⟩]

/-- A text with a sign and digits is read as the integer of that value. -/
theorem read_of_splitSign {text digits : List Char} {negative : Bool} {n : Nat} {w : Whole bits}
    (hsplit : splitSign text = (negative, digits)) (htext : text.isEmpty = false)
    (hdigits : digits.isEmpty = false) (hread : readDigits bits negative 0 digits = .ok n)
    (hvalue : (if negative then -(n : Int) else n) = w.value) : read bits text = .ok w := by
  simp only [read, htext, hsplit, hdigits, hread, Bool.false_eq_true, if_false]
  rw [hvalue, ofInt?_value]

/-- The text of an integer is read back as the integer. -/
theorem read_text (w : Whole bits) : read bits w.text = .ok w := by
  have hlower := w.lower
  have hupper := w.upper
  have hdigits : ∀ c ∈ Decimal.digits w.value.natAbs, Literal.isDigit c = true :=
    fun c hc => Decimal.isDigit_of_mem_digits hc
  have hnumber : Nat.ofDigitChars 10 (Decimal.digits w.value.natAbs) 0 = w.value.natAbs :=
    Nat.ofDigitChars_ten_toDigits
  obtain ⟨c, cs, hcs⟩ := List.exists_cons_of_ne_nil (Decimal.digits_ne_nil w.value.natAbs)
  rw [hcs] at hdigits hnumber
  rw [text, hcs]
  by_cases hnegative : w.value < 0
  · have hread : readDigits bits true 0 (c :: cs) = .ok w.value.natAbs := by
      rw [readDigits_of_digits 0 hdigits (by rw [hnumber, if_pos rfl]; omega), hnumber]
    have hvalue : -(w.value.natAbs : Int) = w.value := by omega
    rw [if_pos hnegative]
    exact read_of_splitSign rfl rfl rfl hread hvalue
  · have hread : readDigits bits false 0 (c :: cs) = .ok w.value.natAbs := by
      rw [readDigits_of_digits 0 hdigits (by rw [hnumber, if_neg nofun]; omega), hnumber]
    have hsign := splitSign_of_isDigit (hdigits c List.mem_cons_self) cs
    have hvalue : (w.value.natAbs : Int) = w.value := by omega
    rw [if_neg hnegative]
    exact read_of_splitSign hsign rfl rfl hread hvalue

end Whole

end CommandTree
