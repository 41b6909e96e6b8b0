import CommandTree.Proofs.Number.Digits

/-!
# Numerals of integers

A numeral is an optional sign in front of one or more decimal digits, and it stands for the integer
that is meant by that, however many digits there are. `Whole.read` reads the numerals of the
integers that fit into the width, and nothing else. What it computes on the way is never above the
integer that comes out, so no numeral in range is refused in the middle, and since the range is
checked at every digit no other one wraps around to an integer in range.
-/

set_option autoImplicit false

namespace CommandTree.Whole

/-- One or more decimal digits. -/
structure IsDigits (cs : List Char) : Prop where
  /-- There is a digit. -/
  ne_nil : cs ≠ []
  /-- There is nothing but digits. -/
  digits : ∀ c ∈ cs, '0' ≤ c ∧ c ≤ '9'

instance (cs : List Char) : Decidable (IsDigits cs) :=
  decidable_of_iff (cs ≠ [] ∧ cs.all (fun c => '0' ≤ c ∧ c ≤ '9') = true)
    ⟨fun ⟨hne, hall⟩ => ⟨hne, fun c hc => of_decide_eq_true (List.all_eq_true.mp hall c hc)⟩,
      fun ⟨hne, hdigits⟩ =>
        ⟨hne, List.all_eq_true.mpr fun c hc => decide_eq_true (hdigits c hc)⟩⟩

/-- The integer that a text stands for. -/
inductive Numeral : (text : List Char) → Int → Prop where
  /-- Digits without a sign. -/
  | unsigned {ds : List Char} : IsDigits ds → Numeral ds (Nat.ofDigitChars 10 ds 0)
  /-- Digits behind a plus sign. -/
  | plus {ds : List Char} : IsDigits ds → Numeral ('+' :: ds) (Nat.ofDigitChars 10 ds 0)
  /-- Digits behind a minus sign. -/
  | minus {ds : List Char} : IsDigits ds → Numeral ('-' :: ds) (-(Nat.ofDigitChars 10 ds 0 : Int))

variable {bits : Nat} {cs ds : List Char} {negative : Bool}

/-- Digits are digits one by one. -/
theorem IsDigits.isDigit (h : IsDigits ds) : ∀ c ∈ ds, Literal.isDigit c = true :=
  fun c hc => Decimal.isDigit_iff.mpr (h.digits c hc)

/-- The integer of a sign and digits. -/
def signed (negative : Bool) (n : Nat) : Int := if negative then -(n : Int) else n

/-- A text stands for an integer exactly if digits are left behind its sign, and then for their
value with that sign. -/
theorem numeral_iff (h : splitSign cs = (negative, ds)) (v : Int) :
    Numeral cs v ↔ IsDigits ds ∧ v = signed negative (Nat.ofDigitChars 10 ds 0) := by
  constructor
  · intro hv
    cases hv with
    | unsigned hdigits =>
      obtain ⟨c, cs', rfl⟩ := List.exists_cons_of_ne_nil hdigits.ne_nil
      rw [splitSign_of_isDigit (hdigits.isDigit c List.mem_cons_self)] at h
      obtain ⟨rfl, rfl⟩ := Prod.mk.inj h
      exact ⟨hdigits, rfl⟩
    | plus hdigits =>
      obtain ⟨rfl, rfl⟩ := Prod.mk.inj h
      exact ⟨hdigits, rfl⟩
    | minus hdigits =>
      obtain ⟨rfl, rfl⟩ := Prod.mk.inj h
      exact ⟨hdigits, rfl⟩
  · rintro ⟨hdigits, rfl⟩
    unfold splitSign at h
    split at h
    · obtain ⟨rfl, rfl⟩ := Prod.mk.inj h
      exact .minus hdigits
    · obtain ⟨rfl, rfl⟩ := Prod.mk.inj h
      exact .plus hdigits
    · obtain ⟨rfl, rfl⟩ := Prod.mk.inj h
      exact .unsigned hdigits

/-! ## Reading -/

/-- Whatever is read is made of digits, and is the number that they stand for. -/
theorem digits_of_readDigits {read n : Nat} (h : readDigits bits negative read cs = .ok n) :
    (∀ c ∈ cs, Literal.isDigit c = true) ∧ n = Nat.ofDigitChars 10 cs read := by
  induction cs generalizing read with
  | nil => exact ⟨nofun, (Except.ok.inj h).symm⟩
  | cons c cs ih =>
    rw [readDigits] at h
    by_cases hc : Literal.isDigit c = true
    · rw [Decimal.digit?_of_isDigit hc] at h
      dsimp only at h
      split at h
      · contradiction
      split at h
      · contradiction
      obtain ⟨hcs, hn⟩ := ih h
      refine ⟨List.forall_mem_cons.mpr ⟨hc, hcs⟩, ?_⟩
      rw [Nat.ofDigitChars_cons, hn, Nat.mul_comm]
    · have hnone : Decimal.digit? c = none := by simpa [Literal.isDigit] using hc
      rw [hnone] at h
      contradiction

/-- An integer of a width has the value that it was made of. -/
theorem value_of_ofInt? {value : Int} {w : Whole bits} (h : ofInt? bits value = some w) :
    w.value = value := by
  unfold ofInt? at h
  split at h
  · rw [← Option.some.inj h]
  · contradiction

/-- Reading splits the sign off, reads the digits and compares the integer with the range. -/
theorem read_eq_ok_iff_of_splitSign (h : splitSign cs = (negative, ds)) (w : Whole bits) :
    read bits cs = .ok w ↔
      IsDigits ds ∧ w.value = signed negative (Nat.ofDigitChars 10 ds 0) := by
  constructor
  · intro hread
    unfold read at hread
    split at hread
    · contradiction
    rw [h] at hread
    dsimp only at hread
    split at hread
    · contradiction
    rename_i hne
    split at hread
    · contradiction
    rename_i n hdigits
    split at hread
    · rename_i w' hw
      obtain rfl := Except.ok.inj hread
      obtain ⟨hall, rfl⟩ := digits_of_readDigits hdigits
      exact ⟨⟨by simpa using hne, fun c hc => Decimal.isDigit_iff.mp (hall c hc)⟩,
        value_of_ofInt? hw⟩
    · contradiction
  · rintro ⟨hdigits, hvalue⟩
    have hlower := w.lower
    have hupper := w.upper
    have hrange : Nat.ofDigitChars 10 ds 0 < limit bits + if negative then 1 else 0 := by
      cases negative <;> simp only [signed, Bool.false_eq_true, if_false, if_true] at hvalue ⊢ <;>
        omega
    have htext : cs.isEmpty = false := by
      cases cs with
      | nil => exact absurd (Prod.mk.inj h).2.symm hdigits.ne_nil
      | cons => rfl
    exact read_of_splitSign h htext (by simpa using hdigits.ne_nil)
      (readDigits_of_digits 0 hdigits.isDigit hrange) hvalue.symm

/-- The integers that are read are those of the width, from their numerals. -/
theorem read_eq_ok_iff (cs : List Char) (w : Whole bits) :
    read bits cs = .ok w ↔ Numeral cs w.value := by
  rw [read_eq_ok_iff_of_splitSign rfl, numeral_iff rfl]

/-- A text is read as an integer of a width exactly if it stands for one within the bounds. -/
theorem exists_read_iff (cs : List Char) (v : Int) :
    (∃ w : Whole bits, read bits cs = .ok w ∧ w.value = v) ↔
      Numeral cs v ∧ -(limit bits : Int) ≤ v ∧ v < limit bits := by
  constructor
  · rintro ⟨w, hread, rfl⟩
    exact ⟨(read_eq_ok_iff cs w).mp hread, w.lower, w.upper⟩
  · rintro ⟨hnumeral, hlower, hupper⟩
    exact ⟨⟨v, hlower, hupper⟩, (read_eq_ok_iff cs _).mpr hnumeral, rfl⟩

end CommandTree.Whole
