import CommandTree.Proofs.Grammar.TypeWords
import CommandTree.Proofs.Number.Numerals
import CommandTree.Proofs.Parsing.ReadyMade
import CommandTree.Proofs.Stream.Accepting
import CommandTree.Proofs.Stream.Sequence
import Mathlib.Algebra.Group.Int.Defs

/-!
# Bounds of integers

The bounds of an integer type are the words behind the name of the type, two at most. A word is a
bound if it is the name of an extreme or a numeral of an integer that fits into the width, and then
it stands for that integer. Reading takes the words, and nothing else, and it fails at the first
word that is not acceptable: at one that is no bound, before a further one is taken, or at the
second one if it is below the first.
-/

set_option autoImplicit false

namespace CommandTree

/-! ## Words -/

/-- The number of bits of a kind of integer. -/
def NumberKind.width? : NumberKind → Option Nat
  | integer => some 32
  | long => some 64
  | float | double => none

namespace Whole

/-- The integer that a word stands for as a bound, where integers have `bits` bits. -/
inductive Bound (bits : Nat) : (word : String) → Int → Prop where
  /-- The least integer. -/
  | least : Bound bits "min" (-2 ^ (bits - 1))
  /-- The greatest integer. -/
  | greatest : Bound bits "max" (2 ^ (bits - 1) - 1)
  /-- An integer in range. -/
  | numeral {word : String} {value : Int} :
    Numeral word.toList value → -2 ^ (bits - 1) ≤ value → value ≤ 2 ^ (bits - 1) - 1 →
      Bound bits word value

/-- The bounds that words stand for. A bound that is left out is the extreme, and two bounds are in
their order. -/
def Bounds (bits : Nat) : (words : List String) → (lower upper : Int) → Prop
  | [], lower, upper => lower = -2 ^ (bits - 1) ∧ upper = 2 ^ (bits - 1) - 1
  | [word], lower, upper => Bound bits word lower ∧ upper = 2 ^ (bits - 1) - 1
  | [word, word'], lower, upper => Bound bits word lower ∧ Bound bits word' upper ∧ lower ≤ upper
  | _, _, _ => False

variable {bits : Nat}

/-- The limit of a width is a power of two. -/
theorem limit_eq (bits : Nat) : (limit bits : Int) = 2 ^ (bits - 1) := by
  simp [limit]

/-- A word stands for a bound exactly if it is one of two words or the numeral of an integer of the
width. -/
theorem bound_iff (word : String) (v : Int) :
    Bound bits word v ↔ word = "min" ∧ v = (least bits).value ∨
      word = "max" ∧ v = (greatest bits).value ∨
        ∃ w : Whole bits, read bits word.toList = .ok w ∧ w.value = v := by
  have hleast : (least bits).value = -2 ^ (bits - 1) := congrArg Neg.neg (limit_eq bits)
  have hgreatest : (greatest bits).value = 2 ^ (bits - 1) - 1 :=
    congrArg (fun n : Int => n - 1) (limit_eq bits)
  rw [hleast, hgreatest, exists_read_iff, limit_eq]
  constructor
  · rintro (_ | _ | ⟨hnumeral, hlower, hupper⟩)
    · exact Or.inl ⟨rfl, rfl⟩
    · exact Or.inr (Or.inl ⟨rfl, rfl⟩)
    · exact Or.inr (Or.inr ⟨hnumeral, hlower, by omega⟩)
  · rintro (⟨rfl, rfl⟩ | ⟨rfl, rfl⟩ | ⟨hnumeral, hlower, hupper⟩)
    · exact .least
    · exact .greatest
    · exact .numeral hnumeral hlower (by omega)

end Whole

namespace NumberKind

variable {kind : NumberKind} {bits : Nat}

/-- The least integer of a kind is that of its width. -/
theorem place_least (hwidth : kind.width? = some bits) :
    kind.place kind.least = -2 ^ (bits - 1) := by
  cases kind <;> cases hwidth <;> rfl

/-- The greatest integer of a kind is that of its width. -/
theorem place_greatest (hwidth : kind.width? = some bits) :
    kind.place kind.greatest = 2 ^ (bits - 1) - 1 := by
  cases kind <;> cases hwidth <;> rfl

/-- A numeral that a kind of integer reads is read by its width. -/
theorem read_of_width {bits : Nat} {word : String} {w : Whole bits}
    (h : (Whole.read bits word.toList).map some = .ok (some w)) :
    Whole.read bits word.toList = .ok w := by
  cases hread : Whole.read bits word.toList with
  | error e =>
    rw [hread] at h
    contradiction
  | ok w' =>
    rw [hread] at h
    rw [Option.some.inj (Except.ok.inj h)]

/-- A word is a bound of a kind of integer exactly if it stands for one of its width. -/
theorem exists_isBound_iff (hwidth : kind.width? = some bits) (word : String) (v : Int) :
    (∃ value, kind.IsBound word value ∧ kind.place value = v) ↔ Whole.Bound bits word v := by
  rw [Whole.bound_iff]
  constructor
  · rintro ⟨value, hvalue, rfl⟩
    cases hvalue with
    | least => cases kind <;> cases hwidth <;> exact Or.inl ⟨rfl, rfl⟩
    | greatest => cases kind <;> cases hwidth <;> exact Or.inr (Or.inl ⟨rfl, rfl⟩)
    | literal hread =>
      cases kind <;> cases hwidth <;> exact Or.inr (Or.inr ⟨value, read_of_width hread, rfl⟩)
  · rintro (⟨rfl, rfl⟩ | ⟨rfl, rfl⟩ | ⟨w, hread, rfl⟩)
    · exact ⟨kind.least, .least, by cases kind <;> cases hwidth <;> rfl⟩
    · exact ⟨kind.greatest, .greatest, by cases kind <;> cases hwidth <;> rfl⟩
    · cases kind <;> cases hwidth <;> exact ⟨w, .literal (by rw [read, hread]; rfl), rfl⟩

/-- A word is a bound of the kind exactly if it is the name of an extreme or a numeral in range, and
it stands for that integer. -/
theorem exists_bound_eq_iff (hwidth : kind.width? = some bits) (word : Located String) (v : Int) :
    (∃ value, kind.bound word = .ok value ∧ kind.place value = v) ↔
      Whole.Bound bits word.value v := by
  rw [← exists_isBound_iff hwidth]
  exact exists_congr fun value => and_congr_left' (isBound_iff word.span).symm

/-- A word that is no bound of an integer is refused as malformed, whatever is wrong with it. -/
theorem exists_bound_eq_error (hwidth : kind.width? = some bits) {word : Located String}
    (h : ∀ v, ¬ Whole.Bound bits word.value v) :
    ∃ e, kind.bound word = .error (.atSpan (.malformedBound kind word.value e) word.span) := by
  cases hbound : kind.bound word with
  | ok value =>
    exact absurd ((exists_bound_eq_iff hwidth word _).mp ⟨value, hbound, rfl⟩) (h _)
  | error d =>
    have hnumber : kind.read word.value ≠ .ok none := by
      cases kind <;> cases hwidth <;> simp only [read] <;>
        cases Whole.read _ word.value.toList <;> exact nofun
    unfold bound at hbound
    split at hbound
    · contradiction
    split at hbound
    · contradiction
    split at hbound
    · exact ⟨_, congrArg _ (Except.error.inj hbound).symm⟩
    · exact absurd ‹_› hnumber
    · contradiction

/-- A word that is accepted as a bound stands for that bound and no other. -/
theorem bound_iff_of_ok (hwidth : kind.width? = some bits) {word : Located String}
    {value : kind.Value} (h : kind.bound word = .ok value) {v : Int} :
    Whole.Bound bits word.value v ↔ v = kind.place value := by
  rw [← exists_bound_eq_iff hwidth]
  constructor
  · rintro ⟨value', hvalue', rfl⟩
    rw [Except.ok.inj (hvalue'.symm.trans h)]
  · rintro rfl
    exact ⟨value, h, rfl⟩

/-- A word that is refused as a bound stands for none. -/
theorem not_bound_of_error (hwidth : kind.width? = some bits) {word : Located String}
    {d : Diagnostic} (h : kind.bound word = .error d) (v : Int) :
    ¬ Whole.Bound bits word.value v := by
  rw [← exists_bound_eq_iff hwidth]
  rintro ⟨value, hvalue, -⟩
  rw [h] at hvalue
  contradiction

end NumberKind

/-! ## Words that are read -/

/-- A word as a token. -/
def Located.asToken (word : Located String) : Located Token := ⟨.word word.value, word.span⟩

/-- The stream starts with the words: with `limit` of them, or with fewer in front of another token.
-/
structure TokenStream.StartsWith (s : TokenStream) (limit : Nat) (words : List (Located String))
    (rest : List (Located Token)) : Prop where
  /-- The words come first. -/
  sequence_eq : s.sequence = words.map Located.asToken ++ rest
  /-- There are no more than the limit. -/
  length_le : words.length ≤ limit
  /-- If there are fewer, another token follows. -/
  stops : words.length < limit → ∃ t others, rest = t :: others ∧ t.value.isWord = false

/-- A stream that does not fail starts with some words, as many as are asked for or fewer. -/
theorem TokenStream.exists_startsWith {s : TokenStream} (h : s.tokens.2.isOk = true)
    (limit : Nat) : ∃ words rest, s.StartsWith limit words rest := by
  have hend : ∃ t ∈ s.sequence, t.value.isWord = false := by
    cases hlast : s.tokens.2 with
    | error d =>
      rw [hlast] at h
      contradiction
    | ok t =>
      refine ⟨t, List.mem_append_right _ (by simp [hlast, Except.toOption]), ?_⟩
      rw [value_of_tokens hlast]
      rfl
  suffices hsplit : ∀ tokens : List (Located Token), (∃ t ∈ tokens, t.value.isWord = false) →
      ∃ (words : List (Located String)) (rest : List (Located Token)),
        tokens = words.map Located.asToken ++ rest ∧ words.length ≤ limit ∧
          (words.length < limit → ∃ t others, rest = t :: others ∧ t.value.isWord = false) by
    obtain ⟨words, rest, hsequence, hlength, hstops⟩ := hsplit _ hend
    exact ⟨words, rest, hsequence, hlength, hstops⟩
  induction limit with
  | zero =>
    intro tokens _
    exact ⟨[], tokens, rfl, Nat.le_refl 0, fun hlt => absurd hlt (Nat.not_lt_zero 0)⟩
  | succ limit ih =>
    rintro (_ | ⟨⟨value, span⟩, tokens⟩) ⟨t, hmem, ht⟩
    · contradiction
    cases value with
    | word text =>
      have hrest : t ∈ tokens := by
        rcases List.mem_cons.mp hmem with rfl | hrest
        · contradiction
        · exact hrest
      obtain ⟨words, rest, rfl, hlength, hstops⟩ := ih tokens ⟨t, hrest, ht⟩
      exact ⟨⟨text, span⟩ :: words, rest, rfl, Nat.succ_le_succ hlength,
        fun hlt => hstops (Nat.lt_of_succ_lt_succ hlt)⟩
    | _ => exact ⟨[], _, rfl, Nat.zero_le _, fun _ => ⟨_, tokens, rfl, rfl⟩⟩

namespace NumberKind

variable {kind : NumberKind} {bits : Nat} {s : TokenStream} {words : List (Located String)}
  {rest : List (Located Token)}

/-- The result of reading bounds and the words that are not taken. -/
inductive Outcome (kind : NumberKind) : (words : List (Located String)) →
    Except Diagnostic (kind.Value × kind.Value) → (left : List (Located String)) → Prop where
  /-- There is no word. -/
  | none : Outcome kind [] (.ok (kind.least, kind.greatest)) []
  /-- The first word is no bound. -/
  | firstRefused {first : Located String} {others : List (Located String)} {d : Diagnostic} :
    kind.bound first = .error d → Outcome kind (first :: others) (.error d) others
  /-- There is one word. -/
  | one {first : Located String} {lower : kind.Value} :
    kind.bound first = .ok lower → Outcome kind [first] (.ok (lower, kind.greatest)) []
  /-- The second word is no bound. -/
  | secondRefused {first second : Located String} {lower : kind.Value} {d : Diagnostic} :
    kind.bound first = .ok lower → kind.bound second = .error d →
      Outcome kind [first, second] (.error d) []
  /-- The second bound is below the first. -/
  | inverted {first second : Located String} {lower upper : kind.Value} :
    kind.bound first = .ok lower → kind.bound second = .ok upper →
      kind.place upper < kind.place lower →
      Outcome kind [first, second]
        (.error (.atSpan (.invertedBounds kind lower upper) second.span)) []
  /-- There are two bounds in their order. -/
  | two {first second : Located String} {lower upper : kind.Value} :
    kind.bound first = .ok lower → kind.bound second = .ok upper →
      kind.place lower ≤ kind.place upper → Outcome kind [first, second] (.ok (lower, upper)) []

/-- The words determine the outcome. -/
theorem Outcome.unique {result result' : Except Diagnostic (kind.Value × kind.Value)}
    {left left' : List (Located String)} (h : kind.Outcome words result left)
    (h' : kind.Outcome words result' left') : result = result' ∧ left = left' := by
  cases h with
  | none => cases h'; exact ⟨rfl, rfl⟩
  | firstRefused hfirst => cases h' <;> simp_all
  | one hfirst => cases h' <;> simp_all
  | secondRefused hfirst hsecond => cases h' <;> simp_all
  | inverted hfirst hsecond hplace =>
    cases h' <;> simp_all
    omega
  | two hfirst hsecond hplace =>
    cases h' <;> simp_all
    omega

/-- Reads the upper bound behind a lower one. -/
def readUpper (kind : NumberKind) (lower : kind.Value) :
    Reading Diagnostic (kind.Value × kind.Value) := do
  match ← Reading.nextWord? with
  | none => pure (lower, kind.greatest)
  | some second =>
    let upper ← Reading.ofExcept (kind.bound second)
    if kind.place upper < kind.place lower then
      Reading.fail (.atSpan (.invertedBounds kind lower upper) second.span)
    else pure (lower, upper)

/-- Judging a word takes no token. -/
theorem ofExcept_bound {word : Located String} {x : Except Diagnostic kind.Value}
    (h : kind.bound word = x) (s : TokenStream) : Reading.ofExcept (kind.bound word) s = (x, s) :=
  congrArg (·, s) h

/-- Behind a lower bound the upper one is read. -/
theorem readBounds_of_bound {first : Located String} {lower : kind.Value} {q : TokenStream}
    (hword : s.nextWord? = (.ok (some first), q)) (hlower : kind.bound first = .ok lower) :
    kind.readBounds s = kind.readUpper lower q :=
  (Reading.bind_of_ok hword _).trans (Reading.bind_of_ok (ofExcept_bound hlower q) _)

/-- Reading takes words one at a time and judges each of them before it takes the next. -/
theorem exists_outcome (h : s.StartsWith 2 words rest) :
    ∃ result left s', kind.readBounds s = (result, s') ∧ kind.Outcome words result left ∧
      s'.sequence = left.map Located.asToken ++ rest := by
  obtain ⟨hsequence, hlength, hstops⟩ := h
  match words with
  | [] =>
    obtain ⟨t, others, rfl, ht⟩ := hstops (by simp)
    obtain ⟨q, hword, hq⟩ := TokenStream.exists_nextWord?_of_other hsequence ht
    exact ⟨_, _, q, Reading.bind_of_ok hword _, .none, hq⟩
  | first :: others =>
    obtain ⟨q, hword, hq⟩ := TokenStream.exists_nextWord?_of_word hsequence
    cases hlower : kind.bound first with
    | error d =>
      refine ⟨_, _, q, (Reading.bind_of_ok hword _).trans ?_, .firstRefused hlower, hq⟩
      exact Reading.bind_of_error (ofExcept_bound hlower q) _
    | ok lower =>
      rw [readBounds_of_bound hword hlower]
      match others with
      | [] =>
        obtain ⟨t, others, rfl, ht⟩ := hstops (by simp)
        obtain ⟨q', hword', hq'⟩ := TokenStream.exists_nextWord?_of_other hq ht
        exact ⟨_, _, q', Reading.bind_of_ok hword' _, .one hlower, hq'⟩
      | [second] =>
        obtain ⟨q', hword', hq'⟩ := TokenStream.exists_nextWord?_of_word hq
        cases hupper : kind.bound second with
        | error d =>
          refine ⟨_, _, q', (Reading.bind_of_ok hword' _).trans ?_,
            .secondRefused hlower hupper, hq'⟩
          exact Reading.bind_of_error (ofExcept_bound hupper q') _
        | ok upper =>
          have hboth : kind.readUpper lower q = _ := (Reading.bind_of_ok hword' _).trans
            (Reading.bind_of_ok (ofExcept_bound hupper q') _)
          by_cases hplace : kind.place upper < kind.place lower
          · rw [if_pos hplace] at hboth
            exact ⟨_, _, q', hboth, .inverted hlower hupper hplace, hq'⟩
          · rw [if_neg hplace] at hboth
            exact ⟨_, _, q', hboth, .two hlower hupper (Int.not_lt.mp hplace), hq'⟩
      | _ :: _ :: _ => simp at hlength

/-- Reading bounds has a result exactly if the words stand for these bounds. -/
theorem Outcome.ok_iff (hwidth : kind.width? = some bits)
    {result : Except Diagnostic (kind.Value × kind.Value)} {left : List (Located String)}
    (h : kind.Outcome words result left) (v v' : Int) :
    (∃ lower upper, result = .ok (lower, upper) ∧ kind.place lower = v ∧ kind.place upper = v') ↔
      Whole.Bounds bits (words.map Located.value) v v' := by
  have hresult : ∀ lower upper : kind.Value,
      (∃ lower' upper', (.ok (lower, upper) : Except Diagnostic _) = .ok (lower', upper') ∧
        kind.place lower' = v ∧ kind.place upper' = v') ↔
          v = kind.place lower ∧ v' = kind.place upper := by
    intro lower upper
    constructor
    · rintro ⟨lower', upper', heq, rfl, rfl⟩
      obtain ⟨rfl, rfl⟩ := Prod.mk.inj (Except.ok.inj heq)
      exact ⟨rfl, rfl⟩
    · rintro ⟨rfl, rfl⟩
      exact ⟨lower, upper, rfl, rfl, rfl⟩
  cases h with
  | none => rw [hresult, place_least hwidth, place_greatest hwidth]; rfl
  | firstRefused hfirst =>
    refine iff_of_false (by simp) fun hbounds => not_bound_of_error hwidth hfirst v ?_
    match left, hbounds with
    | [], hbounds => exact hbounds.1
    | [_], hbounds => exact hbounds.1
  | one hfirst =>
    rw [hresult, place_greatest hwidth, ← bound_iff_of_ok hwidth hfirst]
    rfl
  | secondRefused hfirst hsecond =>
    exact iff_of_false (by simp) fun hbounds => not_bound_of_error hwidth hsecond v' hbounds.2.1
  | inverted hfirst hsecond hplace =>
    refine iff_of_false (by simp) ?_
    rintro ⟨hlower, hupper, hle⟩
    rw [bound_iff_of_ok hwidth hfirst] at hlower
    rw [bound_iff_of_ok hwidth hsecond] at hupper
    omega
  | two hfirst hsecond hplace =>
    show _ ↔ Whole.Bound bits _ v ∧ Whole.Bound bits _ v' ∧ v ≤ v'
    rw [hresult, bound_iff_of_ok hwidth hfirst, bound_iff_of_ok hwidth hsecond]
    constructor
    · rintro ⟨rfl, rfl⟩
      exact ⟨rfl, rfl, hplace⟩
    · rintro ⟨hlower, hupper, -⟩
      exact ⟨hlower, hupper⟩

/-- What reading the bounds of an integer comes to in front of at most two words. -/
structure ReadsBounds (kind : NumberKind) (bits : Nat) (s : TokenStream)
    (words : List (Located String)) (rest : List (Located Token)) : Prop where
  /-- The result is what the words stand for, if they stand for bounds. -/
  ok_iff : ∀ v v' : Int,
    (∃ lower upper, (kind.readBounds s).1 = .ok (lower, upper) ∧
      kind.place lower = v ∧ kind.place upper = v') ↔
        Whole.Bounds bits (words.map Located.value) v v'
  /-- All words are taken then, and nothing else. -/
  takes_words : ∀ bounds, (kind.readBounds s).1 = .ok bounds →
    (kind.readBounds s).2.sequence = rest
  /-- A failure is one of types. -/
  fails_typing : ∀ d, (kind.readBounds s).1 = .error d → d.kind = .typing
  /-- A first word that is no bound is complained about before the second one is taken. -/
  first_refused : ∀ first others, words = first :: others →
    (∀ v, ¬ Whole.Bound bits first.value v) →
    ∃ e s', kind.readBounds s =
        (.error (.atSpan (.malformedBound kind first.value e) first.span), s') ∧
      s'.sequence = others.map Located.asToken ++ rest
  /-- A second word that is no bound is complained about if the first one is a bound. -/
  second_refused : ∀ first second v, words = [first, second] → Whole.Bound bits first.value v →
    (∀ v', ¬ Whole.Bound bits second.value v') →
    ∃ e s', kind.readBounds s =
        (.error (.atSpan (.malformedBound kind second.value e) second.span), s') ∧
      s'.sequence = rest
  /-- Two bounds that are not in their order are complained about at the second word. -/
  inverted : ∀ first second v v', words = [first, second] → Whole.Bound bits first.value v →
    Whole.Bound bits second.value v' → v' < v →
    ∃ lower upper s', kind.readBounds s =
        (.error (.atSpan (.invertedBounds kind lower upper) second.span), s') ∧
      kind.place lower = v ∧ kind.place upper = v' ∧ s'.sequence = rest

/-- In front of at most two words the bounds are read from them, or the first word at fault is
reported. -/
theorem readsBounds_of_startsWith (hwidth : kind.width? = some bits)
    (h : s.StartsWith 2 words rest) : kind.ReadsBounds bits s words rest := by
  obtain ⟨result, left, s', hread, houtcome, hleft⟩ := exists_outcome h
  constructor
  · rw [hread]
    exact houtcome.ok_iff hwidth
  · intro bounds hok
    rw [hread] at hok ⊢
    obtain rfl : result = .ok bounds := hok
    cases houtcome <;> exact hleft
  · intro d hd
    rw [hread] at hd
    obtain rfl : result = .error d := hd
    cases houtcome with
    | firstRefused hfirst =>
      obtain ⟨problem, rfl, hkind, -⟩ := exists_of_bound_eq_error hfirst
      exact hkind
    | secondRefused _ hsecond =>
      obtain ⟨problem, rfl, hkind, -⟩ := exists_of_bound_eq_error hsecond
      exact hkind
    | inverted => rfl
  · rintro first others rfl hnone
    obtain ⟨e, hfirst⟩ := exists_bound_eq_error hwidth hnone
    obtain ⟨rfl, rfl⟩ := houtcome.unique (.firstRefused hfirst)
    exact ⟨e, s', hread, hleft⟩
  · rintro first second v rfl hv hnone
    obtain ⟨lower, hfirst, -⟩ := (exists_bound_eq_iff hwidth first v).mpr hv
    obtain ⟨e, hsecond⟩ := exists_bound_eq_error hwidth hnone
    obtain ⟨rfl, rfl⟩ := houtcome.unique (.secondRefused hfirst hsecond)
    exact ⟨e, s', hread, hleft⟩
  · rintro first second v v' rfl hv hv' hlt
    obtain ⟨lower, hfirst, rfl⟩ := (exists_bound_eq_iff hwidth first v).mpr hv
    obtain ⟨upper, hsecond, rfl⟩ := (exists_bound_eq_iff hwidth second v').mpr hv'
    obtain ⟨rfl, rfl⟩ := houtcome.unique (.inverted hfirst hsecond hlt)
    exact ⟨lower, upper, s', hread, rfl, rfl, hleft⟩

/-- A word is a bound of an integer type if it is the name of an extreme or a numeral in range, and
it stands for just that integer. The first two words in front of a stream are read, or as many as
there are, and nothing else is taken. The result is what they stand for if all of them are bounds
and the first is not above the second, where bounds that are left out are the extremes. Otherwise
the first word that is not acceptable is complained about. -/
theorem integer_bounds_are_exact (hwidth : kind.width? = some bits) :
    (∀ (word : Located String) (v : Int),
      (∃ value, kind.bound word = .ok value ∧ kind.place value = v) ↔
        Whole.Bound bits word.value v) ∧
    ∀ s : TokenStream,
      (s.tokens.2.isOk = true → ∃ words rest, s.StartsWith 2 words rest) ∧
      ∀ words rest, s.StartsWith 2 words rest → kind.ReadsBounds bits s words rest := by
  refine ⟨exists_bound_eq_iff hwidth, fun s => ⟨?_, ?_⟩⟩
  · intro h
    exact TokenStream.exists_startsWith h 2
  · intro words rest h
    exact readsBounds_of_startsWith hwidth h

/-- Both extremes of 64 bits, one behind leading zeros and one behind a plus sign, in front of a
third word that is not taken. -/
theorem integer_bounds_of_extremes :
    let s := TokenStream.ofSource (.ofString "-0009223372036854775808 +9223372036854775807 3;")
    let words : List (Located String) :=
      [⟨"-0009223372036854775808", ⟨0, 23, 1⟩⟩, ⟨"+9223372036854775807", ⟨24, 44, 1⟩⟩]
    let rest : List (Located Token) :=
      [⟨.word "3", ⟨45, 46, 1⟩⟩, ⟨.terminator, ⟨46, 47, 1⟩⟩, ⟨.endOfInput, ⟨47, 47, 1⟩⟩]
    width? .long = some 64 ∧ s.StartsWith 2 words rest ∧
      ∃ lower upper s', readBounds .long s = (.ok (lower, upper), s') ∧
        place .long lower = -9223372036854775808 ∧ place .long upper = 9223372036854775807 ∧
        s'.sequence = rest := by
  intro s words rest
  have hstarts : s.StartsWith 2 words rest :=
    ⟨by decide +kernel, Nat.le_refl 2, fun h => absurd h (Nat.lt_irrefl 2)⟩
  have hlower : Whole.Bound 64 "-0009223372036854775808" (-9223372036854775808) :=
    .numeral (.minus (by decide)) (by decide) (by decide)
  have hupper : Whole.Bound 64 "+9223372036854775807" 9223372036854775807 :=
    .numeral (.plus (by decide)) (by decide) (by decide)
  have hreads : ReadsBounds .long 64 s words rest :=
    ((integer_bounds_are_exact rfl).2 s).2 words rest hstarts
  obtain ⟨lower, upper, hok, hplace, hplace'⟩ :=
    (hreads.ok_iff _ _).mpr ⟨hlower, hupper, by decide⟩
  exact ⟨rfl, hstarts, lower, upper, _, Prod.ext hok rfl, hplace, hplace',
    hreads.takes_words _ hok⟩

end NumberKind

end CommandTree
