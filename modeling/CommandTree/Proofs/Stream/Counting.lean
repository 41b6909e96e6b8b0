import CommandTree.Proofs.Stream.Accepting
import CommandTree.Proofs.Stream.Sequence

/-!
# How many words a reading takes

A reading that succeeds in front of some words may take all of them or only the first few. What it
leaves is the rest of the words, at the places where they stand, and the token behind them.
`Reading.Takes` says how many it takes, as a function of how many there are.

The words end at a token that is no word. Without that token a reading which takes as many words as
it can would not know where to stop, and one that looks for a further word could still fail.
-/

set_option autoImplicit false

namespace CommandTree

namespace TokenStream

variable {s : TokenStream}

/-- The words in front of the first other token are determined by the stream. -/
theorem Upcoming.words_unique {words words' : List String} {other other' : Token}
    (h : s.Upcoming (words.map .word ++ [other])) (h' : s.Upcoming (words'.map .word ++ [other']))
    (hother : other.isWord = false) (hother' : other'.isWord = false) : words = words' := by
  induction words generalizing words' s with
  | nil =>
    obtain ⟨span, q, hnext, -⟩ := h
    cases words' with
    | nil => rfl
    | cons word' words' =>
      have hsame := ((upcoming_cons_of_next hnext).mp h').1
      obtain rfl : other = .word word' := hsame.symm
      contradiction
  | cons word words ih =>
    obtain ⟨span, q, hnext, hq⟩ := h
    cases words' with
    | nil =>
      have hsame := ((upcoming_cons_of_next hnext).mp h').1
      obtain rfl : other' = .word word := hsame
      contradiction
    | cons word' words' =>
      obtain ⟨hsame, hq'⟩ := (upcoming_cons_of_next hnext).mp h'
      rw [Token.word.inj hsame, ih hq hq']

end TokenStream

namespace Reading

variable {ε α β : Type}

/-- A reading that succeeds in front of some words takes the first `count` of them, where `count`
depends on their number, and leaves all else in place. -/
def Takes (m : Reading ε α) (count : Nat → Nat) : Prop :=
  ∀ ⦃s s' : TokenStream⦄ ⦃words : List String⦄ ⦃other : Token⦄ ⦃a : α⦄,
    other.isWord = false → s.Upcoming (words.map .word ++ [other]) → m s = (.ok a, s') →
    count words.length ≤ words.length ∧
      s'.sequence = s.sequence.drop (count words.length) ∧
      s'.Upcoming ((words.drop (count words.length)).map .word ++ [other])

namespace Takes

variable {count : Nat → Nat}

/-- Returning takes no word. -/
theorem pure (a : α) : (Pure.pure a : Reading ε α).Takes fun _ => 0 := by
  intro s s' words other b _ hs h
  obtain ⟨-, rfl⟩ := pure_eq_ok h
  exact ⟨Nat.zero_le _, rfl, hs⟩

/-- A reading that never succeeds takes any number of words. -/
theorem fail (e : ε) (count : Nat → Nat) : (Reading.fail e : Reading ε α).Takes count := by
  intro s s' words other a _ _ h
  exact absurd h fail_ne_ok

/-- Using the result of a reading does not change how many words it takes. -/
theorem map {m : Reading ε α} (h : m.Takes count) (f : α → β) :
    (m >>= fun a => Pure.pure (f a)).Takes count := by
  intro s s' words other b hother hs hb
  obtain ⟨a, q, hm, hpure⟩ := bind_eq_ok hb
  obtain ⟨-, rfl⟩ := pure_eq_ok hpure
  exact h hother hs hm

/-- Going on with a result that is there already. -/
theorem ofExcept_bind {x : Except ε α} {f : α → Reading ε β}
    (h : ∀ a, x = .ok a → (f a).Takes count) : (Reading.ofExcept x >>= f).Takes count := by
  intro s s' words other b hother hs hb
  obtain ⟨a, q, hx, hf⟩ := bind_eq_ok hb
  obtain ⟨rfl, rfl⟩ := Prod.mk.inj hx
  exact h a rfl hother hs hf

/-- Taking the next word, if there is one, and going on. -/
theorem nextWord? {f : Option (Located String) → Reading Diagnostic α} (atEnd behind : Nat → Nat)
    (hnone : (f none).Takes atEnd) (hsome : ∀ word, (f (some word)).Takes behind)
    (hzero : count 0 = atEnd 0) (hsucc : ∀ n, count (n + 1) = behind n + 1) :
    (Reading.nextWord? >>= f).Takes count := by
  intro s s' words other a hother hs h
  cases words with
  | nil =>
    obtain ⟨q, hword, hq⟩ := TokenStream.nextWord?_of_other hs hother
    have hf : f none q = (.ok a, s') := (bind_of_ok hword f).symm.trans h
    obtain ⟨hle, hsequence, hleft⟩ := @hnone q s' [] other a hother hq hf
    have hsame := (TokenStream.sequence_of_nextWord?_none hword).1
    rw [List.length_nil] at hle hsequence ⊢
    refine ⟨by omega, ?_, ?_⟩
    · rw [hsequence, hzero, hsame]
    · rwa [List.drop_nil] at hleft ⊢
  | cons text words =>
    obtain ⟨span, q, hword, hq⟩ := TokenStream.nextWord?_of_word hs
    have hf : f (some ⟨text, span⟩) q = (.ok a, s') := (bind_of_ok hword f).symm.trans h
    obtain ⟨hle, hsequence, hleft⟩ := hsome _ hother hq hf
    have hbehind := TokenStream.sequence_of_nextWord? hword
    rw [List.length_cons, hsucc]
    refine ⟨by omega, ?_, ?_⟩
    · rw [hsequence, hbehind, List.drop_succ_cons]
    · rwa [List.drop_succ_cons]

/-- Taking a token that has to be a word. -/
theorem of_next {m : Reading ε α}
    (h : ∀ s s' a, m s = (.ok a, s') → ∃ text span, s.next = (.ok ⟨.word text, span⟩, s')) :
    m.Takes fun _ => 1 := by
  intro s s' words other a hother hs hm
  obtain ⟨text, span, hnext⟩ := h s s' a hm
  cases words with
  | nil =>
    have hsame := ((TokenStream.upcoming_cons_of_next hnext).mp hs).1
    obtain rfl : other = .word text := hsame
    contradiction
  | cons word words =>
    have hleft := ((TokenStream.upcoming_cons_of_next hnext).mp hs).2
    refine ⟨by simp, ?_, hleft⟩
    rw [TokenStream.sequence_of_next hnext (by simp)]
    rfl

end Takes

end Reading

end CommandTree
