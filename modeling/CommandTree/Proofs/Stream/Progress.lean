import CommandTree.Proofs.Session.Calls
import CommandTree.Proofs.Stream.Sequence

/-!
# Rounds that take tokens

A reading that goes round in a loop or calls itself does a round and hands what is left to do to
further rounds. It ends if none of these starts before a token was taken: `Advances` says this of a
round, by saying that the further rounds matter only where a token was passed. The readings made of
such rounds are the rounds done inside one another, of which no more than there are tokens ever
start.

A stream over an undamaged text is `TokenStream.Regular`, and whatever is done with such a stream,
its tokens stay or are dropped from the front.
-/

set_option autoImplicit false

namespace CommandTree

namespace TokenStream

variable {s s' s'' : TokenStream} {t : Located Token} {d : Diagnostic}

/-! ## Streams over undamaged texts -/

/-- What holds of a stream over an undamaged text, whatever was done with it: what was looked at is
found again, and failures last. -/
structure Regular (s : TokenStream) : Prop where
  steady : s.Steady
  lasting : s.Lasting

/-- A stream over a text is regular. -/
theorem regular_ofString (text : String) : (ofSource (.ofString text)).Regular :=
  ⟨steady_of_none rfl, lasting_of_clean (Source.clean_ofString text)⟩

/-- A regular stream stays so whatever is done with it. -/
theorem Regular.of_reaches (h : s.Regular) (hreach : s.Reaches s') : s'.Regular :=
  ⟨steady_of_reaches hreach h.steady, h.lasting.of_reaches hreach⟩

/-- A stream that fails at once hands out nothing. -/
theorem sequence_of_error (h : s.next = (.error d, s')) : s.sequence = [] := by
  rw [sequence, tokens_of_error h]
  rfl

/-- Taking a token from a regular stream takes it off the front of what it hands out. -/
theorem Regular.exists_sequence_next (h : s.Regular) :
    ∃ ts, s.sequence = ts ++ s.next.2.sequence := by
  rcases hnext : s.next with ⟨d | t, s'⟩
  · have hlasts := h.lasting 0 d (congrArg Prod.fst hnext)
    rw [result, hnext] at hlasts
    have hagain : s'.next = (.error d, s'.next.2) := Prod.ext hlasts rfl
    exact ⟨[], (sequence_of_error hnext).trans (sequence_of_error hagain).symm⟩
  · by_cases ht : t.value = .endOfInput
    · have hlasts := result_of_end h.steady (congrArg Prod.fst hnext) ht 1
      rw [result, hnext] at hlasts
      have hagain : s'.next = (.ok t, s'.next.2) := Prod.ext hlasts rfl
      exact ⟨[], (sequence_of_end hnext ht).trans (sequence_of_end hagain ht).symm⟩
    · exact ⟨[t], sequence_of_next hnext ht⟩

/-- Looking at a token of a regular stream takes nothing off what it hands out. -/
theorem Regular.exists_sequence_peek (h : s.Regular) :
    ∃ ts, s.sequence = ts ++ s.peek.2.sequence := by
  rcases hpeek : s.peek with ⟨d | t, s'⟩
  · have hfails : s.next.1 = .error d := by rw [← peek_fst, hpeek]
    have hsame := peek_snd_of_error hfails
    rw [hpeek] at hsame
    rw [hsame]
    exact h.exists_sequence_next
  · exact ⟨[], sequence_of_peek hpeek⟩

/-- Tokens are dropped from the front of the sequence, and nothing else happens to it. -/
theorem Regular.exists_sequence (h : s.Regular) (hreach : s.Reaches s') :
    ∃ ts, s.sequence = ts ++ s'.sequence := by
  induction hreach with
  | refl s => exact ⟨[], rfl⟩
  | @next s s' _ ih =>
    obtain ⟨front, hfront⟩ := h.exists_sequence_next
    obtain ⟨ts, hts⟩ := ih (h.of_reaches (.next_self s))
    exact ⟨front ++ ts, by rw [hfront, hts, List.append_assoc]⟩
  | @peek s s' _ ih =>
    obtain ⟨front, hfront⟩ := h.exists_sequence_peek
    obtain ⟨ts, hts⟩ := ih (h.of_reaches (.peek_self s))
    exact ⟨front ++ ts, by rw [hfront, hts, List.append_assoc]⟩

/-! ## Passing tokens -/

/-- On the way from one stream to the other, on which tokens were taken and looked at, the first
token was taken. -/
structure Passes (s s' : TokenStream) : Prop where
  reaches : s.Reaches s'
  sequence_eq : ∃ t ts, s.sequence = t :: (ts ++ s'.sequence)

namespace Passes

/-- Where the first token was passed, fewer are left. -/
theorem length_lt (h : s.Passes s') : s'.sequence.length < s.sequence.length := by
  obtain ⟨t, ts, hts⟩ := h.sequence_eq
  rw [hts, List.length_cons, List.length_append]
  omega

/-- Taking a token other than the end of input passes it. -/
theorem of_next (h : s.next = (.ok t, s')) (ht : t.value ≠ .endOfInput) : s.Passes s' :=
  ⟨.next_of_eq h, t, [], sequence_of_next h ht⟩

/-- Taking a word passes it. -/
theorem of_nextWord? {word : Located String} (h : s.nextWord? = (.ok (some word), s')) :
    s.Passes s' :=
  ⟨.nextWord?_of_eq h, _, [], sequence_of_nextWord? h⟩

/-- What is passed behind a look is passed. -/
theorem behind_peek (hpeek : s.peek = (.ok t, s')) (h : s'.Passes s'') : s.Passes s'' :=
  ⟨(Reaches.peek_of_eq hpeek).trans h.reaches, (sequence_of_peek hpeek).symm ▸ h.sequence_eq⟩

/-- A token that was taken stays taken. -/
theorem trans_reaches (hs : s.Regular) (h : s.Passes s') (hreach : s'.Reaches s'') :
    s.Passes s'' := by
  obtain ⟨t, ts, hts⟩ := h.sequence_eq
  obtain ⟨us, hus⟩ := (hs.of_reaches h.reaches).exists_sequence hreach
  exact ⟨h.reaches.trans hreach, t, ts ++ us, by rw [hts, hus, List.append_assoc]⟩

end Passes

end TokenStream

/-! ## Rounds -/

namespace Reading

/-- One reading for each task. -/
abbrev Family {ι : Type} (α : ι → Type) : Type := ∀ i, Reading Diagnostic (α i)

/-- The rounds that are done inside one another. Behind so many of them there is the failure
`limit`.
-/
def unroll {ι : Type} {α : ι → Type} (round : Family α → Family α) (limit : Diagnostic) :
    Nat → Family α
  | 0 => fun _ => fail limit
  | rounds + 1 => round (unroll round limit rounds)

/-- A round fails, returns, or has taken a token before a further round starts. -/
structure Advances {ι : Type} {α : ι → Type} (round : Family α → Family α) : Prop where
  /-- It does nothing to a stream but take tokens and look at them. -/
  forward {others : Family α} : (∀ i, (others i).Forward) → ∀ i, (round others i).Forward
  /-- Only what the further rounds do behind a token matters. -/
  congr {others others' : Family α} {s : TokenStream} (i : ι) :
    s.Regular → (∀ i, (others i).Forward) →
      (∀ i s', s.Passes s' → others i s' = others' i s') → round others i s = round others' i s

/-- The readings are made of rounds that advance, and so they are the rounds done inside one
another, as many of them as there are tokens. -/
structure Progresses {ι : Type} {α : ι → Type} (round : Family α → Family α) (run : Family α) :
    Prop where
  /-- A reading is a round, and what is left to do is done by the readings. -/
  eq_round : run = round run
  /-- A round takes a token before a further one starts. -/
  advances : Advances round
  /-- The limit is not reached. -/
  ends {s : TokenStream} {rounds : Nat} : s.Regular → s.sequence.length < rounds →
    ∀ limit i, unroll round limit rounds i s = run i s

variable {ι : Type} {α : ι → Type} {round : Family α → Family α} {run : Family α}

/-- Rounds done inside one another go forward. -/
theorem Advances.forward_unroll (h : Advances round) (limit : Diagnostic) (rounds : Nat) :
    ∀ i, (unroll round limit rounds i).Forward := by
  induction rounds with
  | zero => exact fun i => .fail limit
  | succ rounds ih => exact h.forward ih

/-- The rounds behind a token have one token less to come, so they get along with one round less. -/
theorem Advances.unroll_eq (h : Advances round) (hrun : run = round run) {s : TokenStream}
    {rounds : Nat} (hs : s.Regular) (hlt : s.sequence.length < rounds) (limit : Diagnostic)
    (i : ι) : unroll round limit rounds i s = run i s := by
  induction rounds generalizing s i with
  | zero => exact absurd hlt (Nat.not_lt_zero _)
  | succ rounds ih =>
    rw [hrun]
    apply h.congr i hs (h.forward_unroll limit rounds)
    intro j s' hpasses
    have hless := hpasses.length_lt
    exact ih (hs.of_reaches hpasses.reaches) (by omega) j

/-- Readings that are made of advancing rounds are those rounds done often enough, by induction on
the tokens that are left. -/
theorem Progresses.of_advances (h : Advances round) (hrun : run = round run) :
    Progresses round run :=
  ⟨hrun, h, h.unroll_eq hrun⟩

end Reading

end CommandTree
