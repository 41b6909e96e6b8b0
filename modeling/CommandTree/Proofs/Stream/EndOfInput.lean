import CommandTree.Proofs.Stream.Upcoming

/-!
# Streams at the end of input

A stream hands out the end of input only when its source is used up: no character is pending, no
line is left, and the source does not end in a failure. This stays so whatever is done with the
stream afterwards, because nothing can be taken from it any more. A stream that looked at the end of
input without taking it is in the same position, so it does not matter who looked first.
-/

set_option autoImplicit false

namespace CommandTree

namespace Reader

/-- Nothing is left to read. -/
structure AtEnd (r : Reader) : Prop where
  /-- The current line is used up. -/
  pending_eq : r.pending = []
  /-- No line is left, and no failure is to come. -/
  ahead_eq : r.ahead = ⟨[], .endOfInput⟩

variable {r r' : Reader}

/-- Where no character can be made available nothing is left to read. -/
theorem AtEnd.of_fill (h : r.fill = (.ok (), r')) (hpending : r'.pending = []) : r'.AtEnd := by
  unfold fill at h
  split at h
  · rename_i hp
    rw [Prod.mk.injEq] at h
    rw [← h.2, hp] at hpending
    contradiction
  · rw [Prod.mk.injEq] at h
    rw [← h.2] at hpending
    contradiction
  · simp at h
  · rename_i hahead
    rw [Prod.mk.injEq] at h
    exact ⟨hpending, h.2 ▸ hahead⟩
  · simp at h

/-- Where nothing is pending behind trivia nothing is left to read. -/
theorem AtEnd.of_skip (h : Trivia.skip r = (.ok (), r')) (hpending : r'.pending = []) :
    r'.AtEnd := by
  fun_induction Trivia.skip r with
  | case1 r e q hfill => simp at h
  | case2 r q hfill hline e q' hskip => simp at h
  | case3 r q hfill hline q' hskip ih => exact ih h
  | case4 r q hfill hline hblock e q' hskip => simp at h
  | case5 r q hfill hline hblock q' hskip ih => exact ih h
  | case6 r q hfill hline hblock hp =>
    obtain rfl := (Prod.mk.inj h).2
    exact .of_fill hfill hp
  | case7 r q hfill hline hblock c rest hp hblank ih => exact ih h
  | case8 r q hfill hline hblock c rest hp hblank =>
    obtain rfl := (Prod.mk.inj h).2
    rw [hp] at hpending
    contradiction

/-- Only where nothing is pending is the token the end of input. -/
theorem eq_of_readToken_endOfInput {t : Located Token} (h : r.readToken = (.ok t, r'))
    (ht : t.value = .endOfInput) : r.pending = [] ∧ r' = r := by
  unfold readToken at h
  split at h
  · rename_i hp
    exact ⟨hp, (Prod.mk.inj h).2.symm⟩
  · rename_i c rest _
    have hstructural : ∀ token : Token, r.readStructural token = (.ok t, r') →
        t.value = token := by
      intro token heq
      rw [readStructural, Prod.mk.injEq, Except.ok.injEq] at heq
      rw [← heq.1]
    have hword : ∀ x : Except ReadFailure (List Char) × Reader,
        r.locateWord x ≠ (.ok t, r') := by
      rintro ⟨_ | cs, q⟩ heq
      · simp [locateWord] at heq
      · rw [locateWord, Prod.mk.injEq, Except.ok.injEq] at heq
        rw [← heq.1] at ht
        contradiction
    repeat' split at h
    all_goals first
      | exact absurd h (hword _)
      | exact absurd ((hstructural _ h).symm.trans ht) (by simp)
      | simp at h

end Reader

namespace TokenStream

/-- Everything was taken from the stream. -/
structure AtEnd (s : TokenStream) : Prop where
  /-- No token was looked at without being taken. -/
  peeked_eq : s.peeked = none
  /-- Nothing is left to read. -/
  reader_atEnd : s.reader.AtEnd

/-- If the end of input was looked at, nothing is left to read. -/
def Settled (s : TokenStream) : Prop :=
  ∀ t, s.peeked = some t → t.value = .endOfInput → s.reader.AtEnd

variable {s s' : TokenStream} {t : Located Token}

/-- A stream from which no token was looked at is settled. -/
theorem settled_of_peeked_eq_none (h : s.peeked = none) : s.Settled := by
  intro t ht
  rw [h] at ht
  contradiction

/-- A stream over a source starts settled. -/
theorem settled_ofSource (source : Source) : (ofSource source).Settled :=
  settled_of_peeked_eq_none rfl

/-- The end of input is found where nothing is left to read. -/
theorem atEnd_of_scan (h : s.scan = (.ok t, s')) (ht : t.value = .endOfInput) :
    s'.reader.AtEnd := by
  unfold scan at h
  split at h
  · simp at h
  · rename_i r hskip
    rw [Prod.mk.injEq] at h
    obtain ⟨hx, rfl⟩ := h
    have htoken : r.readToken = (.ok t, r.readToken.2) := by rw [← hx]
    obtain ⟨hpending, hsame⟩ := Reader.eq_of_readToken_endOfInput htoken ht
    rw [hsame]
    exact .of_skip hskip hpending

/-- Taking a token leaves a stream settled. -/
theorem settled_next (s : TokenStream) : s.next.2.Settled :=
  settled_of_peeked_eq_none (peeked_next s)

/-- Looking keeps a stream settled. -/
theorem settled_peek (h : s.Settled) : s.peek.2.Settled := by
  unfold peek
  split
  · exact h
  · rename_i hnone
    split
    · rename_i t s' hscan
      intro t' ht' hend
      obtain rfl : t = t' := Option.some.inj ht'
      exact (atEnd_of_scan hscan hend : s'.reader.AtEnd)
    · rename_i s' hscan
      refine settled_of_peeked_eq_none ?_
      have hpeeked := peeked_scan s
      rwa [hscan, hnone] at hpeeked

/-- Whatever is done with a stream, it stays settled. -/
theorem Settled.of_reaches (h : s.Settled) (hreach : s.Reaches s') : s'.Settled := by
  induction hreach with
  | refl => exact h
  | next _ ih => exact ih (settled_next _)
  | peek _ ih => exact ih (settled_peek h)

/-- A settled stream from which the end of input is taken has nothing left. -/
theorem Settled.atEnd_of_next (h : s.Settled) (hnext : s.next = (.ok t, s'))
    (ht : t.value = .endOfInput) : s'.AtEnd := by
  unfold next at hnext
  split at hnext
  · rename_i t' hpeeked
    rw [Prod.mk.injEq, Except.ok.injEq] at hnext
    obtain ⟨rfl, rfl⟩ := hnext
    exact ⟨rfl, h t' hpeeked ht⟩
  · rename_i hnone
    have hpeeked := peeked_scan s
    rw [hnext, hnone] at hpeeked
    exact ⟨hpeeked, atEnd_of_scan hnext ht⟩

end TokenStream

end CommandTree
