import CommandTree.TokenStream.Reading
import CommandTree.TokenStream.Tokens

/-!
# What a stream hands out next

`TokenStream.Upcoming` says which tokens a stream hands out when it is asked for them one by one,
their places left aside. It makes no difference to that whether a token was looked at before.

A step that succeeds leaves a stream behind, and `TokenStream.Consumes` says how far that stream has
come: what it hands out is what the first stream hands out behind certain tokens. This is all that
a step has to say about the stream for steps to be put together, whatever they looked at on the way.
-/

set_option autoImplicit false

namespace CommandTree.TokenStream

/-- The tokens that a stream hands out next, as far as they are listed. -/
def Upcoming : TokenStream → List Token → Prop
  | _, [] => True
  | s, t :: ts => ∃ span s', s.next = (.ok ⟨t, span⟩, s') ∧ Upcoming s' ts

/-- Behind the given tokens, one stream hands out what the other does. -/
def Consumes (s : TokenStream) (ts : List Token) (s' : TokenStream) : Prop :=
  ∀ us, s.Upcoming (ts ++ us) ↔ s'.Upcoming us

variable {s s' s'' : TokenStream} {t : Located Token} {value : Token} {ts us : List Token}

/-! ## Taking and looking -/

/-- Of no tokens nothing is asked. -/
theorem upcoming_nil (s : TokenStream) : s.Upcoming [] := trivial

/-- Tokens are upcoming if the first one is next and the others are upcoming behind it. -/
theorem upcoming_cons_of_next (h : s.next = (.ok t, s')) :
    s.Upcoming (value :: ts) ↔ value = t.value ∧ s'.Upcoming ts := by
  constructor
  · rintro ⟨span, q, hnext, hts⟩
    rw [h, Prod.mk.injEq, Except.ok.injEq] at hnext
    obtain ⟨rfl, rfl⟩ := hnext
    exact ⟨rfl, hts⟩
  · rintro ⟨rfl, hts⟩
    exact ⟨t.span, s', h, hts⟩

/-- Where nothing was looked at, taking a token scans it. -/
theorem next_of_none (h : s.peeked = none) : s.next = s.scan := by
  rw [next, h]

/-- A token that was looked at is found again. -/
theorem peek_of_peeked (h : s.peeked = some t) : s.peek = (.ok t, s) := by
  rw [peek, h]

/-- Where nothing was looked at, looking scans a token and keeps it. -/
theorem peek_of_scan (h : s.peeked = none) (hscan : s.scan = (.ok t, s')) :
    s.peek = (.ok t, { s' with peeked := some t }) := by
  rw [peek, h]
  simp only [hscan]

/-- Where nothing was looked at, looking fails as scanning does. -/
theorem peek_of_scan_error {d : Diagnostic} (h : s.peeked = none)
    (hscan : s.scan = (.error d, s')) : s.peek = (.error d, s') := by
  rw [peek, h]
  simp only [hscan]

/-- Scanning keeps no token. -/
theorem peeked_of_scan {x : Except Diagnostic (Located Token)} (h : s.peeked = none)
    (hscan : s.scan = (x, s')) : s'.peeked = none := by
  have hkept := peeked_scan s
  rwa [hscan, h] at hkept

/-- Nothing is kept in front of the reader once a token was taken. -/
theorem peeked_next (s : TokenStream) : s.next.2.peeked = none := by
  cases hpeeked : s.peeked with
  | some t => rw [next_of_peeked hpeeked]
  | none => rw [next_of_none hpeeked, peeked_scan, hpeeked]

/-- A look does not change which token is taken next. -/
theorem next_of_peek (h : s.peek = (.ok t, s')) : s'.next = s.next := by
  unfold peek at h
  split at h
  · rw [Prod.mk.injEq] at h
    rw [h.2]
  · rename_i hnone
    split at h
    · rename_i t' q hscan
      rw [Prod.mk.injEq] at h
      obtain ⟨-, rfl⟩ := h
      have hpeeked := peeked_scan s
      rw [hscan, hnone] at hpeeked
      have hq : { q with peeked := none } = q := by rw [← hpeeked]
      rw [next_of_peeked (t := t') rfl, next, hnone]
      simpa [hscan] using hq
    · simp at h

/-- What is taken behind a look is what was looked at. -/
theorem eq_of_peek_of_next {t' : Located Token} (h : s.peek = (.ok t, s'))
    (hnext : s'.next = (.ok t', s'')) : t' = t := by
  rw [next_of_peeked (peeked_of_peek h), Prod.mk.injEq, Except.ok.injEq] at hnext
  exact hnext.1.symm

/-- Looking does not change what is upcoming. -/
theorem upcoming_of_peek (h : s.peek = (.ok t, s')) (ts : List Token) :
    s.Upcoming ts ↔ s'.Upcoming ts := by
  cases ts with
  | nil => exact Iff.rfl
  | cons value ts => rw [Upcoming, Upcoming, next_of_peek h]

/-- A look finds the token that can be taken. -/
theorem exists_peek_of_next (h : s.next = (.ok t, s')) : ∃ q, s.peek = (.ok t, q) := by
  unfold next at h
  unfold peek
  split at h
  · rw [Prod.mk.injEq, Except.ok.injEq] at h
    exact ⟨s, by rw [h.1]⟩
  · exact ⟨_, by rw [h]⟩

/-- A look finds the token that is upcoming. -/
theorem peek_of_upcoming (h : s.Upcoming (value :: ts)) :
    ∃ span s', s.peek = (.ok ⟨value, span⟩, s') ∧ s'.Upcoming (value :: ts) := by
  obtain ⟨span, q, hnext, hts⟩ := h
  obtain ⟨s', hs'⟩ := exists_peek_of_next hnext
  exact ⟨span, s', hs', (upcoming_of_peek hs' _).mp ⟨span, q, hnext, hts⟩⟩

/-- The front of what is upcoming is upcoming. -/
theorem Upcoming.of_append (h : s.Upcoming (ts ++ us)) : s.Upcoming ts := by
  induction ts generalizing s with
  | nil => trivial
  | cons value ts ih =>
    obtain ⟨span, s', hnext, hrest⟩ := h
    exact ⟨span, s', hnext, ih hrest⟩

/-! ## Coming further -/

namespace Consumes

/-- Nothing is consumed where a stream stays. -/
theorem refl (s : TokenStream) : s.Consumes [] s := fun _ => Iff.rfl

/-- What is consumed in two steps is consumed in one. -/
theorem trans (h : s.Consumes ts s') (h' : s'.Consumes us s'') : s.Consumes (ts ++ us) s'' := by
  intro rest
  rw [List.append_assoc]
  exact (h (us ++ rest)).trans (h' rest)

/-- Taking a token consumes it. -/
theorem of_next (h : s.next = (.ok t, s')) : s.Consumes [t.value] s' := by
  intro rest
  rw [List.singleton_append, upcoming_cons_of_next h]
  exact and_iff_right rfl

/-- Looking consumes nothing. -/
theorem of_peek (h : s.peek = (.ok t, s')) : s.Consumes [] s' := upcoming_of_peek h

/-- The tokens that were consumed were upcoming. -/
theorem upcoming (h : s.Consumes ts s') : s.Upcoming ts := by
  have := (h []).mpr s'.upcoming_nil
  rwa [List.append_nil] at this

end Consumes

/-! ## Taking words -/

/-- Taking a word consumes it. -/
theorem Consumes.of_nextWord? {word : Located String}
    (h : s.nextWord? = (.ok (some word), s')) : s.Consumes [.word word.value] s' := by
  unfold nextWord? at h
  split at h
  · simp at h
  · rename_i text span q hpeek
    simp only [Prod.mk.injEq, Except.ok.injEq, Option.some.injEq] at h
    obtain ⟨rfl, rfl⟩ := h
    have hnext := next_of_peeked (peeked_of_peek hpeek)
    rw [hnext]
    exact (Consumes.of_peek hpeek).trans (Consumes.of_next hnext)
  · simp at h

/-- Where no word is taken nothing is consumed. -/
theorem Consumes.of_nextWord?_none (h : s.nextWord? = (.ok none, s')) : s.Consumes [] s' := by
  unfold nextWord? at h
  split at h
  · simp at h
  · simp at h
  · rename_i hpeek
    rw [Prod.mk.injEq] at h
    rw [← h.2]
    exact .of_peek hpeek

/-- A word that is upcoming is taken. -/
theorem nextWord?_of_word {text : String} (h : s.Upcoming (.word text :: ts)) :
    ∃ span s', s.nextWord? = (.ok (some ⟨text, span⟩), s') ∧ s'.Upcoming ts := by
  obtain ⟨span, q, hpeek, hq⟩ := peek_of_upcoming h
  have hnext := next_of_peeked (peeked_of_peek hpeek)
  refine ⟨span, q.next.2, by rw [nextWord?, hpeek], ?_⟩
  rw [hnext]
  exact ((upcoming_cons_of_next hnext).mp hq).2

/-- Another token that is upcoming is not taken as a word. -/
theorem nextWord?_of_other (h : s.Upcoming (value :: ts)) (hvalue : value.isWord = false) :
    ∃ s', s.nextWord? = (.ok none, s') ∧ s'.Upcoming (value :: ts) := by
  obtain ⟨span, q, hpeek, hq⟩ := peek_of_upcoming h
  refine ⟨q, ?_, hq⟩
  cases value <;> simp_all [nextWord?, Token.isWord]

/-! ## All tokens -/

/-- The stream hands out exactly the given tokens before the end of input, and does not fail. -/
def Lexes (s : TokenStream) (ts : List Token) : Prop :=
  ∃ located last, s.tokens = (located, .ok last) ∧ located.map Located.value = ts

/-- A stream that does not fail hands out its tokens before the end of input. -/
theorem Lexes.of_isOk (h : s.tokens.2.isOk = true) (hts : s.tokens.1.map Located.value = ts) :
    s.Lexes ts := by
  rcases htokens : s.tokens with ⟨located, _ | last⟩ <;> rw [htokens] at h hts
  · contradiction
  · exact ⟨located, last, htokens, hts⟩

/-- A stream hands out one list of tokens. -/
theorem Lexes.unique (h : s.Lexes ts) (h' : s.Lexes us) : ts = us := by
  obtain ⟨located, last, heq, rfl⟩ := h
  obtain ⟨located', last', heq', rfl⟩ := h'
  rw [(Prod.mk.inj (heq.symm.trans heq')).1]

/-- What a stream hands out starts with the next token. -/
theorem lexes_iff_of_next (h : s.next = (.ok t, s')) (ht : t.value ≠ .endOfInput) :
    s.Lexes ts ↔ ∃ us, ts = t.value :: us ∧ s'.Lexes us := by
  constructor
  · rintro ⟨located, last, htokens, rfl⟩
    rw [tokens_of_next h ht, Prod.mk.injEq] at htokens
    obtain ⟨rfl, hlast⟩ := htokens
    exact ⟨_, rfl, s'.tokens.1, last, Prod.ext rfl hlast, rfl⟩
  · rintro ⟨us, rfl, located, last, htokens, rfl⟩
    exact ⟨t :: located, last, by rw [tokens_of_next h ht, htokens], rfl⟩

/-- A stream that fails at once hands out no list of tokens. -/
theorem not_lexes_of_error {d : Diagnostic} (h : s.next = (.error d, s')) : ¬ s.Lexes ts := by
  rintro ⟨located, last, htokens, -⟩
  rw [tokens_of_error h] at htokens
  simp at htokens

/-- At its end a stream hands out the empty list. -/
theorem lexes_iff_of_end (h : s.next = (.ok t, s')) (ht : t.value = .endOfInput) :
    s.Lexes ts ↔ ts = [] := by
  constructor
  · rintro ⟨located, last, htokens, rfl⟩
    rw [tokens_of_end h ht, Prod.mk.injEq] at htokens
    rw [← htokens.1]
    rfl
  · rintro rfl
    exact ⟨[], t, tokens_of_end h ht, rfl⟩

/-- A stream lexes to some tokens exactly when they are upcoming and the end of input is upcoming
behind them. -/
theorem lexes_iff (hts : Token.endOfInput ∉ ts) :
    s.Lexes ts ↔ s.Upcoming (ts ++ [.endOfInput]) := by
  induction ts generalizing s with
  | nil =>
    rcases hnext : s.next with ⟨d | t, s'⟩
    · refine iff_of_false (not_lexes_of_error hnext) ?_
      rintro ⟨span, q, heq, -⟩
      simp [hnext] at heq
    rw [List.nil_append, upcoming_cons_of_next hnext]
    by_cases ht : t.value = .endOfInput
    · rw [lexes_iff_of_end hnext ht]
      exact iff_of_true rfl ⟨ht.symm, s'.upcoming_nil⟩
    · rw [lexes_iff_of_next hnext ht]
      exact iff_of_false (by simp) fun h => ht h.1.symm
  | cons value ts ih =>
    rcases hnext : s.next with ⟨d | t, s'⟩
    · refine iff_of_false (not_lexes_of_error hnext) ?_
      rintro ⟨span, q, heq, -⟩
      simp [hnext] at heq
    have hvalue : Token.endOfInput ≠ value := List.ne_of_not_mem_cons hts
    rw [List.cons_append, upcoming_cons_of_next hnext]
    by_cases ht : t.value = .endOfInput
    · rw [lexes_iff_of_end hnext ht]
      exact iff_of_false (by simp) fun h => hvalue (ht.symm.trans h.1.symm)
    · rw [lexes_iff_of_next hnext ht, ← ih (List.not_mem_of_not_mem_cons hts)]
      constructor
      · rintro ⟨us, heq, hrest⟩
        obtain ⟨rfl, rfl⟩ := List.cons.inj heq
        exact ⟨rfl, hrest⟩
      · rintro ⟨rfl, hrest⟩
        exact ⟨ts, rfl, hrest⟩

end CommandTree.TokenStream
