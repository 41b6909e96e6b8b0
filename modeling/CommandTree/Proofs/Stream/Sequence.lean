import CommandTree.Proofs.Lexis.Tiling
import CommandTree.Proofs.Stream.Upcoming

/-!
# The sequence of tokens of a stream

`TokenStream.sequence` lists the tokens that a stream hands out together with their places, the end
of input included. Taking a token drops it from the sequence and looking at one leaves the sequence
as it is, so the sequence says where in a text a stream stands. No two tokens of a sequence start at
the same place, which means that a place tells the token.

A stream fails only where characters form no token. Its diagnostics are lexical ones.
-/

set_option autoImplicit false

namespace CommandTree.TokenStream

/-- The tokens that a stream hands out, through the end of input or up to the first failure. -/
def sequence (s : TokenStream) : List (Located Token) := s.tokens.1 ++ s.tokens.2.toOption.toList

variable {s s' : TokenStream} {t : Located Token} {d : Diagnostic}

/-! ## Taking and looking -/

/-- A stream hands out its next token and then those behind it. -/
theorem sequence_of_next (h : s.next = (.ok t, s')) (ht : t.value ≠ .endOfInput) :
    s.sequence = t :: s'.sequence := by
  rw [sequence, tokens_of_next h ht]
  rfl

/-- At its end a stream hands out the end of input. -/
theorem sequence_of_end (h : s.next = (.ok t, s')) (ht : t.value = .endOfInput) :
    s.sequence = [t] := by
  rw [sequence, tokens_of_end h ht]
  rfl

/-- The next token is the first one that a stream hands out. -/
theorem exists_sequence_of_next (h : s.next = (.ok t, s')) : ∃ rest, s.sequence = t :: rest := by
  by_cases ht : t.value = .endOfInput
  · exact ⟨[], sequence_of_end h ht⟩
  · exact ⟨_, sequence_of_next h ht⟩

/-- Looking does not change the tokens of a stream. -/
theorem tokens_of_peek (h : s.peek = (.ok t, s')) : s.tokens = s'.tokens := by
  have hsame := next_of_peek h
  have hnext := next_of_peeked (peeked_of_peek h)
  by_cases ht : t.value = .endOfInput
  · rw [tokens_of_end hnext ht, tokens_of_end (hsame ▸ hnext) ht]
  · rw [tokens_of_next hnext ht, tokens_of_next (hsame ▸ hnext) ht]

/-- Looking does not change what a stream hands out. -/
theorem sequence_of_peek (h : s.peek = (.ok t, s')) : s.sequence = s'.sequence := by
  rw [sequence, sequence, tokens_of_peek h]

/-- A token that is looked at is the first of the sequence. -/
theorem exists_sequence_of_peek (h : s.peek = (.ok t, s')) : ∃ rest, s.sequence = t :: rest := by
  have hnext := next_of_peeked (peeked_of_peek h)
  rw [next_of_peek h] at hnext
  exact exists_sequence_of_next hnext

/-- Taking a word takes it off what a stream hands out. -/
theorem sequence_of_nextWord? {word : Located String} (h : s.nextWord? = (.ok (some word), s')) :
    s.sequence = ⟨.word word.value, word.span⟩ :: s'.sequence := by
  unfold nextWord? at h
  split at h
  · simp at h
  · rename_i text span q hpeek
    simp only [Prod.mk.injEq, Except.ok.injEq, Option.some.injEq] at h
    obtain ⟨rfl, rfl⟩ := h
    have hnext := next_of_peeked (peeked_of_peek hpeek)
    rw [sequence_of_peek hpeek, sequence_of_next hnext (by simp), hnext]
  · simp at h

/-- Where no word is taken, the next token is no word and stays. -/
theorem sequence_of_nextWord?_none (h : s.nextWord? = (.ok none, s')) :
    s.sequence = s'.sequence ∧ ∃ t rest, s'.sequence = t :: rest ∧ t.value.isWord = false := by
  unfold nextWord? at h
  split at h
  · simp at h
  · simp at h
  · rename_i t q hword hpeek
    obtain rfl := (Prod.mk.inj h).2
    obtain ⟨rest, hrest⟩ := exists_sequence_of_peek hpeek
    have hother : t.value.isWord = false := by
      obtain ⟨value, span⟩ := t
      cases value with
      | word text => exact absurd rfl (hword text span)
      | _ => rfl
    exact ⟨sequence_of_peek hpeek, t, rest, sequence_of_peek hpeek ▸ hrest, hother⟩

/-- The first token of the sequence is the one that is taken next. -/
theorem exists_next_of_sequence {rest : List (Located Token)} (h : s.sequence = t :: rest) :
    ∃ s', s.next = (.ok t, s') ∧ (t.value ≠ .endOfInput → s'.sequence = rest) := by
  rcases hnext : s.next with ⟨d | t', s'⟩
  · rw [sequence, tokens_of_error hnext] at h
    contradiction
  · by_cases hend : t'.value = .endOfInput
    · rw [sequence_of_end hnext hend] at h
      obtain ⟨rfl, -⟩ := List.cons.inj h
      exact ⟨s', rfl, fun hne => absurd hend hne⟩
    · rw [sequence_of_next hnext hend] at h
      obtain ⟨rfl, hrest⟩ := List.cons.inj h
      exact ⟨s', rfl, fun _ => hrest⟩

/-- A word that is the first token of the sequence is taken. -/
theorem exists_nextWord?_of_word {text : String} {span : Span} {rest : List (Located Token)}
    (h : s.sequence = ⟨.word text, span⟩ :: rest) :
    ∃ s', s.nextWord? = (.ok (some ⟨text, span⟩), s') ∧ s'.sequence = rest := by
  obtain ⟨q, hnext, -⟩ := exists_next_of_sequence h
  obtain ⟨q', hpeek⟩ := exists_peek_of_next hnext
  have hword : s.nextWord? = (.ok (some ⟨text, span⟩), q'.next.2) := by rw [nextWord?, hpeek]
  refine ⟨q'.next.2, hword, ?_⟩
  rw [sequence_of_nextWord? hword] at h
  exact (List.cons.inj h).2

/-- Any other token stays where it is. -/
theorem exists_nextWord?_of_other {rest : List (Located Token)} (h : s.sequence = t :: rest)
    (ht : t.value.isWord = false) :
    ∃ s', s.nextWord? = (.ok none, s') ∧ s'.sequence = t :: rest := by
  obtain ⟨q, hnext, -⟩ := exists_next_of_sequence h
  obtain ⟨q', hpeek⟩ := exists_peek_of_next hnext
  refine ⟨q', ?_, (sequence_of_peek hpeek).symm.trans h⟩
  obtain ⟨value, span⟩ := t
  cases value <;> simp_all [nextWord?, Token.isWord]

/-! ## Failures -/

/-- A failure to read a token is about characters. -/
theorem kind_of_readToken {r r' : Reader} (h : r.readToken = (.error d, r')) :
    d.kind = .lexical := by
  have hword : ∀ x, r.locateWord x = (.error d, r') → d.kind = .lexical := by
    rintro ⟨e | cs, q⟩ heq
    · rw [Reader.locateWord, Prod.mk.injEq, Except.error.injEq] at heq
      rw [← heq.1]
      rfl
    · simp [Reader.locateWord] at heq
  unfold Reader.readToken at h
  split at h
  · simp at h
  · repeat' split at h
    all_goals first
      | exact hword _ h
      | simp [Reader.readStructural] at h
    rw [← h.1]
    rfl

/-- A failure to scan is about characters. -/
theorem kind_of_scan (h : s.scan = (.error d, s')) : d.kind = .lexical := by
  unfold scan at h
  split at h
  · rw [Prod.mk.injEq, Except.error.injEq] at h
    rw [← h.1]
    rfl
  · rename_i r hskip
    rw [Prod.mk.injEq] at h
    exact kind_of_readToken (Prod.ext h.1 rfl)

/-- A failure to take a token is about characters. -/
theorem kind_of_next (h : s.next = (.error d, s')) : d.kind = .lexical := by
  unfold next at h
  split at h
  · simp at h
  · exact kind_of_scan h

/-- A failure to look at a token is about characters. -/
theorem kind_of_peek (h : s.peek = (.error d, s')) : d.kind = .lexical := by
  unfold peek at h
  split at h
  · simp at h
  · split at h
    · simp at h
    · rename_i hscan
      rw [Prod.mk.injEq, Except.error.injEq] at h
      obtain ⟨rfl, rfl⟩ := h
      exact kind_of_scan hscan

/-- A failure to take a word is about characters. -/
theorem kind_of_nextWord? (h : s.nextWord? = (.error d, s')) : d.kind = .lexical := by
  unfold nextWord? at h
  split at h
  · rename_i hpeek
    rw [Prod.mk.injEq, Except.error.injEq] at h
    obtain ⟨rfl, rfl⟩ := h
    exact kind_of_peek hpeek
  · simp at h
  · simp at h

/-! ## Whole texts -/

/-- The tokens of a stream that does not fail end in the end of input. -/
theorem value_of_tokens (h : s.tokens.2 = .ok t) : t.value = .endOfInput := by
  fun_induction tokens s with
  | case1 s d s' hnext => simp at h
  | case2 s t' s' hnext hend =>
    rw [Except.ok.injEq] at h
    rw [← h, hend]
  | case3 s t' s' hnext hend ih => exact ih h

/-- Where a stream does not fail, the end of input stands behind all tokens. -/
theorem Lexes.sequence_eq {ts : List Token} (h : s.Lexes ts) :
    s.sequence.map Located.value = ts ++ [.endOfInput] := by
  obtain ⟨located, last, htokens, rfl⟩ := h
  have hlast := value_of_tokens (congrArg Prod.snd htokens)
  rw [sequence, htokens, List.map_append, ← hlast]
  rfl

end CommandTree.TokenStream

namespace CommandTree.Lexis

/-- A token has a character. -/
theorem Lexeme.ne_nil {slice behind : List Char} {value : Token}
    (h : Lexeme slice behind value) : slice ≠ [] := by
  cases h with
  | bare hword => exact hword.ne_nil
  | _ => exact List.cons_ne_nil _ _

/-- The tokens of a tiling start one behind the other, and so does what ends it. -/
theorem Tiles.pairwise_start {before behind : List Char} {tokens : List (Located Token)}
    {ending : Except Diagnostic (Located Token)} (h : Tiles before behind tokens ending) :
    (∀ t ∈ tokens ++ ending.toOption.toList, Bytes.count before ≤ t.span.start) ∧
      (tokens ++ ending.toOption.toList).Pairwise fun t u => t.span.start < u.span.start := by
  induction h with
  | done hgap => simp [Except.toOption, spanAt]
  | failed => simp [Except.toOption]
  | @token before gap slice behind _ tokens ending _ hlexeme _ ih =>
    obtain ⟨hstart, hpairwise⟩ := ih
    have hlt : ∀ t ∈ tokens ++ ending.toOption.toList,
        Bytes.count (before ++ gap) < t.span.start := by
      intro t ht
      have hle := hstart t ht
      obtain ⟨c, cs, rfl⟩ := List.exists_cons_of_ne_nil hlexeme.ne_nil
      have hpos := c.utf8Size_pos
      simp only [Bytes.count_append, Bytes.count_cons] at hle ⊢
      omega
    have hle : Bytes.count before ≤ Bytes.count (before ++ gap) := by
      rw [Bytes.count_append]
      omega
    rw [List.cons_append]
    refine ⟨List.forall_mem_cons.mpr ⟨hle, fun t ht => ?_⟩, List.pairwise_cons.mpr ⟨hlt, hpairwise⟩⟩
    exact Nat.le_trans hle (Nat.le_of_lt (hlt t ht))

end CommandTree.Lexis

namespace CommandTree.TokenStream

/-- In the sequence of a text, tokens start one behind the other. -/
theorem pairwise_sequence (text : String) :
    (ofSource (.ofString text)).sequence.Pairwise fun t u => t.span.start < u.span.start := by
  obtain ⟨tokens, ending, htiles⟩ := Lexis.exists_tiles [] text.toList
  rw [sequence, tokens_of_tiles htiles (stands_ofString text)]
  exact htiles.pairwise_start.2

/-- In the sequence of a text, a place tells the token. -/
theorem eq_of_span_eq {text : String} {k k' : Nat} {t t' : Located Token}
    (h : (ofSource (.ofString text)).sequence[k]? = some t)
    (h' : (ofSource (.ofString text)).sequence[k']? = some t') (hspan : t.span = t'.span) :
    k = k' := by
  have hpairwise := List.pairwise_iff_getElem.mp (pairwise_sequence text)
  obtain ⟨hk, rfl⟩ := List.getElem?_eq_some_iff.mp h
  obtain ⟨hk', rfl⟩ := List.getElem?_eq_some_iff.mp h'
  rcases Nat.lt_trichotomy k k' with hlt | heq | hlt
  · have := hpairwise k k' hk hk' hlt
    rw [hspan] at this
    exact absurd this (Nat.lt_irrefl _)
  · exact heq
  · have := hpairwise k' k hk' hk hlt
    rw [hspan] at this
    exact absurd this (Nat.lt_irrefl _)

end CommandTree.TokenStream
