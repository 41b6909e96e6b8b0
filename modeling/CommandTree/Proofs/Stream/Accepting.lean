import CommandTree.Proofs.Stream.Upcoming

/-!
# Which words a reading accepts

A reading that takes words from a stream is described by the words that it accepts and the results
that it gives for them. `Reading.Accepts` has both directions. A reading that succeeds consumed
words of the description. And where words of the description are upcoming in front of a token that
is no word, the reading succeeds and stops in front of that token. The second direction needs the
other token, because a reading that takes as many words as it can would go on.

Readings are put together from a few steps, and there is one lemma for each of these.
-/

set_option autoImplicit false

namespace CommandTree.Reading

variable {ε δ α β : Type}

/-- The reading accepts exactly the words that `P` describes, with the results that `P` gives. -/
structure Accepts (m : Reading ε α) (P : (words : List String) → α → Prop) : Prop where
  /-- A reading that succeeds consumed words of the description. -/
  sound : ∀ {s s' : TokenStream} {a : α}, m s = (.ok a, s') →
    ∃ words, P words a ∧ s.Consumes (words.map .word) s'
  /-- Words of the description are read in front of a token that is no word. -/
  complete : ∀ {s : TokenStream} {words : List String} {a : α} {other : Token} {rest : List Token},
    P words a → other.isWord = false → s.Upcoming (words.map .word ++ other :: rest) →
      ∃ s', m s = (.ok a, s') ∧ s'.Upcoming (other :: rest)

/-- What returns gives its own result and leaves the stream in place. -/
theorem pure_eq_ok {a b : α} {s s' : TokenStream}
    (h : (Pure.pure a : Reading ε α) s = (.ok b, s')) : a = b ∧ s = s' := by
  rwa [pure_apply, Prod.mk.injEq, Except.ok.injEq] at h

/-- What fails does not succeed. -/
theorem fail_ne_ok {e : ε} {a : α} {s s' : TokenStream} :
    (Reading.fail e : Reading ε α) s ≠ (.ok a, s') := by
  simp [Reading.fail]

/-- What returns does not fail. -/
theorem pure_ne_error {a : α} {e : ε} {s s' : TokenStream} :
    (Pure.pure a : Reading ε α) s ≠ (.error e, s') := by
  simp [pure_apply]

/-- What fails gives its own failure and leaves the stream in place. -/
theorem fail_eq_error {e e' : ε} {s s' : TokenStream}
    (h : (Reading.fail e : Reading ε α) s = (.error e', s')) : e = e' ∧ s = s' := by
  rwa [Reading.fail, Prod.mk.injEq, Except.error.injEq] at h

/-- Two readings succeed only if the first one does, and the second one behind it. -/
theorem bind_eq_ok {m : Reading ε α} {f : α → Reading ε β} {s s'' : TokenStream} {b : β}
    (h : (m >>= f) s = (.ok b, s'')) : ∃ a s', m s = (.ok a, s') ∧ f a s' = (.ok b, s'') := by
  rw [bind_apply] at h
  split at h
  · rename_i a s' hm
    exact ⟨a, s', hm, h⟩
  · simp at h

/-- Two readings fail only if the first one does, or the second one behind it. -/
theorem bind_eq_error {m : Reading ε α} {f : α → Reading ε β} {s s' : TokenStream} {e : ε}
    (h : (m >>= f) s = (.error e, s')) :
    m s = (.error e, s') ∨ ∃ a q, m s = (.ok a, q) ∧ f a q = (.error e, s') := by
  rw [bind_apply] at h
  split at h
  · rename_i a q hm
    exact Or.inr ⟨a, q, hm, h⟩
  · rename_i e' q hm
    rw [Prod.mk.injEq, Except.error.injEq] at h
    obtain ⟨rfl, rfl⟩ := h
    exact Or.inl hm

/-- Behind a success the second reading goes on. -/
theorem bind_of_ok {m : Reading ε α} {s s' : TokenStream} {a : α} (h : m s = (.ok a, s'))
    (f : α → Reading ε β) : (m >>= f) s = f a s' := by
  rw [bind_apply, h]

/-- Behind a failure nothing goes on. -/
theorem bind_of_error {m : Reading ε α} {s s' : TokenStream} {e : ε} (h : m s = (.error e, s'))
    (f : α → Reading ε β) : (m >>= f) s = (.error e, s') := by
  rw [bind_apply, h]

/-- Readings that do the same step by step do the same. -/
theorem bind_congr {m m' : Reading ε α} {f g : α → Reading ε β} {s : TokenStream}
    (hm : m s = m' s) (h : ∀ a s', m s = (.ok a, s') → f a s' = g a s') :
    (m >>= f) s = (m' >>= g) s := by
  rw [bind_apply, bind_apply, ← hm]
  split
  · exact h _ _ ‹_›
  · rfl

/-- What follows a step matters only where the step leads to. -/
theorem bind_congr_of_ok {m : Reading ε α} {f g : α → Reading ε β} {s : TokenStream}
    (h : ∀ a s', m s = (.ok a, s') → f a s' = g a s') : (m >>= f) s = (m >>= g) s :=
  bind_congr rfl h

/-- A word is taken by looking at the next token first. -/
theorem nextWord?_eq :
    Reading.nextWord? = (do
      let token ← Reading.peek
      match token.value with
      | .word text =>
        let _ ← Reading.next
        pure (some ⟨text, token.span⟩)
      | _ => pure none) := by
  funext s
  unfold Reading.nextWord? TokenStream.nextWord?
  rcases hpeek : s.peek with ⟨d | ⟨value, span⟩, s'⟩
  · exact (bind_of_error hpeek _).symm
  · refine Eq.trans ?_ (bind_of_ok hpeek _).symm
    cases value with
    | word text =>
      have hnext := TokenStream.next_of_peeked (TokenStream.peeked_of_peek hpeek)
      refine Eq.trans ?_ (bind_of_ok hnext _).symm
      exact congrArg (Prod.mk _) (congrArg Prod.snd hnext)
    | _ => rfl

/-- Changing the failures of a reading does not change its successes. -/
theorem mapError_eq_ok_iff {m : Reading ε α} {f : ε → δ} {s s' : TokenStream} {a : α} :
    mapError f m s = (.ok a, s') ↔ m s = (.ok a, s') := by
  unfold mapError
  rcases m s with ⟨_ | _, _⟩ <;> simp

namespace Accepts

variable {P Q : List String → α → Prop}

/-- What a reading accepts may be described in another way. -/
theorem congr {m : Reading ε α} (h : m.Accepts P) (hPQ : ∀ words a, P words a ↔ Q words a) :
    m.Accepts Q := by
  have hPQ : P = Q := funext fun words => funext fun a => propext (hPQ words a)
  exact hPQ ▸ h

/-- Changing the failures of a reading does not change what it accepts. -/
theorem mapError {m : Reading ε α} (f : ε → δ) (h : m.Accepts P) :
    (Reading.mapError f m).Accepts P := by
  constructor
  · intro s s' a hm
    exact h.sound (mapError_eq_ok_iff.mp hm)
  · intro s words a other rest hP hother hs
    obtain ⟨s', hm, hs'⟩ := h.complete hP hother hs
    exact ⟨s', mapError_eq_ok_iff.mpr hm, hs'⟩

/-- A reading that never succeeds accepts nothing. -/
theorem never {m : Reading ε α} (hm : ∀ s s' a, m s ≠ (.ok a, s'))
    (hP : ∀ words a, ¬ P words a) : m.Accepts P :=
  ⟨fun h => absurd h (hm _ _ _), fun h => absurd h (hP _ _)⟩

/-- Returning accepts no words. -/
theorem pure (a : α) :
    (Pure.pure a : Reading ε α).Accepts fun words b => words = [] ∧ b = a := by
  constructor
  · intro s s' b h
    rw [pure_apply, Prod.mk.injEq, Except.ok.injEq] at h
    obtain ⟨rfl, rfl⟩ := h
    exact ⟨[], ⟨rfl, rfl⟩, .refl s⟩
  · rintro s words b other rest ⟨rfl, rfl⟩ - hs
    exact ⟨s, rfl, hs⟩

/-- Going on with a result that is there already. -/
theorem ofExcept_bind {x : Except ε α} {f : α → Reading ε β} {R : List String → β → Prop}
    (hok : ∀ a, x = .ok a → (f a).Accepts R)
    (herror : ∀ e, x = .error e → ∀ words b, ¬ R words b) :
    (Reading.ofExcept x >>= f).Accepts R := by
  cases x with
  | error e =>
    refine never (fun s s' b h => ?_) (herror e rfl)
    simp [bind_apply, Reading.ofExcept] at h
  | ok a => exact hok a rfl

/-- Failing accepts nothing, so it fits where there is nothing to accept. -/
theorem fail {e : ε} (hP : ∀ words a, ¬ P words a) : (Reading.fail e).Accepts P :=
  never (fun s s' a h => by simp [Reading.fail] at h) hP

/-- Using the result of a reading does not change the words that it accepts. -/
theorem map {m : Reading ε α} (f : α → β) (h : m.Accepts P) :
    (m >>= fun a => Pure.pure (f a)).Accepts fun words b => ∃ a, P words a ∧ b = f a := by
  constructor
  · intro s s' b hb
    obtain ⟨a, q, hm, heq⟩ := bind_eq_ok hb
    rw [pure_apply, Prod.mk.injEq, Except.ok.injEq] at heq
    obtain ⟨rfl, rfl⟩ := heq
    obtain ⟨words, hP, hconsumes⟩ := h.sound hm
    exact ⟨words, ⟨a, hP, rfl⟩, hconsumes⟩
  · rintro s words b other rest ⟨a, hP, rfl⟩ hother hs
    obtain ⟨s', hm, hs'⟩ := h.complete hP hother hs
    exact ⟨s', bind_of_ok hm _, hs'⟩

/-- Taking the next word, if there is one, and going on. -/
theorem nextWord? {f : Option (Located String) → Reading Diagnostic α}
    (hnone : (f none).Accepts fun words a => words = [] ∧ Q [] a)
    (hsome : ∀ word, (f (some word)).Accepts fun words a => Q (word.value :: words) a) :
    (Reading.nextWord? >>= f).Accepts Q := by
  constructor
  · intro s s' a h
    obtain ⟨word, q, hword, hf⟩ := bind_eq_ok h
    cases word with
    | none =>
      obtain ⟨_, ⟨rfl, hQ⟩, hconsumes⟩ := hnone.sound hf
      exact ⟨[], hQ, (TokenStream.Consumes.of_nextWord?_none hword).trans hconsumes⟩
    | some word =>
      obtain ⟨words, hQ, hconsumes⟩ := (hsome word).sound hf
      exact ⟨word.value :: words, hQ, (TokenStream.Consumes.of_nextWord? hword).trans hconsumes⟩
  · intro s words a other rest hQ hother hs
    cases words with
    | nil =>
      obtain ⟨q, hword, hq⟩ := TokenStream.nextWord?_of_other hs hother
      obtain ⟨s', hf, hs'⟩ := hnone.complete ⟨rfl, hQ⟩ hother hq
      exact ⟨s', (bind_of_ok hword f).trans hf, hs'⟩
    | cons text words =>
      obtain ⟨span, q, hword, hq⟩ := TokenStream.nextWord?_of_word hs
      obtain ⟨s', hf, hs'⟩ := (hsome ⟨text, span⟩).complete hQ hother hq
      exact ⟨s', (bind_of_ok hword f).trans hf, hs'⟩

/-- Taking a token that has to be a word. -/
theorem of_next {m : Reading ε α} {R : (word : String) → α → Prop}
    (hm : ∀ s s' a, m s = (.ok a, s') ↔
      ∃ word span, s.next = (.ok ⟨.word word, span⟩, s') ∧ R word a) :
    m.Accepts fun words a => ∃ word, words = [word] ∧ R word a := by
  constructor
  · intro s s' a h
    obtain ⟨word, span, hnext, hR⟩ := (hm s s' a).mp h
    exact ⟨[word], ⟨word, rfl, hR⟩, TokenStream.Consumes.of_next hnext⟩
  · rintro s words a other rest ⟨word, rfl, hR⟩ - ⟨span, s', hnext, hs'⟩
    exact ⟨s', (hm s s' a).mpr ⟨word, span, hnext, hR⟩, hs'⟩

end Accepts

end CommandTree.Reading
