import CommandTree.Proofs.Stream.Accepting
import CommandTree.Proofs.Stream.Sequence

/-!
# Which token a failing reading points at

A reading that takes words may fail before it has seen all words that are there. `Reading.Pinpoints`
says that it fails neither too late nor too early: the words that it took before the token at which
it fails can be carried on to words of its description, and with that token they cannot. The reading
may have taken the token, or only have looked at it.

A reading that succeeds stops as late as it can, in front of a token that does not carry its words
on. What is read behind it is therefore not to blame for a word that it could have taken.

`Reading.PinpointsBehind` is about what goes on behind a word. Either it goes on reading, or it
refuses the word at once.
-/

set_option autoImplicit false

namespace CommandTree.Reading

variable {α β : Type} {P Q : (words : List String) → α → Prop} {words : List String}

/-- The words can be carried on to words of the description. -/
def Extends (P : (words : List String) → α → Prop) (words : List String) : Prop :=
  ∃ more a, P (words ++ more) a

/-- A token may stand behind the words: a word that carries them on, or any other token if they are
words of the description already. -/
def Admits (P : (words : List String) → α → Prop) (words : List String) : Token → Prop
  | .word text => Extends P (words ++ [text])
  | _ => ∃ a, P words a

/-- Words of the description stand between two streams, and behind them no word that carries them
on. -/
def TakesAll (P : (words : List String) → α → Prop) (s s' : TokenStream) (a : α) : Prop :=
  ∃ taken words, s.sequence = taken ++ s'.sequence ∧ taken.map Located.value = words.map .word ∧
    P words a ∧ ∀ t rest, s'.sequence = t :: rest → t.value.isWord = true → ¬ Admits P words t.value

/-- A diagnostic about a type points at the first token of a stream that may not stand behind the
words before it. -/
def PointsAtFirst (P : (words : List String) → α → Prop) (s : TokenStream) (d : Diagnostic) :
    Prop :=
  d.kind = .typing ∧ ∃ taken words t rest, s.sequence = taken ++ t :: rest ∧
    taken.map Located.value = words.map .word ∧ d.span = some t.span ∧
    Extends P words ∧ ¬ Admits P words t.value

/-- The reading takes all words that it can, and where it fails, other than for characters that form
no token, it points at the first token that it could not take. -/
structure Pinpoints (m : Reading Diagnostic α) (P : (words : List String) → α → Prop) : Prop where
  /-- A reading that succeeds took words of the description, and as many as it could. -/
  takesAll : ∀ {s s' : TokenStream} {a : α}, m s = (.ok a, s') → TakesAll P s s' a
  /-- A reading that fails points at the first token that it could not take. -/
  pointsAtFirst : ∀ {s s' : TokenStream} {d : Diagnostic}, m s = (.error d, s') →
    d.kind ≠ .lexical → PointsAtFirst P s d

/-- What goes on behind a word pinpoints as well, or refuses the word. -/
inductive PinpointsBehind (word : Located String) (m : Reading Diagnostic α)
    (P : (words : List String) → α → Prop) : Prop where
  /-- The words behind the word are read. -/
  | goesOn : m.Pinpoints (fun words a => P (word.value :: words) a) → PinpointsBehind word m P
  /-- The word cannot be carried on. -/
  | refuses (problem : Problem) : problem.kind = .typing →
    m = Reading.fail (.atSpan problem word.span) → ¬ Extends P [word.value] →
    PinpointsBehind word m P

/-- A token that is no word may stand behind words that are complete. -/
theorem admits_of_not_isWord {t : Token} (ht : t.isWord = false) :
    Admits P words t ↔ ∃ a, P words a := by
  cases t with
  | word => simp [Token.isWord] at ht
  | _ => exact Iff.rfl

/-- A token may stand behind the words that follow a first one if it may stand behind all of
them. -/
theorem admits_cons_iff (word : String) (t : Token) :
    Admits (fun words a => P (word :: words) a) words t ↔ Admits P (word :: words) t := by
  cases t <;> exact Iff.rfl

section

variable {word : Located String} {s q s' : TokenStream} {a : α} {d : Diagnostic}
  {m : Reading Diagnostic α}

/-- Where no word is next, no words are all that can be taken. -/
theorem TakesAll.of_nextWord?_none (h : s.nextWord? = (.ok none, s')) (ha : P [] a) :
    TakesAll P s s' a := by
  obtain ⟨hsequence, first, others, hfirst, hother⟩ := TokenStream.sequence_of_nextWord?_none h
  refine ⟨[], [], hsequence, rfl, ha, ?_⟩
  intro t rest hrest ht
  obtain ⟨rfl, -⟩ := List.cons.inj (hfirst.symm.trans hrest)
  rw [hother] at ht
  contradiction

/-- Taking all words behind a first one takes all words. -/
theorem TakesAll.behind
    (hsequence : s.sequence = ⟨.word word.value, word.span⟩ :: q.sequence)
    (h : TakesAll (fun words a => P (word.value :: words) a) q s' a) : TakesAll P s s' a := by
  obtain ⟨taken, words, hq, hvalues, ha, hlast⟩ := h
  refine ⟨⟨.word word.value, word.span⟩ :: taken, word.value :: words, ?_, ?_, ha, ?_⟩
  · rw [hsequence, hq, List.cons_append]
  · rw [List.map_cons, List.map_cons, hvalues]
  · intro t rest hrest ht
    rw [← admits_cons_iff]
    exact hlast t rest hrest ht

/-- A failure behind a first word points at the token that may not stand behind all of them. -/
theorem PointsAtFirst.behind
    (hsequence : s.sequence = ⟨.word word.value, word.span⟩ :: q.sequence)
    (h : PointsAtFirst (fun words a => P (word.value :: words) a) q d) : PointsAtFirst P s d := by
  obtain ⟨hkind, taken, words, t, rest, hq, hvalues, hspan, ⟨more, a, ha⟩, hrefused⟩ := h
  rw [admits_cons_iff] at hrefused
  refine ⟨hkind, ⟨.word word.value, word.span⟩ :: taken, word.value :: words, t, rest, ?_, ?_,
    hspan, ⟨more, a, ha⟩, hrefused⟩
  · rw [hsequence, hq, List.cons_append]
  · rw [List.map_cons, List.map_cons, hvalues]

/-- A failure at the first token of a stream, where words could still come but not this token. -/
theorem PointsAtFirst.at_next {t : Located Token} {rest : List (Located Token)} {problem : Problem}
    (hkind : problem.kind = .typing) (hsequence : s.sequence = t :: rest) (hviable : Extends P [])
    (hrefused : ¬ Admits P [] t.value)
    (hm : (Reading.fail (.atSpan problem t.span) : Reading Diagnostic α) q = (.error d, s')) :
    PointsAtFirst P s d := by
  obtain ⟨rfl, rfl⟩ := fail_eq_error hm
  exact ⟨hkind, [], [], t, rest, hsequence, rfl, rfl, hviable, hrefused⟩

/-- What goes on behind a word takes all words with it. -/
theorem PinpointsBehind.takesAll (h : PinpointsBehind word m P)
    (hsequence : s.sequence = ⟨.word word.value, word.span⟩ :: q.sequence)
    (hm : m q = (.ok a, s')) : TakesAll P s s' a := by
  cases h with
  | goesOn h => exact (h.takesAll hm).behind hsequence
  | refuses problem _ hfails =>
    rw [hfails] at hm
    exact absurd hm fail_ne_ok

/-- What goes on behind a word points at the token that may not stand there, the word included. -/
theorem PinpointsBehind.pointsAtFirst (h : PinpointsBehind word m P) (hviable : Extends P [])
    (hsequence : s.sequence = ⟨.word word.value, word.span⟩ :: q.sequence)
    (hm : m q = (.error d, s')) (hkind : d.kind ≠ .lexical) : PointsAtFirst P s d := by
  cases h with
  | goesOn h => exact (h.pointsAtFirst hm hkind).behind hsequence
  | refuses problem hproblem hfails hrefused =>
    rw [hfails] at hm
    exact .at_next hproblem hsequence hviable hrefused hm

/-- Going on with a result that is there already, or failing at the word as it did. -/
theorem PinpointsBehind.ofExcept_bind {x : Except Diagnostic β} {f : β → Reading Diagnostic α}
    (hok : ∀ b, x = .ok b → PinpointsBehind word (f b) P)
    (herror : ∀ d, x = .error d →
      (∃ problem : Problem, d = .atSpan problem word.span ∧ problem.kind = .typing) ∧
        ¬ Extends P [word.value]) :
    PinpointsBehind word (Reading.ofExcept x >>= f) P := by
  cases x with
  | error d =>
    obtain ⟨⟨problem, rfl, hproblem⟩, hrefused⟩ := herror d rfl
    exact .refuses problem hproblem rfl hrefused
  | ok b => exact hok b rfl

end

namespace Pinpoints

/-- What a reading pinpoints may be described in another way. -/
theorem congr {m : Reading Diagnostic α} (h : m.Pinpoints P)
    (hPQ : ∀ words a, P words a ↔ Q words a) : m.Pinpoints Q := by
  have hPQ : P = Q := funext fun words => funext fun a => propext (hPQ words a)
  exact hPQ ▸ h

/-- Stopping where no word can be taken. -/
theorem pure {a : α} (ha : P [] a) (hend : ∀ word words b, ¬ P (word :: words) b) :
    (Pure.pure a : Reading Diagnostic α).Pinpoints P := by
  constructor
  · intro s s' b h
    obtain ⟨rfl, rfl⟩ := pure_eq_ok h
    refine ⟨[], [], rfl, rfl, ha, fun t rest _ ht hadmits => ?_⟩
    obtain ⟨text, htext⟩ := t.value.isWord_iff.mp ht
    rw [htext] at hadmits
    obtain ⟨more, b, hb⟩ := hadmits
    exact hend _ _ _ hb
  · intro s s' d h
    exact absurd h pure_ne_error

/-- Using the result of a reading does not change what it pinpoints. -/
theorem map {m : Reading Diagnostic α} (f : α → β) (h : m.Pinpoints P) :
    (m >>= fun a => Pure.pure (f a)).Pinpoints fun words b => ∃ a, P words a ∧ b = f a := by
  -- the results differ, the words that lead to some result do not
  have hextends : ∀ words, Extends (fun words b => ∃ a, P words a ∧ b = f a) words ↔
      Extends P words := by
    intro words
    constructor
    · rintro ⟨more, -, a, ha, -⟩
      exact ⟨more, a, ha⟩
    · rintro ⟨more, a, ha⟩
      exact ⟨more, f a, a, ha, rfl⟩
  have hadmits : ∀ words t, Admits (fun words b => ∃ a, P words a ∧ b = f a) words t ↔
      Admits P words t := by
    intro words t
    cases t with
    | word text => exact hextends _
    | _ => exact ⟨fun ⟨_, a, ha, _⟩ => ⟨a, ha⟩, fun ⟨a, ha⟩ => ⟨f a, a, ha, rfl⟩⟩
  constructor
  · intro s s' b hb
    obtain ⟨a, q, hm, heq⟩ := bind_eq_ok hb
    obtain ⟨rfl, rfl⟩ := pure_eq_ok heq
    obtain ⟨taken, words, hsequence, hvalues, ha, hlast⟩ := h.takesAll hm
    refine ⟨taken, words, hsequence, hvalues, ⟨a, ha, rfl⟩, fun t rest hrest ht => ?_⟩
    rw [hadmits]
    exact hlast t rest hrest ht
  · intro s s' d hd hkind
    obtain hm | ⟨a, q, -, heq⟩ := bind_eq_error hd
    · obtain ⟨htyping, taken, words, t, rest, hsequence, hvalues, hspan, hviable, hrefused⟩ :=
        h.pointsAtFirst hm hkind
      rw [← hextends] at hviable
      rw [← hadmits] at hrefused
      exact ⟨htyping, taken, words, t, rest, hsequence, hvalues, hspan, hviable, hrefused⟩
    · exact absurd heq pure_ne_error

/-- Taking the next word, if there is one, and going on. Where there is none, the words are complete
or the token in their way is looked at and refused. -/
theorem nextWord? {f : Option (Located String) → Reading Diagnostic α} (hviable : Extends P [])
    (hnone : (∃ a, f none = Pure.pure a ∧ P [] a) ∨
      (∀ a, ¬ P [] a) ∧ ∃ problem : Token → Problem, (∀ t, (problem t).kind = .typing) ∧
        f none = do
          let token ← Reading.peek
          Reading.fail (.atSpan (problem token.value) token.span))
    (hsome : ∀ word, PinpointsBehind word (f (some word)) P) :
    (Reading.nextWord? >>= f).Pinpoints P := by
  constructor
  · intro s s' a h
    obtain ⟨word, q, hword, hf⟩ := bind_eq_ok h
    cases word with
    | some word => exact (hsome word).takesAll (TokenStream.sequence_of_nextWord? hword) hf
    | none =>
      obtain ⟨b, hpure, hb⟩ | ⟨-, problem, -, hfails⟩ := hnone
      · rw [hpure] at hf
        obtain ⟨rfl, rfl⟩ := pure_eq_ok hf
        exact .of_nextWord?_none hword hb
      · rw [hfails] at hf
        obtain ⟨token, q', -, hf⟩ := bind_eq_ok hf
        exact absurd hf fail_ne_ok
  · intro s s' d h hkind
    obtain hword | ⟨word, q, hword, hf⟩ := bind_eq_error h
    · exact absurd (TokenStream.kind_of_nextWord? hword) hkind
    cases word with
    | some word =>
      have hsequence := TokenStream.sequence_of_nextWord? hword
      exact (hsome word).pointsAtFirst hviable hsequence hf hkind
    | none =>
      obtain ⟨b, hpure, -⟩ | ⟨hempty, problem, hproblem, hfails⟩ := hnone
      · rw [hpure] at hf
        exact absurd hf pure_ne_error
      · rw [hfails] at hf
        obtain hpeek | ⟨token, q', hpeek, hf⟩ := bind_eq_error hf
        · exact absurd (TokenStream.kind_of_peek hpeek) hkind
        -- the token that is looked at is the one that was no word
        obtain ⟨hsequence, first, others, hfirst, hother⟩ :=
          TokenStream.sequence_of_nextWord?_none hword
        obtain ⟨rest, hrest⟩ := TokenStream.exists_sequence_of_peek hpeek
        obtain ⟨rfl, -⟩ := List.cons.inj (hfirst.symm.trans hrest)
        refine .at_next (hproblem _) (hsequence.trans hfirst) hviable ?_ hf
        rw [admits_of_not_isWord hother]
        exact fun ⟨a, ha⟩ => hempty a ha

/-- Taking a token that has to be a word and going on. -/
theorem next {f : Located Token → Reading Diagnostic α} (hviable : Extends P [])
    (hempty : ∀ a, ¬ P [] a)
    (hother : ∀ t : Located Token, t.value.isWord = false →
      ∃ problem : Problem, problem.kind = .typing ∧ f t = Reading.fail (.atSpan problem t.span))
    (hword : ∀ text span, PinpointsBehind ⟨text, span⟩ (f ⟨.word text, span⟩) P) :
    (Reading.next >>= f).Pinpoints P := by
  constructor
  · intro s s' a h
    obtain ⟨⟨value, span⟩, q, hnext, hf⟩ := bind_eq_ok h
    cases ht : value.isWord with
    | false =>
      obtain ⟨problem, -, hfails⟩ := hother ⟨value, span⟩ ht
      rw [hfails] at hf
      exact absurd hf fail_ne_ok
    | true =>
      obtain ⟨text, rfl⟩ := value.isWord_iff.mp ht
      have hsequence := TokenStream.sequence_of_next hnext (by simp)
      exact (hword text span).takesAll hsequence hf
  · intro s s' d h hkind
    obtain hnext | ⟨⟨value, span⟩, q, hnext, hf⟩ := bind_eq_error h
    · exact absurd (TokenStream.kind_of_next hnext) hkind
    cases ht : value.isWord with
    | false =>
      obtain ⟨problem, hproblem, hfails⟩ := hother ⟨value, span⟩ ht
      rw [hfails] at hf
      obtain ⟨rest, hrest⟩ := TokenStream.exists_sequence_of_next hnext
      refine .at_next hproblem hrest hviable ?_ hf
      rw [admits_of_not_isWord ht]
      exact fun ⟨a, ha⟩ => hempty a ha
    | true =>
      obtain ⟨text, rfl⟩ := value.isWord_iff.mp ht
      have hsequence := TokenStream.sequence_of_next hnext (by simp)
      exact (hword text span).pointsAtFirst hviable hsequence hf hkind

/-- Taking a word that has to be a keyword for something. -/
theorem keyword {ofKeyword? : String → Option β} {keyword : β → String} (first : β)
    (hkeyword : ∀ b, ofKeyword? (keyword b) = some b)
    (hword : ∀ {text b}, ofKeyword? text = some b → keyword b = text)
    {f : Located Token → Reading Diagnostic α} (result : β → α)
    (hother : ∀ t : Located Token, t.value.isWord = false →
      ∃ problem : Problem, problem.kind = .typing ∧ f t = Reading.fail (.atSpan problem t.span))
    (hknown : ∀ text span b, ofKeyword? text = some b →
      f ⟨.word text, span⟩ = Pure.pure (result b))
    (hunknown : ∀ text span, ofKeyword? text = none →
      ∃ problem : Problem, problem.kind = .typing ∧
        f ⟨.word text, span⟩ = Reading.fail (.atSpan problem span)) :
    (Reading.next >>= f).Pinpoints fun words a => ∃ b, words = [keyword b] ∧ a = result b := by
  apply next ⟨_, _, first, rfl, rfl⟩
  · rintro a ⟨b, h, -⟩
    contradiction
  · exact hother
  · intro text span
    cases htext : ofKeyword? text with
    | some b =>
      rw [hknown text span b htext]
      apply PinpointsBehind.goesOn
      apply pure
      · exact ⟨b, by rw [hword htext], rfl⟩
      · rintro word words a ⟨b', h, -⟩
        simp at h
    | none =>
      obtain ⟨problem, hkind, hfails⟩ := hunknown text span htext
      refine .refuses problem hkind hfails ?_
      rintro ⟨more, a, b, h, -⟩
      obtain ⟨heq, -⟩ := List.cons.inj h
      have hsome := hkeyword b
      rw [← heq, htext] at hsome
      contradiction

end Pinpoints

end CommandTree.Reading
