import CommandTree.Proofs.Diagnostics.Blame
import CommandTree.Proofs.Grammar.AcceptedPhrases
import CommandTree.Proofs.Grammar.TypeFailures

/-!
# Where reading a tree fails

Each part of the parser blames the token at which it fails for the lists that may follow where the
part begins, for instance the rest of a scope behind the children that were read already. What is to
blame for a part is then to blame for the parts around it.

For the body of a node this holds only because the words of a type are taken as far as possible:
otherwise the first token of the body could have been one word more.

The root is the exception. Where a word follows its name, the diagnostic points at the name, while
the token to blame is the word.
-/

set_option autoImplicit false

namespace CommandTree

open Phrase (BehindName BehindHead BehindChildren WholeFile)

namespace Tree

variable {registry : Registry} {settings : Settings}

/-! ## Types -/

/-- A list behind a name that starts with certain words admits the token behind them, and if this is
no word, goes on there as behind a head. -/
theorem admits_of_behindName {defaultSpace : String} {words : List String} {t : Token}
    {us rest more : List Token} (h : BehindName registry defaultSpace us)
    (heq : us ++ rest = words.map .word ++ t :: more) :
    Reading.Admits (registry.Types defaultSpace) words t ∧
      (t.isWord = false → ∃ vs, BehindHead registry defaultSpace vs ∧ vs ++ rest = t :: more) := by
  obtain ⟨words', type, body, htypes, hbody, rfl⟩ := h
  obtain ⟨first, others, rfl, hfirst⟩ := hbody.eq_cons
  rw [List.append_assoc] at heq
  -- a body starts with no word, so a word belongs to the type and anything else starts the body
  cases ht : t.isWord with
  | true =>
    refine ⟨?_, nofun⟩
    obtain ⟨text, rfl⟩ := t.isWord_iff.mp ht
    have heq : words'.map Token.word ++ first :: (others ++ rest) =
        (words ++ [text]).map .word ++ more := by simpa using heq
    obtain ⟨others', rfl⟩ := Phrase.prefix_of_words_append hfirst heq
    exact ⟨others', type, htypes⟩
  | false =>
    obtain ⟨rfl, rfl, rfl⟩ := Phrase.words_append_inj hfirst ht heq
    exact ⟨(Reading.admits_of_not_isWord ht).mpr ⟨type, htypes⟩, fun _ => ⟨_, hbody, rfl⟩⟩

/-- A failure in the type of a node blames the first token with which no type can be reached. -/
theorem blames_of_takeType (hready : registry.ReadyMade) {s s' : TokenStream} {d : Diagnostic}
    (h : takeType registry settings s = (.error d, s')) (hkind : d.kind ≠ .lexical) :
    d.Blames (BehindName registry settings.defaultSpace) s.sequence := by
  obtain ⟨htyping, taken, words, t, rest, hsequence, hvalues, hspan, ⟨more, type, htypes⟩,
    hrefused⟩ := (pinpoints_takeType hready settings).pointsAtFirst h hkind
  refine ⟨fun name hname => ?_, taken, t, rest, hsequence, hspan, ?_, ?_⟩
  · rw [Diagnostic.kind, hname] at htyping
    contradiction
  · refine ⟨more.map .word ++ [.terminator], words ++ more, type, _, htypes, Or.inl rfl, ?_⟩
    rw [hvalues, List.map_append, List.append_assoc]
  · rintro ⟨us, rest', more, hus, heq⟩
    rw [hvalues, List.append_assoc, List.singleton_append] at heq
    exact hrefused (admits_of_behindName hus heq).1

/-- A head that is read is a name and the words of a type, behind which no other word can be taken.
-/
theorem takesAll_of_takeHead (hready : registry.ReadyMade) {s s' : TokenStream} {head : Head}
    (h : takeHead registry settings s = (.ok head, s')) :
    ∃ q : TokenStream, s.sequence = ⟨.word head.name.value, head.name.span⟩ :: q.sequence ∧
      Reading.TakesAll (registry.Types settings.defaultSpace) q s' head.type := by
  rw [takeHead_eq] at h
  obtain ⟨name, q, hname, h⟩ := Reading.bind_eq_ok h
  obtain ⟨type, q', htype, h⟩ := Reading.bind_eq_ok h
  obtain ⟨rfl, rfl⟩ := Reading.pure_eq_ok h
  exact ⟨q, TokenStream.sequence_of_next (next_of_takeName hname) (by simp),
    (pinpoints_takeType hready settings).takesAll htype⟩

/-! ## What bodies and scopes take -/

/-- A head and what follows it are the tokens of an accepted phrase. -/
theorem exists_phrase_of_takeHead (hready : registry.ReadyMade) {s s₁ s₂ : TokenStream}
    {head : Head} (hhead : takeHead registry settings s = (.ok head, s₁))
    (hbody : ∃ taken, s₁.sequence = taken ++ s₂.sequence ∧
      BehindHead registry settings.defaultSpace (taken.map Located.value)) :
    ∃ (p : Phrase) (taken : List (Located Token)), p.Accepted registry settings.defaultSpace ∧
      p.name = head.name.value ∧ taken.map Located.value = p.tokens ∧
      s.sequence = taken ++ s₂.sequence := by
  obtain ⟨q, hname, inner, words, hinner, hvalues, htypes, -⟩ := takesAll_of_takeHead hready hhead
  obtain ⟨taken, hs₁, hbehind⟩ := hbody
  obtain ⟨p, hp, hpname, -, htokens⟩ := hbehind.exists_phrase head.name.value htypes
  refine ⟨p, ⟨.word head.name.value, head.name.span⟩ :: (inner ++ taken), hp, hpname, ?_, ?_⟩
  · rw [htokens, List.map_cons, List.map_append, hvalues]
  · rw [hname, hinner, hs₁, List.cons_append, List.append_assoc]

mutual

/-- A body that is taken consists of tokens that may follow the words of the type. -/
theorem takes_of_takeBody (hready : registry.ReadyMade) (hunlimited : settings.maxDepth = none)
    {level : Nat} {head : Head} {s s' : TokenStream} {t : Tree}
    (h : takeBody registry settings level head s = (.ok t, s')) :
    ∃ taken, s.sequence = taken ++ s'.sequence ∧
      BehindHead registry settings.defaultSpace (taken.map Located.value) := by
  rw [takeBody_eq head (by simp [hunlimited])] at h
  obtain ⟨⟨value, span⟩, q, hnext, h⟩ := Reading.bind_eq_ok h
  cases value with
  | terminator =>
    obtain ⟨-, rfl⟩ := Reading.pure_eq_ok h
    have hsequence := TokenStream.sequence_of_next hnext (by simp)
    exact ⟨[⟨.terminator, span⟩], hsequence, Or.inl rfl⟩
  | openScope =>
    have hlt := TokenStream.size_next_lt hnext (by simp)
    have hsequence := TokenStream.sequence_of_next hnext (by simp)
    obtain ⟨children, q', hchildren, h⟩ := Reading.bind_eq_ok h
    obtain ⟨-, rfl⟩ := Reading.pure_eq_ok h
    obtain ⟨taken, hq, hbehind⟩ := takes_of_takeChildren hready hunlimited hchildren
    refine ⟨⟨.openScope, span⟩ :: taken, ?_, Or.inr ⟨_, hbehind, rfl⟩⟩
    rw [hsequence, hq, List.cons_append]
  | _ => exact absurd h Reading.fail_ne_ok
termination_by s.size
decreasing_by exact hlt

/-- The children that are taken consist of tokens that may follow in the scope. -/
theorem takes_of_takeChildren (hready : registry.ReadyMade) (hunlimited : settings.maxDepth = none)
    {level : Nat} {parent : String} {opening : Span} {seen : Seen} {read ts : List Tree}
    {s s' : TokenStream}
    (h : takeChildren registry settings level parent opening seen read s = (.ok ts, s')) :
    ∃ taken, s.sequence = taken ++ s'.sequence ∧
      BehindChildren registry settings.defaultSpace seen (taken.map Located.value) := by
  rw [takeChildren_eq] at h
  obtain ⟨token, q, hpeek, h⟩ := Reading.bind_eq_ok h
  have hle := TokenStream.size_le_of_reaches (TokenStream.Reaches.peek_of_eq hpeek)
  rw [TokenStream.sequence_of_peek hpeek]
  split at h
  · rename_i hclose
    obtain ⟨t, q', hnext, h⟩ := Reading.bind_eq_ok h
    obtain ⟨-, rfl⟩ := Reading.pure_eq_ok h
    have hsame := TokenStream.next_of_peeked (TokenStream.peeked_of_peek hpeek)
    cases hsame.symm.trans hnext
    have hsequence := TokenStream.sequence_of_next hnext (by simp [hclose])
    refine ⟨[token], hsequence, [], trivial, List.nodup_nil, nofun, ?_⟩
    rw [List.map_singleton, hclose]
    rfl
  · cases hproblem : childProblem parent opening seen token.value with
    | some problem =>
      rw [hproblem] at h
      exact absurd h Reading.fail_ne_ok
    | none =>
      rw [hproblem] at h
      obtain ⟨head, s₁, hhead, h⟩ := Reading.bind_eq_ok h
      obtain ⟨child, s₂, hbody, h⟩ := Reading.bind_eq_ok h
      have hlt₁ := Nat.lt_of_lt_of_le (size_takeHead_lt hhead) hle
      have hlt₂ := Nat.lt_trans (size_takeBody_lt hbody) hlt₁
      have htaken := takes_of_takeBody hready hunlimited hbody
      obtain ⟨p, taken, hp, hname, hvalues, hq⟩ := exists_phrase_of_takeHead hready hhead htaken
      obtain ⟨others, hs₂, hbehind⟩ := takes_of_takeChildren hready hunlimited h
      obtain rfl := eq_name_of_takeHead hpeek hhead
      rw [childProblem_word_eq_none_iff, ← hname] at hproblem
      rw [noteChild, ← hname] at hbehind
      refine ⟨taken ++ others, ?_, ?_⟩
      · rw [hq, hs₂, List.append_assoc]
      · rw [List.map_append, hvalues]
        exact hbehind.cons hp hproblem
termination_by s.size
decreasing_by
  · exact hlt₁
  · exact hlt₂

end

/-! ## Where bodies and scopes fail -/

/-- In a scope a child of a new name may stand, with anything that may follow its name. -/
theorem viable_behind_name {defaultSpace name : String} {seen : Seen} {us : List Token}
    (hfresh : seen.lookup name = none) (h : BehindName registry defaultSpace us) :
    Viable (BehindChildren registry defaultSpace seen) (.word name :: us) := by
  obtain ⟨words, type, body, htypes, hbody, rfl⟩ := h
  obtain ⟨p, hp, rfl, -, htokens⟩ := hbody.exists_phrase name htypes
  have hclose : BehindChildren registry defaultSpace ((p.name, ⟨0, 0, 0⟩) :: seen) [.closeScope] :=
    ⟨[], trivial, List.nodup_nil, nofun, rfl⟩
  have hscope := hclose.cons hp hfresh
  rw [htokens] at hscope
  exact ⟨[.closeScope], hscope⟩

/-- A scope goes on behind the name of a child as anything may that follows a name. -/
theorem meets_behind_name {defaultSpace name : String} {seen : Seen} {us rest more : List Token}
    (h : BehindChildren registry defaultSpace seen us) (heq : us ++ rest = .word name :: more) :
    ∃ vs rest', BehindName registry defaultSpace vs ∧ vs ++ rest' = more := by
  obtain ⟨-, p, others, hp, rfl, -, rfl⟩ := h.exists_child heq ⟨0, 0, 0⟩
  obtain ⟨type, htypes⟩ := hp.types
  have heq : Token.word p.name :: (p.words.map .word ++ p.body ++ (others ++ rest)) =
      .word p.name :: more := by simpa [Phrase.tokens_eq] using heq
  obtain ⟨-, hmore⟩ := List.cons.inj heq
  exact ⟨_, others ++ rest, ⟨p.words, type, _, htypes, hp.behindHead, rfl⟩, hmore⟩

/-- A scope goes on behind a child as if the name of the child had been seen. -/
theorem meets_behind_child {defaultSpace : String} {seen : Seen} {p : Phrase} (span : Span)
    {us rest more : List Token} (h : BehindChildren registry defaultSpace seen us)
    (heq : us ++ rest = p.tokens ++ more) :
    ∃ vs, BehindChildren registry defaultSpace ((p.name, span) :: seen) vs ∧ vs ++ rest = more := by
  have hword : us ++ rest = .word p.name :: (p.words.map .word ++ p.body ++ more) := by
    rw [heq, Phrase.tokens_eq, List.cons_append]
  obtain ⟨-, q, others, -, -, hothers, rfl⟩ := h.exists_child hword span
  rw [List.append_assoc] at heq
  obtain ⟨-, hmore⟩ := Phrase.tokens_append_inj heq
  exact ⟨others, hothers, hmore⟩

section

variable {defaultSpace : String} {seen : Seen} {before behind : List (Located Token)}
  {d : Diagnostic}

/-- In a scope a token is to blame that neither closes it nor is a new name. -/
theorem blames_in_scope {t : Located Token} {problem : Problem}
    (hproblem : ∀ name, problem ≠ .argumentAtRoot name) (hbefore : before = t :: behind)
    (hclose : t.value ≠ .closeScope)
    (hname : ∀ name, t.value = .word name → seen.lookup name ≠ none) :
    (Diagnostic.atSpan problem t.span).Blames (BehindChildren registry defaultSpace seen)
      before := by
  refine .at_next hproblem hbefore ⟨_, [], trivial, List.nodup_nil, nofun, rfl⟩ ?_
  intro us rest more hus heq
  obtain ⟨first, others, hcons, hfirst⟩ := hus.eq_cons
  rw [hcons] at heq
  obtain rfl := List.head_eq_of_cons_eq heq
  obtain hfirst | ⟨name, hfirst⟩ := hfirst
  · exact hclose hfirst
  · rw [← hcons, hfirst] at heq
    exact hname name hfirst (hus.exists_child heq ⟨0, 0, 0⟩).1

/-- What is to blame behind the name of a new child is to blame in the scope. -/
theorem blames_behind_name {name : String} {span : Span} (hfresh : seen.lookup name = none)
    (hbefore : before = ⟨.word name, span⟩ :: behind)
    (h : d.Blames (BehindName registry defaultSpace) behind) :
    d.Blames (BehindChildren registry defaultSpace seen) before := by
  have hbefore : before = [⟨.word name, span⟩] ++ behind := hbefore
  apply h.behind hbefore
  · intro us hus
    exact viable_behind_name hfresh hus
  · intro t others us rest more _ hus heq
    exact meets_behind_name hus heq

/-- Behind a head no word carries its type on, so the next token starts a body. -/
theorem blames_behind_head {q s : TokenStream} {type : Option ArgType}
    (htakes : Reading.TakesAll (registry.Types defaultSpace) q s type)
    (h : d.Blames (BehindHead registry defaultSpace) s.sequence) :
    d.Blames (BehindName registry defaultSpace) q.sequence := by
  obtain ⟨taken, words, hsequence, hvalues, htypes, hlast⟩ := htakes
  apply h.behind hsequence
  · intro us hus
    refine ⟨[], words, type, us, htypes, hus, ?_⟩
    rw [hvalues, List.append_nil]
  · intro t others us rest more hothers hus heq
    rw [hvalues] at heq
    obtain ⟨hadmits, hbody⟩ := admits_of_behindName hus heq
    cases hword : t.value.isWord with
    | true =>
      -- such a word would have been taken with the type
      exact absurd hadmits (hlast t others hothers hword)
    | false =>
      obtain ⟨vs, hvs, hmore⟩ := hbody hword
      exact ⟨vs, rest, hvs, hmore⟩

/-- What is to blame behind a complete child is to blame in the scope. -/
theorem blames_behind_child {p : Phrase} {taken : List (Located Token)} {span : Span}
    (hp : p.Accepted registry defaultSpace) (hfresh : seen.lookup p.name = none)
    (hvalues : taken.map Located.value = p.tokens) (hbefore : before = taken ++ behind)
    (h : d.Blames (BehindChildren registry defaultSpace ((p.name, span) :: seen)) behind) :
    d.Blames (BehindChildren registry defaultSpace seen) before := by
  apply h.behind hbefore
  · intro us hus
    refine ⟨[], ?_⟩
    rw [hvalues, List.append_nil]
    exact hus.cons hp hfresh
  · intro t others us rest more _ hus heq
    rw [hvalues] at heq
    obtain ⟨vs, hvs, hmore⟩ := meets_behind_child span hus heq
    exact ⟨vs, rest, hvs, hmore⟩

end

/-- A failure in the head of a child blames a token of the scope. -/
theorem blames_of_takeHead (hready : registry.ReadyMade) {seen : Seen} {s q s' : TokenStream}
    {d : Diagnostic} {token : Located Token} (hnext : s.next = (.ok token, q))
    (hclose : token.value ≠ .closeScope)
    (hfresh : ∀ name, token.value = .word name → seen.lookup name = none)
    (h : takeHead registry settings s = (.error d, s')) (hkind : d.kind ≠ .lexical) :
    d.Blames (BehindChildren registry settings.defaultSpace seen) s.sequence := by
  rw [takeHead_eq] at h
  obtain hname | ⟨name, q', hname, h⟩ := Reading.bind_eq_error h
  · rw [takeName_eq] at hname
    obtain hnext' | ⟨⟨value, span⟩, q', hnext', hname⟩ := Reading.bind_eq_error hname
    · exact absurd (TokenStream.kind_of_next hnext') hkind
    obtain ⟨rest, hsequence⟩ := TokenStream.exists_sequence_of_next hnext
    cases hnext.symm.trans hnext'
    cases value with
    | word => exact absurd hname Reading.pure_ne_error
    | _ =>
      obtain ⟨rfl, rfl⟩ := Reading.fail_eq_error hname
      exact blames_in_scope nofun hsequence hclose nofun
  · obtain htype | ⟨type, q'', htype, h⟩ := Reading.bind_eq_error h
    · have hword := next_of_takeName hname
      cases hnext.symm.trans hword
      have hsequence := TokenStream.sequence_of_next hword (by simp)
      exact blames_behind_name (hfresh _ rfl) hsequence (blames_of_takeType hready htype hkind)
    · exact absurd h Reading.pure_ne_error

/-- A problem with a child is never that of an argument at the root. -/
theorem ne_of_childProblem {parent : String} {opening : Span} {seen : Seen} {token : Token}
    {problem : Problem} (h : childProblem parent opening seen token = some problem)
    (name : String) : problem ≠ .argumentAtRoot name := by
  rintro rfl
  cases token with
  | word text => simp [childProblem] at h
  | endOfInput => simp [childProblem] at h
  | _ => contradiction

mutual

/-- A failure in the body of a node blames the first token that may not follow there. -/
theorem blames_of_takeBody (hready : registry.ReadyMade) (hunlimited : settings.maxDepth = none)
    {level : Nat} {head : Head} {s s' : TokenStream} {d : Diagnostic}
    (h : takeBody registry settings level head s = (.error d, s')) (hkind : d.kind ≠ .lexical) :
    d.Blames (BehindHead registry settings.defaultSpace) s.sequence := by
  rw [takeBody_eq head (by simp [hunlimited])] at h
  obtain hnext | ⟨⟨value, span⟩, q, hnext, h⟩ := Reading.bind_eq_error h
  · exact absurd (TokenStream.kind_of_next hnext) hkind
  cases value with
  | terminator => exact absurd h Reading.pure_ne_error
  | openScope =>
    have hlt := TokenStream.size_next_lt hnext (by simp)
    have hsequence : s.sequence = [⟨.openScope, span⟩] ++ q.sequence :=
      TokenStream.sequence_of_next hnext (by simp)
    obtain hchildren | ⟨children, q', -, h⟩ := Reading.bind_eq_error h
    · apply (blames_of_takeChildren hready hunlimited hchildren hkind).behind hsequence
      · intro us hus
        exact ⟨[], Or.inr ⟨us, hus, List.append_nil _⟩⟩
      · rintro t others us rest more - (rfl | ⟨vs, hvs, rfl⟩) heq
        · exact absurd (List.head_eq_of_cons_eq heq) nofun
        · exact ⟨vs, rest, hvs, List.tail_eq_of_cons_eq heq⟩
    · exact absurd h Reading.pure_ne_error
  | _ =>
    obtain ⟨rfl, rfl⟩ := Reading.fail_eq_error h
    obtain ⟨rest, hsequence⟩ := TokenStream.exists_sequence_of_next hnext
    refine .at_next nofun hsequence ⟨_, Or.inl rfl⟩ ?_
    rintro us rest more (rfl | ⟨vs, -, rfl⟩) heq
    · exact absurd (List.head_eq_of_cons_eq heq) nofun
    · exact absurd (List.head_eq_of_cons_eq heq) nofun
termination_by s.size
decreasing_by exact hlt

/-- A failure among the children of a scope blames the first token that may not follow there. -/
theorem blames_of_takeChildren (hready : registry.ReadyMade) (hunlimited : settings.maxDepth = none)
    {level : Nat} {parent : String} {opening : Span} {seen : Seen} {read : List Tree}
    {s s' : TokenStream} {d : Diagnostic}
    (h : takeChildren registry settings level parent opening seen read s = (.error d, s'))
    (hkind : d.kind ≠ .lexical) :
    d.Blames (BehindChildren registry settings.defaultSpace seen) s.sequence := by
  rw [takeChildren_eq] at h
  obtain hpeek | ⟨token, q, hpeek, h⟩ := Reading.bind_eq_error h
  · exact absurd (TokenStream.kind_of_peek hpeek) hkind
  have hle := TokenStream.size_le_of_reaches (TokenStream.Reaches.peek_of_eq hpeek)
  obtain ⟨rest, hsequence⟩ := TokenStream.exists_sequence_of_peek hpeek
  split at h
  · obtain hnext | ⟨t, q', -, h⟩ := Reading.bind_eq_error h
    · exact absurd (TokenStream.kind_of_next hnext) hkind
    · exact absurd h Reading.pure_ne_error
  rename_i hclose
  cases hproblem : childProblem parent opening seen token.value with
  | some problem =>
    rw [hproblem] at h
    obtain ⟨rfl, rfl⟩ := Reading.fail_eq_error h
    refine blames_in_scope (ne_of_childProblem hproblem) hsequence hclose ?_
    intro name hname hfresh
    rw [hname, childProblem_word_eq_none_iff.mpr hfresh] at hproblem
    contradiction
  | none =>
    rw [hproblem] at h
    have hnext := TokenStream.next_of_peeked (TokenStream.peeked_of_peek hpeek)
    rw [TokenStream.sequence_of_peek hpeek]
    obtain hhead | ⟨head, s₁, hhead, h⟩ := Reading.bind_eq_error h
    · refine blames_of_takeHead hready hnext hclose ?_ hhead hkind
      intro name hname
      rwa [hname, childProblem_word_eq_none_iff] at hproblem
    obtain rfl := eq_name_of_takeHead hpeek hhead
    rw [childProblem_word_eq_none_iff] at hproblem
    have hlt₁ := Nat.lt_of_lt_of_le (size_takeHead_lt hhead) hle
    obtain hbody | ⟨child, s₂, hbody, h⟩ := Reading.bind_eq_error h
    · have hblames := blames_of_takeBody hready hunlimited hbody hkind
      obtain ⟨q', hname, htakes⟩ := takesAll_of_takeHead hready hhead
      exact blames_behind_name hproblem hname (blames_behind_head htakes hblames)
    · have hlt₂ := Nat.lt_trans (size_takeBody_lt hbody) hlt₁
      have hblames := blames_of_takeChildren hready hunlimited h hkind
      have htaken := takes_of_takeBody hready hunlimited hbody
      obtain ⟨p, taken, hp, hname, hvalues, hq⟩ := exists_phrase_of_takeHead hready hhead htaken
      -- the name that was compared is the name of the child that was read
      rw [← hname] at hproblem
      rw [noteChild, ← hname] at hblames
      exact blames_behind_child hp hproblem hvalues hq hblames
termination_by s.size
decreasing_by
  · exact hlt₁
  · exact hlt₂

end

/-! ## Whole files -/

/-- The tokens of a command file are a name, what may follow it and the end of input. -/
theorem exists_of_wholeFile {defaultSpace : String} {us rest ts : List Token}
    (h : WholeFile registry defaultSpace us) (heq : us ++ rest = ts) :
    ∃ name body, BehindHead registry defaultSpace body ∧
      ts = .word name :: (body ++ .endOfInput :: rest) := by
  obtain ⟨p, hp, hwords, rfl⟩ := h
  refine ⟨p.name, p.body, hp.behindHead, ?_⟩
  rw [← heq, Phrase.tokens_eq, hwords]
  simp

/-- The name of a root and what may follow it can be carried on to a command file. -/
theorem viable_behind_root {defaultSpace : String} (name : String) {body : List Token}
    (h : BehindHead registry defaultSpace body) :
    Viable (WholeFile registry defaultSpace) (.word name :: body) := by
  obtain ⟨p, hp, -, hwords, htokens⟩ := h.exists_phrase name Registry.Types.literal
  refine ⟨[.endOfInput], p, hp, hwords, ?_⟩
  rw [htokens]
  rfl

/-- The root that is read is an accepted phrase without words. -/
theorem takes_of_takeRoot (hready : registry.ReadyMade) (hunlimited : settings.maxDepth = none)
    {s s' : TokenStream} {t : Tree} (h : takeRoot registry settings s = (.ok t, s')) :
    ∃ (p : Phrase) (taken : List (Located Token)), p.Accepted registry settings.defaultSpace ∧
      p.words = [] ∧ taken.map Located.value = p.tokens ∧ s.sequence = taken ++ s'.sequence := by
  rw [takeRoot_eq] at h
  obtain ⟨name, q, hname, h⟩ := Reading.bind_eq_ok h
  obtain ⟨token, q', hpeek, h⟩ := Reading.bind_eq_ok h
  split at h
  · exact absurd h Reading.fail_ne_ok
  · obtain ⟨taken, hq', hbehind⟩ := takes_of_takeBody hready hunlimited h
    obtain ⟨p, hp, -, hwords, htokens⟩ := hbehind.exists_phrase name.value Registry.Types.literal
    refine ⟨p, ⟨.word name.value, name.span⟩ :: taken, hp, hwords, ?_, ?_⟩
    · rw [htokens]
      rfl
    · rw [TokenStream.sequence_of_next (next_of_takeName hname) (by simp),
        TokenStream.sequence_of_peek hpeek, hq', List.cons_append]

/-- The name of the root is followed by a word. The diagnostic points at the name, and the word is
to blame. -/
def BlamesWordBehindRoot (P : List Token → Prop) (read : List (Located Token)) (d : Diagnostic) :
    Prop :=
  ∃ name t rest, read = name :: t :: rest ∧ d.span = some name.span ∧
    (∃ text, d.problem = .argumentAtRoot text) ∧ Viable P [name.value] ∧
    ¬ Meets P [name.value, t.value]

/-- A failure in a root blames the first token that cannot follow, or the word behind its name. -/
theorem blames_of_takeRoot (hready : registry.ReadyMade) (hunlimited : settings.maxDepth = none)
    {s s' : TokenStream} {d : Diagnostic} (h : takeRoot registry settings s = (.error d, s'))
    (hkind : d.kind ≠ .lexical) :
    d.Blames (WholeFile registry settings.defaultSpace) s.sequence ∨
      BlamesWordBehindRoot (WholeFile registry settings.defaultSpace) s.sequence d := by
  rw [takeRoot_eq] at h
  obtain hname | ⟨name, q, hname, h⟩ := Reading.bind_eq_error h
  · left
    rw [takeName_eq] at hname
    obtain hnext | ⟨⟨value, span⟩, q, hnext, hname⟩ := Reading.bind_eq_error hname
    · exact absurd (TokenStream.kind_of_next hnext) hkind
    obtain ⟨rest, hsequence⟩ := TokenStream.exists_sequence_of_next hnext
    obtain ⟨more, hviable⟩ : Viable (WholeFile registry settings.defaultSpace)
        [.word "", .terminator] := viable_behind_root "" (Or.inl rfl)
    cases value with
    | word => exact absurd hname Reading.pure_ne_error
    | _ =>
      obtain ⟨rfl, rfl⟩ := Reading.fail_eq_error hname
      refine .at_next nofun hsequence ⟨_, hviable⟩ ?_
      intro us rest more hus heq
      obtain ⟨name, body, -, hword⟩ := exists_of_wholeFile hus heq
      exact absurd (List.head_eq_of_cons_eq hword) nofun
  have hsequence := TokenStream.sequence_of_next (next_of_takeName hname) (by simp)
  obtain hpeek | ⟨token, q', hpeek, h⟩ := Reading.bind_eq_error h
  · exact absurd (TokenStream.kind_of_peek hpeek) hkind
  obtain ⟨rest, hrest⟩ := TokenStream.exists_sequence_of_peek hpeek
  split at h
  · right
    rename_i hword
    obtain ⟨rfl, rfl⟩ := Reading.fail_eq_error h
    rw [hrest] at hsequence
    refine ⟨⟨.word name.value, name.span⟩, token, rest, hsequence, rfl, ⟨name.value, rfl⟩, ?_, ?_⟩
    · obtain ⟨more, hviable⟩ : Viable (WholeFile registry settings.defaultSpace)
          [.word name.value, .terminator] := viable_behind_root name.value (Or.inl rfl)
      exact ⟨.terminator :: more, hviable⟩
    · rintro ⟨us, rest', more, hus, heq⟩
      obtain ⟨_, body, hbody, htokens⟩ := exists_of_wholeFile hus heq
      obtain ⟨first, others, rfl, hfirst⟩ := hbody.eq_cons
      obtain rfl : token.value = first := List.head_eq_of_cons_eq (List.tail_eq_of_cons_eq htokens)
      rw [hfirst] at hword
      contradiction
  · left
    have hblames := blames_of_takeBody hready hunlimited h hkind
    rw [← TokenStream.sequence_of_peek hpeek] at hblames
    have hsequence : s.sequence = [⟨.word name.value, name.span⟩] ++ q.sequence := hsequence
    apply hblames.behind hsequence
    · intro us hus
      exact viable_behind_root name.value hus
    · intro t others us rest' more _ hus heq
      obtain ⟨_, body, hbody, htokens⟩ := exists_of_wholeFile hus heq
      exact ⟨body, _, hbody, (List.tail_eq_of_cons_eq htokens).symm⟩

/-- A failure to read a whole file blames a token for the files that there could be. -/
theorem blames_of_takeWhole (hready : registry.ReadyMade) (hunlimited : settings.maxDepth = none)
    {s s' : TokenStream} {d : Diagnostic} (h : takeWhole registry settings s = (.error d, s'))
    (hkind : d.kind ≠ .lexical) :
    d.Blames (WholeFile registry settings.defaultSpace) s.sequence ∨
      BlamesWordBehindRoot (WholeFile registry settings.defaultSpace) s.sequence d := by
  rw [takeWhole_eq] at h
  obtain hroot | ⟨root, q, hroot, h⟩ := Reading.bind_eq_error h
  · exact blames_of_takeRoot hready hunlimited hroot hkind
  left
  obtain ⟨p, taken, hp, hwords, hvalues, hsequence⟩ := takes_of_takeRoot hready hunlimited hroot
  obtain hnext | ⟨token, q', hnext, h⟩ := Reading.bind_eq_error h
  · exact absurd (TokenStream.kind_of_next hnext) hkind
  split at h
  · exact absurd h Reading.pure_ne_error
  · rename_i hend
    obtain ⟨rfl, rfl⟩ := Reading.fail_eq_error h
    obtain ⟨rest, hrest⟩ := TokenStream.exists_sequence_of_next hnext
    refine ⟨nofun, taken, token, rest, by rw [hsequence, hrest], rfl, ?_, ?_⟩
    · exact ⟨[.endOfInput], p, hp, hwords, by rw [hvalues]⟩
    · -- a file that starts with the tokens of a phrase has no other tokens before its end
      rintro ⟨us, rest', more, ⟨p', -, -, rfl⟩, heq⟩
      rw [hvalues, List.append_assoc, List.append_assoc] at heq
      obtain ⟨-, htokens⟩ := Phrase.tokens_append_inj heq
      exact hend (List.head_eq_of_cons_eq htokens).symm

end Tree

end CommandTree
