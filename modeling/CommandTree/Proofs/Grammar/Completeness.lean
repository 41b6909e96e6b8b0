import CommandTree.Proofs.Grammar.Soundness

/-!
# What is derived is accepted

Where the tokens of a phrase are upcoming, the parser reads the tree that the phrase denotes and
stops behind them, provided that siblings have different names and that no node is too deep. Here
the proof follows the phrase.

The parser reads the children of a scope until it sees the closing brace, so it has to see a name
wherever there is a child left and no name where there is none. Both are the first token of what is
upcoming.
-/

set_option autoImplicit false

namespace CommandTree.Tree

variable {registry : Registry} {settings : Settings}

/-! ## Heads -/

/-- A word that is upcoming is read as a name. -/
theorem readName_of_upcoming (problem : Token → Problem) {s : TokenStream} {text : String}
    {rest : List Token} (h : s.Upcoming (.word text :: rest)) :
    ∃ span left, readName problem s = .ok (⟨text, span⟩, left) ∧ left.val.Upcoming rest := by
  obtain ⟨span, s', hnext, hs'⟩ := h
  refine ⟨span, ⟨s', TokenStream.size_next_lt hnext (by simp)⟩, ?_, hs'⟩
  unfold readName
  split
  · rename_i hother
    cases hnext.symm.trans hother
  · rename_i hsame
    cases hnext.symm.trans hsame
    rfl
  · rename_i hne hother
    cases hnext.symm.trans hother
    exact absurd rfl (hne text span)

/-- Words that declare a type, in front of a token that is no word, are read as that type. -/
theorem readType_of_upcoming (hready : registry.ReadyMade) {bound : Nat} {s : Left bound}
    {words : List String} {type : Option ArgType} {other : Token} {rest : List Token}
    (htypes : registry.Types settings.defaultSpace words type) (hother : other.isWord = false)
    (h : s.val.Upcoming (words.map .word ++ other :: rest)) :
    ∃ left, readType registry settings s = .ok (type, left) ∧
      left.val.Upcoming (other :: rest) := by
  cases words with
  | nil =>
    obtain rfl : none = type := Registry.Types.unique .literal htypes
    obtain ⟨s', hword, hs'⟩ := TokenStream.nextWord?_of_other h hother
    have hle := TokenStream.size_le_of_reaches (TokenStream.Reaches.nextWord?_of_eq hword)
    refine ⟨⟨s', Nat.lt_of_le_of_lt hle s.property⟩, ?_, hs'⟩
    unfold readType
    split
    · rename_i hfails
      cases hword.symm.trans hfails
    · rename_i hsame
      cases hword.symm.trans hsame
      rfl
    · rename_i hfinds
      cases hword.symm.trans hfinds
  | cons text words =>
    cases type with
    | none => simp [Registry.types_none_iff] at htypes
    | some type =>
      obtain ⟨span, q, hword, hq⟩ := TokenStream.nextWord?_of_word h
      obtain ⟨s', hresolve, hs'⟩ :=
        (Registry.accepts_resolve hready settings.defaultSpace ⟨text, span⟩).complete
          htypes hother hq
      have hlt : s'.size < bound := by
        have hforward := registry.forward_resolve settings.defaultSpace ⟨text, span⟩ q
        rw [hresolve] at hforward
        have hle := TokenStream.size_le_of_reaches hforward
        have hle' := TokenStream.size_le_of_reaches (TokenStream.Reaches.nextWord?_of_eq hword)
        exact Nat.lt_of_le_of_lt (Nat.le_trans hle hle') s.property
      refine ⟨⟨s', hlt⟩, ?_, hs'⟩
      unfold readType
      split
      · rename_i hfails
        cases hword.symm.trans hfails
      · rename_i hnone
        cases hword.symm.trans hnone
      · rename_i hsame
        cases hword.symm.trans hsame
        split
        · rename_i hfails
          cases hresolve.symm.trans hfails
        · rename_i hread
          cases hresolve.symm.trans hread
          rfl

/-- A name and words that declare a type are read as the head of a node. -/
theorem readHead_of_upcoming (hready : registry.ReadyMade) {s : TokenStream} {name : String}
    {words : List String} {type : Option ArgType} {other : Token} {rest : List Token}
    (htypes : registry.Types settings.defaultSpace words type) (hother : other.isWord = false)
    (h : s.Upcoming (.word name :: (words.map .word ++ other :: rest))) :
    ∃ span left, readHead registry settings s = .ok (⟨⟨name, span⟩, type⟩, left) ∧
      left.val.Upcoming (other :: rest) := by
  obtain ⟨span, q, hname, hq⟩ := readName_of_upcoming .missingNodeName h
  obtain ⟨left, htype, hleft⟩ := readType_of_upcoming hready htypes hother hq
  refine ⟨span, left, ?_, hleft⟩
  rw [readHead, hname]
  simp only [htype]

/-! ## Bodies and scopes -/

/-- A semicolon is read as the body of a node without children, if one more level may be used. -/
theorem readBody_of_terminator {level : Nat} {head : Head} {s s' : TokenStream} {span : Span}
    (hlevel : settings.Covers level 1) (h : s.next = (.ok ⟨.terminator, span⟩, s')) :
    ∃ left,
      readBody registry settings level head s = .ok (node head.name.value head.type [], left) ∧
      left.val = s' := by
  refine ⟨⟨s', TokenStream.size_next_lt h (by simp)⟩, ?_, rfl⟩
  rw [readBody]
  split
  · rename_i hlimit
    rw [Settings.filter_eq_none_iff.mpr hlevel] at hlimit
    contradiction
  split
  · rename_i hother
    cases h.symm.trans hother
  · rename_i hsame
    cases h.symm.trans hsame
    rfl
  · rename_i hother
    cases h.symm.trans hother
  · rename_i hne _ hother
    cases h.symm.trans hother
    exact absurd rfl (hne span)

/-- A brace and what children are read from is read as the body of a node with these children. -/
theorem readBody_of_openScope {level : Nat} {head : Head} {s s' : TokenStream} {opening : Span}
    {children : List Tree} {left : Left s.size} (hlevel : settings.Covers level 1)
    (h : s.next = (.ok ⟨.openScope, opening⟩, s')) (hlt : s'.size < s.size)
    (hchildren : readChildren registry settings level head.name.value opening [] []
      (⟨s', hlt⟩ : Left s.size) = .ok (children, left)) :
    readBody registry settings level head s =
      .ok (node head.name.value head.type children, left) := by
  rw [readBody]
  split
  · rename_i hlimit
    rw [Settings.filter_eq_none_iff.mpr hlevel] at hlimit
    contradiction
  split
  · rename_i hother
    cases h.symm.trans hother
  · rename_i hother
    cases h.symm.trans hother
  · rename_i hsame
    cases h.symm.trans hsame
    rw [hchildren]
  · rename_i _ hne hother
    cases h.symm.trans hother
    exact absurd rfl (hne opening)

/-- At the closing brace the children are complete. -/
theorem readChildren_of_close {level : Nat} {parent : String} {opening : Span} {seen : Seen}
    {read : List Tree} {bound : Nat} {s : Left bound} {s' : TokenStream} {span : Span}
    (h : s.val.peek = (.ok ⟨.closeScope, span⟩, s')) :
    ∃ left, readChildren registry settings level parent opening seen read s =
      .ok (read.reverse, left) ∧ left.val = s'.next.2 := by
  rw [readChildren]
  split
  · rename_i hother
    cases h.symm.trans hother
  · rename_i hsame
    cases h.symm.trans hsame
    exact ⟨_, rfl, rfl⟩

/-- In front of a new name a child is read, and then the others with the name noted. -/
theorem readChildren_of_child {level : Nat} {parent : String} {opening : Span} {seen : Seen}
    {read : List Tree} {bound : Nat} {s : Left bound} {s' : TokenStream} {name : String}
    {span : Span} {head : Head} {s₁ : Left s'.size} {child : Tree} {s₂ : Left s₁.val.size}
    (h : s.val.peek = (.ok ⟨.word name, span⟩, s')) (hseen : seen.lookup name = none)
    (hhead : readHead registry settings s' = .ok (head, s₁))
    (hbody : readBody registry settings (level + 1) head s₁.val = .ok (child, s₂))
    (hlt : s₂.val.size < bound) :
    readChildren registry settings level parent opening seen read s =
      readChildren registry settings level parent opening ((name, span) :: seen) (child :: read)
        (⟨s₂.val, hlt⟩ : Left bound) := by
  rw [readChildren]
  split
  · rename_i hother
    cases h.symm.trans hother
  · rename_i hsame
    cases h.symm.trans hsame
    rw [if_neg (by simp)]
    obtain ⟨s₁, h₁⟩ := s₁
    obtain ⟨s₂, h₂⟩ := s₂
    have hproblem : childProblem parent opening seen (.word name) = none :=
      childProblem_word_eq_none_iff.mpr hseen
    simp only [hproblem, hhead, hbody]
    rfl

mutual

/-- Where the body of a phrase is upcoming behind a head, it is read. -/
theorem readBody_of_upcoming (hready : registry.ReadyMade) {p : Phrase} {t : Tree} {level : Nat}
    (head : Head) {s : TokenStream} {rest : List Token}
    (hdenotes : p.Denotes registry settings.defaultSpace t) (hname : head.name.value = p.name)
    (htype : head.type = t.type) (hdistinct : t.Distinct)
    (hdepth : settings.Covers level t.depth) (h : s.Upcoming (p.body ++ rest)) :
    ∃ left, readBody registry settings level head s = .ok (t, left) ∧ left.val.Upcoming rest := by
  obtain ⟨name, type, children⟩ := t
  obtain rfl : head.type = type := htype
  have hlevel : settings.Covers (level + 1) (depthAll children) :=
    (Settings.covers_succ _).mp hdepth
  have hone : settings.Covers level 1 := by
    intro limit hlimit
    have := hlevel limit hlimit
    omega
  cases p with
  | leaf name' words =>
    obtain ⟨rfl, -, rfl⟩ := hdenotes
    obtain rfl : head.name.value = name := hname
    obtain ⟨span, s', hnext, hs'⟩ := h
    obtain ⟨left, hread, rfl⟩ :=
      @readBody_of_terminator registry settings level head s s' span hone hnext
    exact ⟨left, hread, hs'⟩
  | scope name' words inner =>
    obtain ⟨rfl, -, hinner⟩ := hdenotes
    obtain rfl : head.name.value = name := hname
    rw [Phrase.body, List.cons_append, List.append_assoc] at h
    obtain ⟨opening, s', hnext, hs'⟩ := h
    have hlt := TokenStream.size_next_lt hnext (by simp)
    obtain ⟨left, hread, hleft⟩ :=
      readChildren_of_upcoming hready head.name.value opening [] [] (s := ⟨s', hlt⟩) hinner
        hdistinct.1 hdistinct.2 hlevel (fun _ _ => rfl) hs'
    exact ⟨left, readBody_of_openScope hone hnext hlt hread, hleft⟩

/-- Where phrases and a closing brace are upcoming, they are read as the children of a scope. -/
theorem readChildren_of_upcoming (hready : registry.ReadyMade) {ps : List Phrase}
    {ts : List Tree} {level : Nat} (parent : String) (opening : Span) (seen : Seen)
    (read : List Tree) {bound : Nat} {s : Left bound} {rest : List Token}
    (hdenotes : Phrase.DenotesAll registry settings.defaultSpace ps ts)
    (hnodup : (ts.map name).Nodup) (hdistinct : DistinctAll ts)
    (hdepth : settings.Covers (level + 1) (depthAll ts))
    (hseen : ∀ t ∈ ts, seen.lookup t.name = none)
    (h : s.val.Upcoming (Phrase.tokensAll ps ++ .closeScope :: rest)) :
    ∃ left, readChildren registry settings level parent opening seen read s =
      .ok (read.reverse ++ ts, left) ∧ left.val.Upcoming rest := by
  cases ps with
  | nil =>
    cases ts with
    | cons => simp [Phrase.DenotesAll] at hdenotes
    | nil =>
      obtain ⟨span, q, hpeek, hq⟩ := TokenStream.peek_of_upcoming h
      obtain ⟨left, hread, hleft⟩ := readChildren_of_close hpeek
      refine ⟨left, by rw [hread, List.append_nil], ?_⟩
      have hnext := TokenStream.next_of_peeked (TokenStream.peeked_of_peek hpeek)
      rw [hleft, hnext]
      exact ((TokenStream.upcoming_cons_of_next hnext).mp hq).2
  | cons p ps =>
    cases ts with
    | nil => simp [Phrase.DenotesAll] at hdenotes
    | cons t ts =>
      obtain ⟨first, others, hbody, hfirst⟩ := p.body_eq_cons
      obtain ⟨hdepth, hdepthAll⟩ := (Settings.covers_max _ _).mp hdepth
      obtain ⟨hfresh, hnodup⟩ := List.nodup_cons.mp hnodup
      obtain ⟨hnew, hseen⟩ := List.forall_mem_cons.mp hseen
      rw [Phrase.tokensAll, Phrase.tokens_eq, ← hdenotes.1.name_eq] at h
      simp only [List.cons_append, List.append_assoc] at h
      obtain ⟨span, q, hpeek, hq⟩ := TokenStream.peek_of_upcoming h
      rw [hbody] at hq
      obtain ⟨span', s₁, hhead, hs₁⟩ := readHead_of_upcoming hready hdenotes.1.types hfirst hq
      obtain ⟨s₂, hread, hs₂⟩ :=
        readBody_of_upcoming hready ⟨⟨t.name, span'⟩, t.type⟩ hdenotes.1 hdenotes.1.name_eq rfl
          hdistinct.1 hdepth (by rw [hbody]; exact hs₁)
      have hlt : s₂.val.size < bound := by
        have hle : q.size ≤ s.val.size :=
          TokenStream.size_le_of_reaches (TokenStream.Reaches.peek_of_eq hpeek)
        have hlt₁ := s₁.property
        have hlt₂ := s₂.property
        have hlt₃ := s.property
        omega
      -- the siblings behind `t` are new to the scope after `t` was noted, because of `hfresh`
      have hothers : ∀ u ∈ ts, ((t.name, span) :: seen : Seen).lookup u.name = none := by
        intro u hu
        have hne : u.name ≠ t.name := by
          rintro hsame
          exact hfresh (List.mem_map.mpr ⟨u, hu, hsame⟩)
        exact lookup_cons_eq_none_iff.mpr ⟨hne, hseen u hu⟩
      obtain ⟨left, hrest, hleft⟩ :=
        readChildren_of_upcoming hready parent opening ((t.name, span) :: seen) (t :: read)
          (s := ⟨s₂.val, hlt⟩) hdenotes.2 hnodup hdistinct.2 hdepthAll hothers hs₂
      refine ⟨left, ?_, hleft⟩
      rw [readChildren_of_child hpeek hnew hhead hread hlt, hrest]
      simp

end

/-! ## Whole files -/

/-- The tokens of a phrase for a root are read as the tree that the phrase denotes. -/
theorem readRoot_of_upcoming (hready : registry.ReadyMade) {p : Phrase} {t : Tree}
    {s : TokenStream} {rest : List Token} (hwords : p.words = [])
    (hdenotes : p.Denotes registry settings.defaultSpace t) (hdistinct : t.Distinct)
    (hdepth : settings.allows t.depth = true) (h : s.Upcoming (p.tokens ++ rest)) :
    ∃ s', readRoot registry settings s = .ok (t, s') ∧ s'.Upcoming rest := by
  have hliteral := hdenotes.type_eq_none hwords
  obtain ⟨first, others, hbody, hfirst⟩ := p.body_eq_cons
  rw [Phrase.tokens_eq, hwords, List.map_nil, List.nil_append, List.cons_append] at h
  obtain ⟨span, left, hname, hleft⟩ := readName_of_upcoming .missingRootName h
  rw [hbody, List.cons_append] at hleft
  obtain ⟨span', q, hpeek, hq⟩ := TokenStream.peek_of_upcoming hleft
  rw [← List.cons_append, ← hbody] at hq
  obtain ⟨after, hread, hafter⟩ :=
    readBody_of_upcoming hready ⟨⟨p.name, span⟩, none⟩ hdenotes rfl hliteral.symm hdistinct
      ((Settings.covers_one_iff _).mpr hdepth) hq
  refine ⟨after.val, ?_, hafter⟩
  rw [readRoot, hname]
  simp only [hpeek, hfirst, Bool.false_eq_true, if_false, hread]

/-- A command file that is derived is read as its tree. -/
theorem readWhole_of_derives (hready : registry.ReadyMade) {p : Phrase} {t : Tree}
    {s : TokenStream} (h : p.Derives registry settings s t) :
    ∃ s', readWhole registry settings s = .ok (t, s') := by
  have hlexes := (TokenStream.lexes_iff p.endOfInput_notMem_tokens).mp h.lexes
  obtain ⟨q, hroot, span, s', hnext, -⟩ :=
    readRoot_of_upcoming hready h.literal h.denotes h.distinct h.allowed hlexes
  refine ⟨s', ?_⟩
  rw [readWhole, hroot]
  simp only [hnext, if_true]

end CommandTree.Tree
