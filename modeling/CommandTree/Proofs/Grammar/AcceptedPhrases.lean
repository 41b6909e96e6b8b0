import CommandTree.Proofs.Grammar.Parsing

/-!
# Phrases that denote trees

A phrase is accepted if it denotes a tree in which siblings have different names. This can be said
without the tree: the words of every node have to declare some type, and the phrases of a scope need
different names. Without a limit on the levels a source is parsed exactly when its tokens are those
of an accepted phrase whose root has no words.

The other definitions say which tokens may follow at the places where the parser decides what to do
next: behind the name of a node, behind the words of its type, and in a scope behind some of its
children. Each list of tokens ends with the node or the scope, and what stands in front of the place
determines which of these lists are possible.
-/

set_option autoImplicit false

namespace CommandTree

namespace Phrase

section

variable (registry : Registry) (defaultSpace : String)

mutual

/-- The words of all nodes declare types, and siblings have different names. -/
def Accepted : Phrase → Prop
  | leaf _ words => ∃ type, registry.Types defaultSpace words type
  | scope _ words inner =>
    (∃ type, registry.Types defaultSpace words type) ∧ (inner.map name).Nodup ∧ AcceptedAll inner

/-- All phrases of a scope are accepted. -/
def AcceptedAll : List Phrase → Prop
  | [] => True
  | p :: ps => Accepted p ∧ AcceptedAll ps

end

end

variable {registry : Registry} {defaultSpace : String}

/-- Trees that phrases denote have the names of the phrases. -/
theorem DenotesAll.names_eq {ps : List Phrase} {ts : List Tree}
    (h : DenotesAll registry defaultSpace ps ts) : ts.map Tree.name = ps.map name := by
  induction ps generalizing ts with
  | nil =>
    cases ts with
    | nil => rfl
    | cons t ts => exact absurd h (by simp [DenotesAll])
  | cons p ps ih =>
    cases ts with
    | nil => exact absurd h (by simp [DenotesAll])
    | cons t ts =>
      obtain ⟨hfirst, hothers⟩ := h
      rw [List.map_cons, List.map_cons, hfirst.name_eq, ih hothers]

mutual

/-- A phrase is accepted exactly if it denotes a tree with distinct siblings. -/
theorem accepted_iff (p : Phrase) :
    p.Accepted registry defaultSpace ↔ ∃ t, p.Denotes registry defaultSpace t ∧ t.Distinct := by
  cases p with
  | leaf name words =>
    constructor
    · rintro ⟨type, htype⟩
      exact ⟨.node name type [], ⟨rfl, htype, rfl⟩, List.nodup_nil, trivial⟩
    · rintro ⟨⟨_, type, _⟩, ⟨-, htype, -⟩, -⟩
      exact ⟨type, htype⟩
  | scope name words inner =>
    constructor
    · rintro ⟨⟨type, htype⟩, hnodup, hinner⟩
      obtain ⟨ts, hdenotes, hdistinct⟩ := (acceptedAll_iff inner).mp hinner
      rw [← hdenotes.names_eq] at hnodup
      exact ⟨.node name type ts, ⟨rfl, htype, hdenotes⟩, hnodup, hdistinct⟩
    · rintro ⟨⟨_, type, ts⟩, ⟨-, htype, hdenotes⟩, hnodup, hdistinct⟩
      rw [hdenotes.names_eq] at hnodup
      exact ⟨⟨type, htype⟩, hnodup, (acceptedAll_iff inner).mpr ⟨ts, hdenotes, hdistinct⟩⟩

/-- Phrases are accepted exactly if they denote trees with distinct siblings throughout. -/
theorem acceptedAll_iff (ps : List Phrase) :
    AcceptedAll registry defaultSpace ps ↔
      ∃ ts, DenotesAll registry defaultSpace ps ts ∧ Tree.DistinctAll ts := by
  cases ps with
  | nil =>
    refine iff_of_true trivial ⟨[], trivial, trivial⟩
  | cons p ps =>
    constructor
    · rintro ⟨hfirst, hothers⟩
      obtain ⟨t, hdenotes, hdistinct⟩ := (accepted_iff p).mp hfirst
      obtain ⟨ts, hdenotesAll, hdistinctAll⟩ := (acceptedAll_iff ps).mp hothers
      exact ⟨t :: ts, ⟨hdenotes, hdenotesAll⟩, hdistinct, hdistinctAll⟩
    · rintro ⟨ts, hdenotes, hdistinct⟩
      cases ts with
      | nil => exact absurd hdenotes (by simp [DenotesAll])
      | cons t ts =>
        exact ⟨(accepted_iff p).mpr ⟨t, hdenotes.1, hdistinct.1⟩,
          (acceptedAll_iff ps).mpr ⟨ts, hdenotes.2, hdistinct.2⟩⟩

end

/-- The words of an accepted phrase declare a type, or that there is none. -/
theorem Accepted.types {p : Phrase} (h : p.Accepted registry defaultSpace) :
    ∃ type, registry.Types defaultSpace p.words type := by
  cases p with
  | leaf => exact h
  | scope => exact h.1

/-! ## What may follow -/

section

variable (registry : Registry) (defaultSpace : String)

/-- What may follow in a scope in which certain names were seen, through its closing brace. -/
def BehindChildren (seen : Tree.Seen) (ts : List Token) : Prop :=
  ∃ ps, AcceptedAll registry defaultSpace ps ∧ (ps.map name).Nodup ∧
    (∀ p ∈ ps, seen.lookup p.name = none) ∧ ts = tokensAll ps ++ [.closeScope]

/-- What may follow the words of the type of a node. -/
def BehindHead (ts : List Token) : Prop :=
  ts = [.terminator] ∨ ∃ us, BehindChildren registry defaultSpace [] us ∧ ts = .openScope :: us

/-- What may follow the name of a node. -/
def BehindName (ts : List Token) : Prop :=
  ∃ words type us, registry.Types defaultSpace words type ∧ BehindHead registry defaultSpace us ∧
    ts = words.map .word ++ us

/-- The tokens of a whole command file. -/
def WholeFile (ts : List Token) : Prop :=
  ∃ p : Phrase, p.Accepted registry defaultSpace ∧ p.words = [] ∧ ts = p.tokens ++ [.endOfInput]

end

variable {ts us rest more : List Token} {seen : Tree.Seen}

/-- What may follow the words of a type starts with a token that is no word. -/
theorem BehindHead.eq_cons (h : BehindHead registry defaultSpace ts) :
    ∃ first others, ts = first :: others ∧ first.isWord = false := by
  obtain rfl | ⟨us, -, rfl⟩ := h
  · exact ⟨_, _, rfl, rfl⟩
  · exact ⟨_, _, rfl, rfl⟩

/-- Words in front of a token that is no word start with all words that the list starts with. -/
theorem prefix_of_words_append {ws ws' : List String} {other : Token}
    (hother : other.isWord = false) (h : ws'.map .word ++ other :: us = ws.map .word ++ more) :
    ws <+: ws' := by
  induction ws generalizing ws' with
  | nil => exact List.nil_prefix
  | cons w ws ih =>
    cases ws' with
    | nil =>
      obtain ⟨rfl, -⟩ := List.cons.inj h
      contradiction
    | cons w' ws' =>
      obtain ⟨hword, hrest⟩ := List.cons.inj h
      obtain rfl := Token.word.inj hword
      exact List.cons_prefix_cons.mpr ⟨rfl, ih hrest⟩

/-- What is behind the words of the type in an accepted phrase may follow them. -/
theorem Accepted.behindHead {p : Phrase} (h : p.Accepted registry defaultSpace) :
    BehindHead registry defaultSpace p.body := by
  cases p with
  | leaf => exact Or.inl rfl
  | scope name words inner =>
    obtain ⟨-, hnodup, hinner⟩ := h
    exact Or.inr ⟨_, ⟨inner, hinner, hnodup, fun _ _ => rfl, rfl⟩, rfl⟩

/-- A name, the words of a type and what may follow them are the tokens of an accepted phrase. -/
theorem BehindHead.exists_phrase (h : BehindHead registry defaultSpace ts) (name : String)
    {words : List String} {type : Option ArgType}
    (htypes : registry.Types defaultSpace words type) :
    ∃ p : Phrase, p.Accepted registry defaultSpace ∧ p.name = name ∧ p.words = words ∧
      p.tokens = .word name :: (words.map .word ++ ts) := by
  obtain rfl | ⟨us, ⟨ps, haccepted, hnodup, -, rfl⟩, rfl⟩ := h
  · exact ⟨.leaf name words, ⟨type, htypes⟩, rfl, rfl, by rw [tokens]⟩
  · exact ⟨.scope name words ps, ⟨⟨type, htypes⟩, hnodup, haccepted⟩, rfl, rfl, by rw [tokens]⟩

/-- What may follow in a scope starts with the closing brace or with a name. -/
theorem BehindChildren.eq_cons (h : BehindChildren registry defaultSpace seen ts) :
    ∃ first others, ts = first :: others ∧ (first = .closeScope ∨ ∃ name, first = .word name) := by
  obtain ⟨ps, -, -, -, rfl⟩ := h
  cases ps with
  | nil => exact ⟨_, _, rfl, Or.inl rfl⟩
  | cons p ps =>
    rw [tokensAll, tokens_eq]
    exact ⟨_, _, rfl, Or.inr ⟨_, rfl⟩⟩

/-- A child with a new name, which is noted for the children behind it. -/
theorem BehindChildren.cons {p : Phrase} {span : Span} (hp : p.Accepted registry defaultSpace)
    (hfresh : seen.lookup p.name = none)
    (h : BehindChildren registry defaultSpace ((p.name, span) :: seen) ts) :
    BehindChildren registry defaultSpace seen (p.tokens ++ ts) := by
  obtain ⟨ps, haccepted, hnodup, hseen, rfl⟩ := h
  obtain ⟨hnodup, hseen⟩ := (Tree.fresh_cons_iff name p ps span seen).mpr ⟨hfresh, hnodup, hseen⟩
  refine ⟨p :: ps, ⟨hp, haccepted⟩, hnodup, hseen, ?_⟩
  rw [tokensAll, List.append_assoc]

/-- A word in a scope is the name of a child, and a new one. -/
theorem BehindChildren.exists_child {name : String}
    (h : BehindChildren registry defaultSpace seen us) (heq : us ++ rest = .word name :: more)
    (span : Span) :
    seen.lookup name = none ∧
      ∃ (p : Phrase) (vs : List Token), p.Accepted registry defaultSpace ∧ p.name = name ∧
        BehindChildren registry defaultSpace ((name, span) :: seen) vs ∧ us = p.tokens ++ vs := by
  obtain ⟨ps, haccepted, hnodup, hseen, rfl⟩ := h
  cases ps with
  | nil =>
    obtain ⟨hclose, -⟩ := List.cons.inj heq
    contradiction
  | cons p ps =>
    rw [tokensAll, tokens_eq] at heq
    obtain ⟨hname, -⟩ := List.cons.inj heq
    obtain rfl := Token.word.inj hname
    obtain ⟨hfresh, hnodup, hseen⟩ :=
      (Tree.fresh_cons_iff Phrase.name p ps span seen).mp ⟨hnodup, hseen⟩
    refine ⟨hfresh, p, _, haccepted.1, rfl, ⟨ps, haccepted.2, hnodup, hseen, rfl⟩, ?_⟩
    rw [tokensAll, List.append_assoc]

end Phrase

/-- Without a limit on the levels, a source is parsed exactly when its tokens are those of an
accepted phrase whose root has no words. -/
theorem Tree.exists_parse_iff_accepted {registry : Registry} {settings : Settings}
    (hready : registry.ReadyMade) (hunlimited : settings.maxDepth = none) (source : Source) :
    (∃ t, parse registry settings source = .ok t) ↔
      ∃ p : Phrase, (TokenStream.ofSource source).Lexes p.tokens ∧ p.words = [] ∧
        p.Accepted registry settings.defaultSpace := by
  constructor
  · rintro ⟨t, h⟩
    obtain ⟨p, hp⟩ := (parse_eq_ok_iff_derives hready).mp h
    exact ⟨p, hp.lexes, hp.literal, p.accepted_iff.mpr ⟨t, hp.denotes, hp.distinct⟩⟩
  · rintro ⟨p, hlexes, hliteral, haccepted⟩
    obtain ⟨t, hdenotes, hdistinct⟩ := p.accepted_iff.mp haccepted
    have hallowed : settings.allows t.depth = true := by simp [Settings.allows, hunlimited]
    exact ⟨t, (parse_eq_ok_iff_derives hready).mpr
      ⟨p, hlexes, hliteral, hdenotes, hdistinct, hallowed⟩⟩

end CommandTree
