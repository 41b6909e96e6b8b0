import CommandTree.Proofs.Grammar.TypeWords
import CommandTree.Proofs.Stream.Upcoming
import CommandTree.Settings
import CommandTree.Tree

/-!
# The grammar of command files

A `Phrase` is a derivation of the grammar: a name, the words of a type, and then a semicolon or
phrases between braces. `Phrase.tokens` are the tokens that it derives, and `Phrase.Denotes` says
which tree it stands for. `Phrase.Derives` adds what a whole command file has to satisfy.

Both are determined. A list of tokens is derived by one phrase at most, even when other tokens
follow, because the words of a type end at the first token that is no word. A phrase denotes one
tree at most, because words declare one type at most.
-/

set_option autoImplicit false

namespace CommandTree

/-- A derivation of a node. -/
inductive Phrase where
  /-- A name and the words of a type in front of a semicolon. -/
  | leaf (name : String) (words : List String)
  /-- A name and the words of a type in front of a scope. -/
  | scope (name : String) (words : List String) (inner : List Phrase)

namespace Phrase

/-! ## Tokens -/

mutual

/-- The tokens of a phrase. -/
def tokens : Phrase → List Token
  | leaf name words => .word name :: (words.map .word ++ [.terminator])
  | scope name words inner =>
    .word name :: (words.map .word ++ .openScope :: (tokensAll inner ++ [.closeScope]))

/-- The tokens of phrases, one behind the other. -/
def tokensAll : List Phrase → List Token
  | [] => []
  | p :: ps => tokens p ++ tokensAll ps

end

/-- The name of the node. -/
def name : Phrase → String
  | leaf name _ | scope name _ _ => name

/-- The words of the type of the node. -/
def words : Phrase → List String
  | leaf _ words | scope _ words _ => words

/-- The tokens behind the words of the type. -/
def body : Phrase → List Token
  | leaf _ _ => [.terminator]
  | scope _ _ inner => .openScope :: (tokensAll inner ++ [.closeScope])

/-- The tokens of a phrase are its name, the words of its type and its body. -/
theorem tokens_eq (p : Phrase) : p.tokens = .word p.name :: (p.words.map .word ++ p.body) := by
  cases p <;> rw [tokens] <;> rfl

/-- The body of a phrase starts with a token that is no word. -/
theorem body_eq_cons (p : Phrase) :
    ∃ first others, p.body = first :: others ∧ first.isWord = false := by
  cases p with
  | leaf => exact ⟨_, _, rfl, rfl⟩
  | scope => exact ⟨_, _, rfl, rfl⟩

mutual

/-- The end of input is no token of a phrase. -/
theorem endOfInput_notMem_tokens (p : Phrase) : Token.endOfInput ∉ p.tokens := by
  cases p with
  | leaf name words => simp [tokens]
  | scope name words inner => simp [tokens, endOfInput_notMem_tokensAll inner]

/-- The end of input is no token of phrases one behind the other. -/
theorem endOfInput_notMem_tokensAll (ps : List Phrase) : Token.endOfInput ∉ tokensAll ps := by
  cases ps with
  | nil => simp [tokensAll]
  | cons p ps =>
    simp [tokensAll, endOfInput_notMem_tokens p, endOfInput_notMem_tokensAll ps]

end

/-! ## Tokens determine the phrase -/

/-- Words end at the first token that is no word. -/
theorem words_append_inj {ws ws' : List String} {other other' : Token} {us vs : List Token}
    (hother : other.isWord = false) (hother' : other'.isWord = false)
    (h : ws.map .word ++ other :: us = ws'.map .word ++ other' :: vs) :
    ws = ws' ∧ other = other' ∧ us = vs := by
  induction ws generalizing ws' with
  | nil =>
    cases ws' with
    | nil =>
      obtain ⟨rfl, rfl⟩ := List.cons.inj h
      exact ⟨rfl, rfl, rfl⟩
    | cons w ws' =>
      obtain ⟨rfl, -⟩ := List.cons.inj h
      simp [Token.isWord] at hother
  | cons w ws ih =>
    cases ws' with
    | nil =>
      obtain ⟨rfl, -⟩ := List.cons.inj h
      simp [Token.isWord] at hother'
    | cons w' ws' =>
      obtain ⟨hw, hrest⟩ := List.cons.inj h
      obtain ⟨rfl, hothers⟩ := ih hrest
      exact ⟨by rw [Token.word.inj hw], hothers⟩

mutual

/-- The tokens of a phrase, whatever follows them, are those of no other phrase. -/
theorem tokens_append_inj {p q : Phrase} {us vs : List Token}
    (h : p.tokens ++ us = q.tokens ++ vs) : p = q ∧ us = vs := by
  obtain ⟨c, cs, hc, hcword⟩ := p.body_eq_cons
  obtain ⟨d, ds, hd, hdword⟩ := q.body_eq_cons
  rw [tokens_eq, tokens_eq, hc, hd] at h
  simp only [List.cons_append, List.append_assoc, List.cons.injEq, Token.word.injEq] at h
  obtain ⟨hname, hrest⟩ := h
  -- the words end at the same place, and the token there tells a leaf from a scope
  obtain ⟨hwords, rfl, hbody⟩ := words_append_inj hcword hdword hrest
  cases p with
  | leaf name words =>
    cases q with
    | leaf name' words' =>
      cases hc
      cases hd
      exact ⟨by rw [show name = name' from hname, show words = words' from hwords], hbody⟩
    | scope name' words' inner' =>
      cases hc
      cases hd
  | scope name words inner =>
    cases q with
    | leaf name' words' =>
      cases hc
      cases hd
    | scope name' words' inner' =>
      cases hc
      cases hd
      simp only [List.append_assoc, List.singleton_append] at hbody
      obtain ⟨rfl, rfl⟩ := tokensAll_append_inj hbody
      exact ⟨by rw [show name = name' from hname, show words = words' from hwords], rfl⟩

/-- The same for the phrases of a scope, which end at its closing brace. -/
theorem tokensAll_append_inj {ps qs : List Phrase} {us vs : List Token}
    (h : tokensAll ps ++ .closeScope :: us = tokensAll qs ++ .closeScope :: vs) :
    ps = qs ∧ us = vs := by
  cases ps with
  | nil =>
    cases qs with
    | nil => exact ⟨rfl, (List.cons.inj h).2⟩
    | cons q qs =>
      rw [tokensAll, tokensAll, tokens_eq] at h
      simp at h
  | cons p ps =>
    cases qs with
    | nil =>
      rw [tokensAll, tokensAll, tokens_eq] at h
      simp at h
    | cons q qs =>
      rw [tokensAll, tokensAll, List.append_assoc, List.append_assoc] at h
      obtain ⟨rfl, hrest⟩ := tokens_append_inj h
      obtain ⟨rfl, rfl⟩ := tokensAll_append_inj hrest
      exact ⟨rfl, rfl⟩

end

/-- A list of tokens is derived by one phrase at most. -/
theorem tokens_inj {p q : Phrase} (h : p.tokens = q.tokens) : p = q := by
  have heq : p.tokens ++ [] = q.tokens ++ [] := by rw [h]
  exact (tokens_append_inj heq).1

/-! ## Trees -/

section

variable (registry : Registry) (defaultSpace : String)

mutual

/-- The tree that a phrase denotes. -/
def Denotes : Phrase → Tree → Prop
  | leaf name words, .node name' type children =>
    name' = name ∧ registry.Types defaultSpace words type ∧ children = []
  | scope name words inner, .node name' type children =>
    name' = name ∧ registry.Types defaultSpace words type ∧ DenotesAll inner children

/-- The trees that phrases denote, in their order. -/
def DenotesAll : List Phrase → List Tree → Prop
  | [], [] => True
  | p :: ps, t :: ts => Denotes p t ∧ DenotesAll ps ts
  | _, _ => False

end

end

variable {registry : Registry} {defaultSpace : String}

/-- A tree has the name of a phrase that denotes it. -/
theorem Denotes.name_eq {p : Phrase} {t : Tree} (h : p.Denotes registry defaultSpace t) :
    t.name = p.name := by
  cases p <;> cases t <;> exact h.1

/-- The words of a phrase declare the type of the tree that it denotes. -/
theorem Denotes.types {p : Phrase} {t : Tree} (h : p.Denotes registry defaultSpace t) :
    registry.Types defaultSpace p.words t.type := by
  cases p <;> cases t <;> exact h.2.1

/-- A phrase without words denotes a tree without a type. -/
theorem Denotes.type_eq_none {p : Phrase} {t : Tree} (h : p.Denotes registry defaultSpace t)
    (hwords : p.words = []) : t.type = none := by
  have htypes := h.types
  rw [hwords] at htypes
  exact htypes.unique .literal

mutual

/-- A phrase denotes one tree at most. -/
theorem Denotes.unique {p : Phrase} {t t' : Tree} (h : p.Denotes registry defaultSpace t)
    (h' : p.Denotes registry defaultSpace t') : t = t' := by
  obtain ⟨name, type, children⟩ := t
  obtain ⟨name', type', children'⟩ := t'
  cases p with
  | leaf _ words =>
    obtain ⟨rfl, htype, rfl⟩ := h
    obtain ⟨rfl, htype', rfl⟩ := h'
    rw [htype.unique htype']
  | scope _ words inner =>
    obtain ⟨rfl, htype, hinner⟩ := h
    obtain ⟨rfl, htype', hinner'⟩ := h'
    rw [htype.unique htype', DenotesAll.unique hinner hinner']

/-- Phrases denote one list of trees at most. -/
theorem DenotesAll.unique {ps : List Phrase} {ts ts' : List Tree}
    (h : DenotesAll registry defaultSpace ps ts) (h' : DenotesAll registry defaultSpace ps ts') :
    ts = ts' := by
  cases ps with
  | nil =>
    cases ts with
    | nil =>
      cases ts' with
      | nil => rfl
      | cons => simp [DenotesAll] at h'
    | cons => simp [DenotesAll] at h
  | cons p ps =>
    cases ts with
    | nil => simp [DenotesAll] at h
    | cons t ts =>
      cases ts' with
      | nil => simp [DenotesAll] at h'
      | cons t' ts' => rw [h.1.unique h'.1, DenotesAll.unique h.2 h'.2]

end

/-! ## Command files -/

/-- The phrase derives a whole command file, whose characters the stream reads, and denotes its
tree. The root has no type, no two siblings share a name, and there are not too many levels. -/
structure Derives (registry : Registry) (settings : Settings) (s : TokenStream) (p : Phrase)
    (t : Tree) : Prop where
  /-- The stream reads the tokens of the phrase and nothing else. -/
  lexes : s.Lexes p.tokens
  /-- The root is a literal. -/
  literal : p.words = []
  /-- The tree is the one that the phrase denotes. -/
  denotes : p.Denotes registry settings.defaultSpace t
  /-- Siblings have different names. -/
  distinct : t.Distinct
  /-- The settings allow the deepest level. -/
  allowed : settings.allows t.depth = true

/-- A command file has one derivation at most, and one tree. -/
theorem Derives.unique {settings : Settings} {s : TokenStream} {p p' : Phrase} {t t' : Tree}
    (h : p.Derives registry settings s t) (h' : p'.Derives registry settings s t') :
    p = p' ∧ t = t' := by
  obtain rfl : p = p' := tokens_inj (h.lexes.unique h'.lexes)
  exact ⟨rfl, h.denotes.unique h'.denotes⟩

end Phrase

end CommandTree
