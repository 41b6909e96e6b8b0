import CommandTree.Proofs.Stream.Accepting
import CommandTree.Proofs.Stream.Sequence
import Mathlib.Data.List.Forall2

/-!
# Two layouts of the same tokens

Texts that differ in blanks, comments or the spelling of their words have the same tokens at other
places. A place in one of them faces the place in the other that the token of the same number has.
Streams of the two texts are abreast when the same number of tokens was taken from both.

What two readings come to is compared by `SameOutcome`. Both succeed with results that correspond,
and the streams are abreast again; or both fail, and their diagnostics say the same of places that
face each other. Only one message mentions a place, namely the line on which a scope was opened that
is not closed.
-/

set_option autoImplicit false

namespace CommandTree

variable {us vs : List (Located Token)}

/-! ## Places -/

/-- The places are those that the tokens of one number have in two sequences. -/
def Span.Faces (us vs : List (Located Token)) (a b : Span) : Prop :=
  ∃ (k : Nat) (t t' : Located Token), us[k]? = some t ∧ vs[k]? = some t' ∧
    t.span = a ∧ t'.span = b

/-- The same value, read at places that face each other. -/
structure Located.Faces {α : Type} (us vs : List (Located Token)) (x y : Located α) : Prop where
  value_eq : x.value = y.value
  span : x.span.Faces us vs y.span

/-! ## Diagnostics -/

/-- What is said about a scope that was opened on a line and is not closed. -/
def Problem.unclosedMessage (name : String) (line : Nat) : String :=
  "expected '\x7d' to close the scope of '" ++ name ++ "' opened at line " ++ toString line ++
    ", found end of input"

/-- The two diagnostics say the same of places that face each other, except that the message about a
scope which is not closed has the line on which this scope was opened. -/
structure Diagnostic.Faces (us vs : List (Located Token)) (d d' : Diagnostic) : Prop where
  kind_eq : d.kind = d'.kind
  span : ∃ a b : Span, d.span = some a ∧ d'.span = some b ∧ a.Faces us vs b
  related : List.Forall₂ (fun x y => x.label = y.label ∧ x.span.Faces us vs y.span)
    d.related d'.related
  help_eq : d.help = d'.help
  cause_eq : d.cause = d'.cause
  message : d.message = d'.message ∨ ∃ (name : String) (a b : Span), a.Faces us vs b ∧
    d.message = Problem.unclosedMessage name a.line ∧
    d'.message = Problem.unclosedMessage name b.line

/-- The problems are the same except that the places which they keep face each other. -/
inductive Problem.Faces (us vs : List (Located Token)) : Problem → Problem → Prop where
  | same {problem : Problem} : problem.related = [] → Faces us vs problem problem
  | unclosedScope {name : String} {a b : Span} : a.Faces us vs b →
    Faces us vs (.unclosedScope name a) (.unclosedScope name b)
  | duplicateChild {duplicate : DuplicateChild} {a b : Span} : a.Faces us vs b →
    Faces us vs (.duplicateChild duplicate a) (.duplicateChild duplicate b)

/-- Problems that face each other at places that face each other are diagnostics that do. -/
theorem Problem.Faces.diagnostic {problem problem' : Problem} {a b : Span}
    (h : problem.Faces us vs problem') (hspan : a.Faces us vs b) :
    (Diagnostic.atSpan problem a).Faces us vs (.atSpan problem' b) := by
  have hspans : ∃ a' b' : Span, some a = some a' ∧ some b = some b' ∧ a'.Faces us vs b' :=
    ⟨a, b, rfl, rfl, hspan⟩
  cases h with
  | same hrelated =>
    refine ⟨rfl, hspans, ?_, rfl, rfl, Or.inl rfl⟩
    show List.Forall₂ _ problem.related problem.related
    rw [hrelated]
    exact .nil
  | unclosedScope hopening =>
    exact ⟨rfl, hspans, .cons ⟨rfl, hopening⟩ .nil, rfl, rfl,
      Or.inr ⟨_, _, _, hopening, rfl, rfl⟩⟩
  | duplicateChild hfirst =>
    exact ⟨rfl, hspans, .cons ⟨rfl, hfirst⟩ .nil, rfl, rfl, Or.inl rfl⟩

/-- Attaching sources to diagnostics that face each other keeps them so, whatever the texts are. -/
theorem Diagnostic.Faces.withSource {d d' : Diagnostic} (h : d.Faces us vs d')
    (name text text' : String) :
    (d.withSource name text).Faces us vs (d'.withSource name text') :=
  ⟨h.kind_eq, h.span, h.related, h.help_eq, h.cause_eq, h.message⟩

/-! ## Streams -/

namespace TokenStream

/-- The same tokens are to come from two streams, from which equally many were taken. -/
structure Abreast (us vs : List (Located Token)) (s s' : TokenStream) : Prop where
  lexes : ∃ ts, s.Lexes ts ∧ s'.Lexes ts
  sequences : ∃ k, s.sequence = us.drop k ∧ s'.sequence = vs.drop k

variable {s s' : TokenStream}

/-- Texts with the same tokens are abreast at the start. -/
theorem abreast_ofSource {source other : Source} {ts : List Token}
    (h : (ofSource source).Lexes ts) (h' : (ofSource other).Lexes ts) :
    (ofSource source).Abreast (ofSource source).sequence (ofSource other).sequence
      (ofSource other) :=
  ⟨⟨ts, h, h'⟩, 0, rfl, rfl⟩

/-- A stream that hands out tokens without a failure has a next one. -/
theorem Lexes.exists_next {ts : List Token} (h : s.Lexes ts) : ∃ t q, s.next = (.ok t, q) := by
  rcases hnext : s.next with ⟨d | t, q⟩
  · exact absurd h (not_lexes_of_error hnext)
  · exact ⟨t, q, rfl⟩

namespace Abreast

/-- The first tokens to come are at places that face each other. -/
theorem span_faces (h : s.Abreast us vs s') {t t' : Located Token}
    {rest rest' : List (Located Token)} (hs : s.sequence = t :: rest)
    (hs' : s'.sequence = t' :: rest') : t.span.Faces us vs t'.span := by
  obtain ⟨k, hk, hk'⟩ := h.sequences
  have hat : ∀ {ts others : List (Located Token)} {u : Located Token},
      ts.drop k = u :: others → ts[k]? = some u := by
    intro ts others u hdrop
    have hhead : (ts.drop k)[0]? = ts[k]? := List.getElem?_drop
    rw [hdrop] at hhead
    exact hhead.symm
  exact ⟨k, t, t', hat (hk.symm.trans hs), hat (hk'.symm.trans hs'), rfl, rfl⟩

/-- The same token is taken from both streams, and unless it is the end of input they stay abreast.
-/
theorem exists_next (h : s.Abreast us vs s') :
    ∃ t t' q q', s.next = (.ok t, q) ∧ s'.next = (.ok t', q') ∧ t.Faces us vs t' ∧
      (t.value ≠ .endOfInput → q.Abreast us vs q') := by
  obtain ⟨ts, hlexes, hlexes'⟩ := h.lexes
  obtain ⟨t, q, hnext⟩ := hlexes.exists_next
  obtain ⟨t', q', hnext'⟩ := hlexes'.exists_next
  obtain ⟨rest, hsequence⟩ := exists_sequence_of_next hnext
  obtain ⟨rest', hsequence'⟩ := exists_sequence_of_next hnext'
  have hvalues := hlexes.sequence_eq.trans hlexes'.sequence_eq.symm
  rw [hsequence, hsequence'] at hvalues
  have hvalue : t.value = t'.value := List.head_eq_of_cons_eq hvalues
  refine ⟨t, t', q, q', hnext, hnext', ⟨hvalue, h.span_faces hsequence hsequence'⟩, ?_⟩
  intro hend
  have hend' : t'.value ≠ .endOfInput := hvalue ▸ hend
  obtain ⟨ws, rfl, hq⟩ := (lexes_iff_of_next hnext hend).mp hlexes
  obtain ⟨ws', hws, hq'⟩ := (lexes_iff_of_next hnext' hend').mp hlexes'
  obtain rfl : ws = ws' := List.tail_eq_of_cons_eq hws
  obtain ⟨k, hk, hk'⟩ := h.sequences
  refine ⟨⟨ws, hq, hq'⟩, k + 1, ?_, ?_⟩
  · rw [← List.tail_drop, ← hk, sequence_of_next hnext hend, List.tail_cons]
  · rw [← List.tail_drop, ← hk', sequence_of_next hnext' hend', List.tail_cons]

/-- A look finds the same token in both streams, which stay abreast. -/
theorem exists_peek (h : s.Abreast us vs s') :
    ∃ t t' q q', s.peek = (.ok t, q) ∧ s'.peek = (.ok t', q') ∧ t.Faces us vs t' ∧
      q.Abreast us vs q' := by
  obtain ⟨t, t', _, _, hnext, hnext', hfaces, -⟩ := h.exists_next
  obtain ⟨q, hpeek⟩ := exists_peek_of_next hnext
  obtain ⟨q', hpeek'⟩ := exists_peek_of_next hnext'
  refine ⟨t, t', q, q', hpeek, hpeek', hfaces, ?_, ?_⟩
  · obtain ⟨ts, hlexes, hlexes'⟩ := h.lexes
    rw [Lexes, tokens_of_peek hpeek] at hlexes
    rw [Lexes, tokens_of_peek hpeek'] at hlexes'
    exact ⟨ts, hlexes, hlexes'⟩
  · rw [← sequence_of_peek hpeek, ← sequence_of_peek hpeek']
    exact h.sequences

end Abreast

end TokenStream

/-! ## Readings -/

/-- What two readings come to: results that correspond and streams that are abreast, or diagnostics
that face each other. -/
inductive SameOutcome {α : Type} (us vs : List (Located Token)) (P : α → α → Prop) :
    Except Diagnostic α × TokenStream → Except Diagnostic α × TokenStream → Prop where
  | ok {a a' : α} {q q' : TokenStream} : P a a' → q.Abreast us vs q' →
    SameOutcome us vs P (.ok a, q) (.ok a', q')
  | error {d d' : Diagnostic} {q q' : TokenStream} : d.Faces us vs d' →
    SameOutcome us vs P (.error d, q) (.error d', q')

namespace SameOutcome

variable {α β : Type} {P : α → α → Prop} {Q : β → β → Prop} {s s' : TokenStream}

/-- Failing in the same way at places that face each other is the same outcome. -/
theorem fail {problem problem' : Problem} {a b : Span} (hproblem : problem.Faces us vs problem')
    (hspan : a.Faces us vs b) :
    SameOutcome us vs P (Reading.fail (.atSpan problem a) s)
      (Reading.fail (.atSpan problem' b) s') :=
  .error (hproblem.diagnostic hspan)

/-- Two readings that succeed, and what follows them. -/
theorem bind_of_ok {m m' : Reading Diagnostic α} {f f' : α → Reading Diagnostic β} {a a' : α}
    {q q' : TokenStream} (hx : m s = (.ok a, q)) (hx' : m' s' = (.ok a', q'))
    (hf : SameOutcome us vs Q (f a q) (f' a' q')) :
    SameOutcome us vs Q ((m >>= f) s) ((m' >>= f') s') := by
  rwa [Reading.bind_of_ok hx, Reading.bind_of_ok hx']

/-- Readings of the same outcome have one in sequence if they have one in each step. -/
theorem bind {m m' : Reading Diagnostic α} {f f' : α → Reading Diagnostic β}
    (hm : SameOutcome us vs P (m s) (m' s'))
    (hf : ∀ (a a' : α) (q q' : TokenStream), m s = (.ok a, q) → P a a' → q.Abreast us vs q' →
      SameOutcome us vs Q (f a q) (f' a' q')) :
    SameOutcome us vs Q ((m >>= f) s) ((m' >>= f') s') := by
  generalize hx : m s = x at hm
  generalize hx' : m' s' = x' at hm
  cases hm with
  | ok ha hq => exact bind_of_ok hx hx' (hf _ _ _ _ hx ha hq)
  | error hd =>
    rw [Reading.bind_of_error hx, Reading.bind_of_error hx']
    exact .error hd

/-- Taking a token that may be the end of input. -/
theorem next {f f' : Located Token → Reading Diagnostic β} (h : s.Abreast us vs s')
    (hf : ∀ (value : Token) (a b : Span) (q q' : TokenStream),
      s.next = (.ok ⟨value, a⟩, q) → a.Faces us vs b → (value ≠ .endOfInput → q.Abreast us vs q') →
      SameOutcome us vs Q (f ⟨value, a⟩ q) (f' ⟨value, b⟩ q')) :
    SameOutcome us vs Q ((Reading.next >>= f) s) ((Reading.next >>= f') s') := by
  obtain ⟨⟨value, a⟩, ⟨_, b⟩, q, q', hnext, hnext', ⟨rfl, hspan⟩, hq⟩ := h.exists_next
  exact bind_of_ok hnext hnext' (hf value a b q q' hnext hspan hq)

/-- Looking at the next token from streams that are abreast finds tokens that face each other. -/
theorem peek {f f' : Located Token → Reading Diagnostic β} (h : s.Abreast us vs s')
    (hf : ∀ (value : Token) (a b : Span) (q q' : TokenStream),
      s.peek = (.ok ⟨value, a⟩, q) → a.Faces us vs b → q.Abreast us vs q' →
      SameOutcome us vs Q (f ⟨value, a⟩ q) (f' ⟨value, b⟩ q')) :
    SameOutcome us vs Q ((Reading.peek >>= f) s) ((Reading.peek >>= f') s') := by
  obtain ⟨⟨value, a⟩, ⟨_, b⟩, q, q', hpeek, hpeek', ⟨rfl, hspan⟩, hq⟩ := h.exists_peek
  exact bind_of_ok hpeek hpeek' (hf value a b q q' hpeek hspan hq)

/-- Taking a word from streams that are abreast takes none or words that face each other. -/
theorem nextWord? {f f' : Option (Located String) → Reading Diagnostic β}
    (h : s.Abreast us vs s')
    (hnone : ∀ q q' : TokenStream, q.Abreast us vs q' → SameOutcome us vs Q (f none q) (f' none q'))
    (hsome : ∀ (text : String) (a b : Span) (q q' : TokenStream),
      s.nextWord? = (.ok (some ⟨text, a⟩), q) → a.Faces us vs b → q.Abreast us vs q' →
      SameOutcome us vs Q (f (some ⟨text, a⟩) q) (f' (some ⟨text, b⟩) q')) :
    SameOutcome us vs Q ((Reading.nextWord? >>= f) s) ((Reading.nextWord? >>= f') s') := by
  obtain ⟨⟨value, a⟩, ⟨_, b⟩, q, q', hpeek, hpeek', ⟨rfl, hspan⟩, hq⟩ := h.exists_peek
  cases value with
  | word text =>
    have hword : s.nextWord? = (.ok (some ⟨text, a⟩), q.next.2) := by
      rw [TokenStream.nextWord?, hpeek]
    have hword' : s'.nextWord? = (.ok (some ⟨text, b⟩), q'.next.2) := by
      rw [TokenStream.nextWord?, hpeek']
    -- what was looked at is taken, and it is not the end of input
    obtain ⟨t, t', p, p', hnext, hnext', -, hp⟩ := hq.exists_next
    have hsame := TokenStream.next_of_peeked (TokenStream.peeked_of_peek hpeek)
    rw [hnext, Prod.mk.injEq, Except.ok.injEq] at hsame
    have hbehind : q.next.2.Abreast us vs q'.next.2 := by
      rw [hnext, hnext']
      exact hp (by simp [hsame.1])
    exact bind_of_ok hword hword' (hsome text a b _ _ hword hspan hbehind)
  | _ =>
    have hother : s.nextWord? = (.ok none, q) := by rw [TokenStream.nextWord?, hpeek]
    have hother' : s'.nextWord? = (.ok none, q') := by rw [TokenStream.nextWord?, hpeek']
    exact bind_of_ok hother hother' (hnone q q' hq)

end SameOutcome

end CommandTree
