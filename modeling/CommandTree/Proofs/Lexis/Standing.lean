import CommandTree.Proofs.Source.TextLines
import CommandTree.Text.Bytes
import CommandTree.Token.Quoted

/-!
# Readers of undamaged texts

A reader takes an undamaged text a line at a time, but what it hands out does not depend on where
the lines end. `Reader.Stands` says where in a text a reader stands by what is in front of it and
what is behind it, and the lemmas below say how each operation moves it. The only place where lines
could show is the look at two characters at once. It sees no further than the current line, but a
line that does not end in a newline is the last one.
-/

set_option autoImplicit false

namespace CommandTree

namespace Source

/-- The first line of a text ends in a newline unless it is the last one, and the other lines are
those of the text behind it. -/
theorem ofChars_cons (c : Char) (cs : List Char) :
    ∃ others rest, cs = others ++ rest ∧
      ofChars (c :: cs) = ⟨.text c others :: (ofChars rest).lines, .endOfInput⟩ ∧
      (rest ≠ [] → (c :: others).getLast? = some '\n') := by
  obtain ⟨others, rest, hcs, hlines, hlast⟩ := exists_textLines_cons c cs
  refine ⟨others, rest, hcs, ?_, hlast⟩
  rw [ofChars_eq, ofChars_eq, hlines]
  rfl

end Source

namespace Reader

variable {r : Reader} {before behind : List Char}

/-- The reader stands in an undamaged text, behind `before` and in front of `behind`. -/
structure Stands (r : Reader) (before behind : List Char) : Prop where
  /-- The offset counts the bytes in front. -/
  offset_eq : r.offset = Bytes.count before
  /-- The line counts the newlines in front. -/
  line_eq : r.line = 1 + before.count '\n'
  /-- Pending are the characters behind, up to the end of a line. -/
  pending_eq : ∃ rest, r.ahead = Source.ofChars rest ∧ behind = r.pending ++ rest ∧
    (rest ≠ [] → r.pending ≠ [] → r.pending.getLast? = some '\n')

/-- The reader stands in front of `behind`, and has a character pending if there is one. -/
structure Faces (r : Reader) (before behind : List Char) : Prop extends Stands r before behind where
  /-- Nothing is pending only at the end of the text. -/
  pending_ne_nil : behind ≠ [] → r.pending ≠ []

/-- A reader over an undamaged text stands in front of all of it. -/
theorem stands_ofSource (text : List Char) :
    (ofSource (Source.ofChars text)).Stands [] text :=
  ⟨rfl, rfl, text, rfl, rfl, fun _ h => absurd rfl h⟩

/-- Making the next character available leaves the reader where it stands. -/
theorem Stands.fill (h : r.Stands before behind) :
    ∃ r', r.fill = (.ok (), r') ∧ r'.Faces before behind := by
  obtain ⟨pending, offset, line, loaded, ahead⟩ := r
  obtain ⟨hoffset, hline, rest, rfl, rfl, hlast⟩ := h
  cases pending with
  | cons c others => exact ⟨_, rfl, ⟨hoffset, hline, rest, rfl, rfl, hlast⟩, fun _ => by simp⟩
  | nil =>
    cases rest with
    | nil => exact ⟨_, rfl, ⟨hoffset, hline, [], rfl, rfl, hlast⟩, fun h => absurd rfl h⟩
    | cons c cs =>
      obtain ⟨others, rest, rfl, hlines, hnew⟩ := Source.ofChars_cons c cs
      refine ⟨⟨c :: others, offset, line, (c :: others) :: loaded, Source.ofChars rest⟩, ?_,
        ⟨hoffset, hline, rest, rfl, rfl, fun h _ => hnew h⟩, fun _ => by simp⟩
      simp only [Reader.fill, hlines]
      rfl

namespace Faces

/-- In front of nothing, nothing is pending. -/
theorem pending_nil (h : r.Faces before []) : r.pending = [] := by
  obtain ⟨rest, _, heq, _⟩ := h.pending_eq
  exact (List.append_eq_nil_iff.mp heq.symm).1

/-- What is pending starts as the text behind the reader does. -/
theorem pending_cons {c : Char} {cs : List Char} (h : r.Faces before (c :: cs)) :
    ∃ others, r.pending = c :: others := by
  obtain ⟨rest, _, heq, _⟩ := h.pending_eq
  cases hp : r.pending with
  | nil => exact absurd hp (h.pending_ne_nil (by simp))
  | cons d others =>
    rw [hp] at heq
    simp only [List.cons_append, List.cons.injEq] at heq
    exact ⟨others, by rw [heq.1]⟩

/-- The first pending character is the next one of the text. -/
theorem head?_pending (h : r.Faces before behind) : r.pending.head? = behind.head? := by
  cases behind with
  | nil => rw [h.pending_nil]
  | cons c cs =>
    obtain ⟨others, hp⟩ := h.pending_cons
    rw [hp]
    rfl

/-- Handing out a character moves the reader past it. -/
theorem advance {c : Char} {cs : List Char} (h : r.Faces before (c :: cs)) :
    r.advance.Stands (before ++ [c]) cs := by
  obtain ⟨others, hp⟩ := h.pending_cons
  obtain ⟨rest, hahead, heq, hlast⟩ := h.pending_eq
  rw [hp] at heq hlast
  simp only [List.cons_append, List.cons.injEq, true_and] at heq
  unfold Reader.advance
  rw [hp]
  refine ⟨?_, ?_, rest, hahead, heq, fun hrest hothers => ?_⟩
  · simp [h.offset_eq]
  · by_cases hc : c = '\n' <;> simp [h.line_eq, hc, Nat.add_assoc]
  · have hnew := hlast hrest (by simp)
    cases others with
    | nil => exact absurd rfl hothers
    | cons d others => simpa using hnew

/-- Behind a slash the next character is pending as well: a slash that ends a line is the last
character of the text. -/
theorem second_pending {others cs : List Char} (h : r.Faces before ('/' :: cs))
    (hp : r.pending = '/' :: others) : others.head? = cs.head? := by
  obtain ⟨rest, _, heq, hlast⟩ := h.pending_eq
  rw [hp] at heq hlast
  simp only [List.cons_append, List.cons.injEq, true_and] at heq
  subst heq
  cases others with
  | cons d others => rfl
  | nil =>
    cases rest with
    | nil => rfl
    | cons d rest => simp at hlast

/-- Past a slash the reader still has a character pending if there is one. -/
theorem advance_slash {cs : List Char} (h : r.Faces before ('/' :: cs)) :
    r.advance.Faces (before ++ ['/']) cs := by
  refine ⟨h.advance, fun hcs => ?_⟩
  obtain ⟨others, hp⟩ := h.pending_cons
  have hsecond := h.second_pending hp
  unfold Reader.advance
  rw [hp]
  rintro rfl
  cases cs with
  | nil => exact hcs rfl
  | cons c cs => simp at hsecond

/-- A line comment starts in what is pending if it starts in the text, because both slashes are on
one line. -/
theorem startsLineComment_pending (h : r.Faces before behind) :
    Trivia.startsLineComment r.pending = Trivia.startsLineComment behind := by
  cases behind with
  | nil => rw [h.pending_nil]
  | cons c cs =>
    obtain ⟨others, hp⟩ := h.pending_cons
    rw [hp, Trivia.startsLineComment_cons, Trivia.startsLineComment_cons]
    by_cases hc : c = '/'
    · subst hc
      rw [h.second_pending hp]
    · rw [beq_eq_false_iff_ne.mpr hc, Bool.false_and, Bool.false_and]

/-- A block comment starts in what is pending if it starts in the text, because both characters are
on one line. -/
theorem startsBlockComment_pending (h : r.Faces before behind) :
    Trivia.startsBlockComment r.pending = Trivia.startsBlockComment behind := by
  cases behind with
  | nil => rw [h.pending_nil]
  | cons c cs =>
    obtain ⟨others, hp⟩ := h.pending_cons
    rw [hp, Trivia.startsBlockComment_cons, Trivia.startsBlockComment_cons]
    by_cases hc : c = '/'
    · subst hc
      rw [h.second_pending hp]
    · rw [beq_eq_false_iff_ne.mpr hc, Bool.false_and, Bool.false_and]

/-- What is pending carries a word on if the text does. -/
theorem continues_pending (h : r.Faces before behind) :
    Word.continues r.pending = Word.continues behind := by
  simp only [Word.continues, Trivia.startsComment, h.head?_pending, h.startsLineComment_pending,
    h.startsBlockComment_pending]

end Faces

namespace Stands

/-- Behind all text no character is handed out. -/
theorem next_nil (h : r.Stands before []) :
    ∃ r', r.next = (.ok none, r') ∧ r'.Stands before [] := by
  obtain ⟨q, hfill, hq⟩ := h.fill
  refine ⟨q, ?_, hq.toStands⟩
  simp [Reader.next, hfill, Reader.advance, hq.pending_nil]

/-- The next character is handed out, and the reader stands behind it. -/
theorem next_cons {c : Char} {cs : List Char} (h : r.Stands before (c :: cs)) :
    ∃ r', r.next = (.ok (some c), r') ∧ r'.Stands (before ++ [c]) cs := by
  obtain ⟨q, hfill, hq⟩ := h.fill
  refine ⟨q.advance, ?_, hq.advance⟩
  simp [Reader.next, hfill, hq.head?_pending]

/-- A look finds the next character and leaves it in place. -/
theorem peek (h : r.Stands before behind) :
    ∃ r', r.peek = (.ok behind.head?, r') ∧ r'.Faces before behind := by
  obtain ⟨q, hfill, hq⟩ := h.fill
  refine ⟨q, ?_, hq⟩
  simp [Reader.peek, hfill, hq.head?_pending]

end Stands

end Reader

end CommandTree
