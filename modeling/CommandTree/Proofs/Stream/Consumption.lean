import CommandTree.Proofs.Stream.Sequence

/-!
# What scanning consumes

A stream over an undamaged text always stands somewhere in it, whatever was called. A scan that
finds a token passes trivia and the characters of the token, of which there is at least one. A word
without characters is a quoted one, and its quote was passed. So there are at most as many tokens as
characters.
-/

set_option autoImplicit false

namespace CommandTree

namespace Lexis

variable {before behind slice : List Char} {tokens : List (Located Token)}
  {ending : Except Diagnostic (Located Token)}

/-- A bare word has characters, so a word without any is quoted. -/
theorem Lexeme.head?_of_empty {value : Token} (h : Lexeme slice behind value)
    (hvalue : value = .word "") : slice.head? = some '"' := by
  cases h with
  | bare hword =>
    have hempty := String.ofList_eq_empty_iff.mp (Token.word.inj hvalue)
    exact absurd hempty hword.ne_nil
  | quoted => rfl
  | _ => contradiction

/-- A text has no more tokens than characters. -/
theorem Tiles.length_le (h : Tiles before behind tokens ending) :
    tokens.length ≤ behind.length := by
  induction h with
  | done => exact Nat.zero_le _
  | failed => exact Nat.zero_le _
  | token _ hlexeme _ ih =>
    have hpos := List.length_pos_iff.mpr hlexeme.ne_nil
    simp only [List.length_cons, List.length_append]
    omega

end Lexis

namespace TokenStream

open Lexis

variable {s s' : TokenStream} {before behind : List Char} {t : Located Token}

/-- The scan passes trivia and then the characters of the token that it finds. -/
structure Cuts (text : List Char) (s : TokenStream) (t : Located Token) (s' : TokenStream)
    (slice : List Char) : Prop where
  /-- The characters are those of the text, behind what was passed before. -/
  places : ∃ before gap behind, text = before ++ (gap ++ (slice ++ behind)) ∧
    s.reader.offset = Bytes.count before ∧ Gap gap (slice ++ behind) ∧
    t.span = spanAt (before ++ gap) slice ∧ Lexeme slice behind t.value ∧
    s'.reader.offset = Bytes.count (before ++ gap ++ slice)
  /-- There is at least one. -/
  ne_nil : slice ≠ []
  /-- A word without characters is quoted. -/
  head?_of_empty : t.value = .word "" → slice.head? = some '"'

/-- A scan passes trivia and a token, or it finds none and stops behind the trivia. -/
theorem scan_of_stands (h : s.reader.Stands before behind) :
    ∃ gap rest, behind = gap ++ rest ∧ Gap gap rest ∧
      ((∃ slice tail value, rest = slice ++ tail ∧ Lexeme slice tail value ∧
          s.scan.1 = .ok ⟨value, spanAt (before ++ gap) slice⟩ ∧
          s.scan.2.reader.Stands (before ++ gap ++ slice) tail) ∨
        ((∀ t, s.scan.1 = .ok t → t.value = .endOfInput) ∧
          s.scan.2.reader.Stands (before ++ gap) rest)) := by
  obtain ⟨gap, rest, rfl, hgap, hends⟩ := exists_gap behind
  obtain ⟨r, hskip, hr⟩ := Trivia.skip_of_gap hgap hends h
  refine ⟨gap, rest, rfl, hgap, ?_⟩
  cases rest with
  | nil =>
    have htoken := readToken_of_nil hr
    right
    simp only [scan, hskip, htoken]
    refine ⟨?_, hr.toStands⟩
    intro t ht
    rw [← Except.ok.inj ht]
  | cons c cs =>
    cases hc : startsToken c with
    | true =>
      obtain ⟨slice, tail, value, heq, -, hlexeme⟩ := exists_lexeme hends hc
      rw [heq] at hr
      obtain ⟨r', htoken, hr'⟩ := readToken_of_lexeme hlexeme hr
      left
      refine ⟨slice, tail, value, heq, hlexeme, ?_⟩
      simp only [scan, hskip, htoken]
      exact ⟨trivial, hr'⟩
    | false =>
      have htoken := readToken_of_unknown hc hr
      right
      simp only [scan, hskip, htoken]
      refine ⟨?_, hr.toStands⟩
      intro t ht
      contradiction

/-- A scanned token is cut out of the text behind trivia. -/
theorem cuts_of_scan {text : List Char} (htext : text = before ++ behind)
    (h : s.reader.Stands before behind) (hscan : s.scan = (.ok t, s'))
    (ht : t.value ≠ .endOfInput) : ∃ slice, s.Cuts text t s' slice := by
  obtain ⟨gap, rest, rfl, hgap, hfinds | ⟨hend, -⟩⟩ := scan_of_stands h
  · obtain ⟨slice, tail, value, rfl, hlexeme, hvalue, hstands⟩ := hfinds
    rw [hscan] at hvalue hstands
    obtain rfl := Except.ok.inj hvalue
    exact ⟨slice, ⟨before, gap, tail, htext, h.offset_eq, hgap, rfl, hlexeme,
      hstands.offset_eq⟩, hlexeme.ne_nil, hlexeme.head?_of_empty⟩
  · exact absurd (hend t (by rw [hscan])) ht

/-- Every call leaves the reader as it is or as a scan does. -/
theorem reader_next (s : TokenStream) :
    s.next.2.reader = s.reader ∨ s.next.2.reader = s.scan.2.reader := by
  unfold next
  split
  · exact .inl rfl
  · exact .inr rfl

/-- A look reads nothing, or what a scan reads. -/
theorem reader_peek (s : TokenStream) :
    s.peek.2.reader = s.reader ∨ s.peek.2.reader = s.scan.2.reader := by
  unfold peek
  split
  · exact .inl rfl
  · split
    · rename_i hscan
      exact .inr (by rw [hscan])
    · rename_i hscan
      exact .inr (by rw [hscan])

/-- The reader stands in the text. -/
def StandsIn (text : List Char) (s : TokenStream) : Prop :=
  ∃ before behind, text = before ++ behind ∧ s.reader.Stands before behind

/-- Scanning keeps a reader in the text. -/
theorem StandsIn.scan {text : List Char} (h : s.StandsIn text) : s.scan.2.StandsIn text := by
  obtain ⟨before, behind, rfl, hstands⟩ := h
  obtain ⟨gap, rest, rfl, -, ⟨slice, tail, value, rfl, -, -, hs⟩ | ⟨-, hs⟩⟩ :=
    scan_of_stands hstands
  · exact ⟨_, _, by simp only [List.append_assoc], hs⟩
  · exact ⟨_, _, (List.append_assoc before gap rest).symm, hs⟩

/-- A reader that stays or that scans keeps in the text. -/
theorem StandsIn.of_reader {text : List Char} (h : s.StandsIn text)
    (hreader : s'.reader = s.reader ∨ s'.reader = s.scan.2.reader) : s'.StandsIn text := by
  rcases hreader with hsame | hscan
  · rwa [StandsIn, hsame]
  · rw [StandsIn, hscan]
    exact h.scan

/-- Whatever is done with a stream, its reader keeps in the text. -/
theorem StandsIn.of_reaches {text : List Char} (h : s.StandsIn text) (hreach : s.Reaches s') :
    s'.StandsIn text := by
  induction hreach with
  | refl => exact h
  | next _ ih => exact ih (h.of_reader (reader_next _))
  | peek _ ih => exact ih (h.of_reader (reader_peek _))

/-- A stream over a text starts in that text. -/
theorem standsIn_ofString (text : String) : (ofSource (.ofString text)).StandsIn text.toList :=
  ⟨[], text.toList, rfl, (stands_ofString text).reader⟩

/-- There are at most as many tokens as characters. -/
theorem length_tokens_le (text : String) :
    (ofSource (.ofString text)).tokens.1.length ≤ text.length := by
  obtain ⟨tokens, ending, htiles⟩ := exists_tiles [] text.toList
  rw [tokens_of_tiles htiles (stands_ofString text), ← String.length_toList]
  exact htiles.length_le

end TokenStream

end CommandTree
