import CommandTree.Proofs.Lexis.Tiling
import CommandTree.Proofs.Stream.Upcoming

/-!
# Written words are read back

A word is written bare where that reads as the word, and otherwise between quotes. In both cases the
written form is one token in front of anything that no word goes on with, such as a blank, a
semicolon or the end of the text, whatever characters the word has.

`Lexis.Reads` says which tokens a text consists of, without their places. It is built from the end
of a text to its start, so every rule puts something in front of a text that reads already.
-/

set_option autoImplicit false

namespace CommandTree

namespace Lexis

/-! ## Texts and their tokens -/

/-- The text consists of the given tokens, wherever it stands. -/
def Reads (text : List Char) (values : List Token) : Prop :=
  ∀ before, ∃ tokens last, Tiles before text tokens (.ok last) ∧
    tokens.map Located.value = values

namespace Reads

variable {text : List Char} {values : List Token}

/-- The empty text consists of no tokens. -/
theorem nil : Reads [] [] := fun _ => ⟨[], _, .done (.nothing []), rfl⟩

/-- A blank in front of a text does not change its tokens. -/
theorem blank {c : Char} (hc : Trivia.isBlank c = true) (h : Reads text values) :
    Reads (c :: text) values := by
  intro before
  obtain ⟨tokens, last, htiles, hvalues⟩ := h (before ++ [c])
  refine ⟨tokens, last, ?_, hvalues⟩
  generalize hending : Except.ok last = ending at htiles
  cases htiles with
  | done hgap => simpa using @Tiles.done before _ (.blank hc hgap)
  | failed => contradiction
  | @token _ gap slice behind value tokens _ hgap hlexeme hrest =>
    have hrest : Tiles (before ++ c :: gap ++ slice) behind tokens ending := by simpa using hrest
    simpa using Tiles.token (.blank hc hgap) hlexeme hrest

/-- A token in front of a text, which is part of what makes it a token. -/
theorem lexeme {slice : List Char} {value : Token} (hlexeme : Lexeme slice text value)
    (h : Reads text values) : Reads (slice ++ text) (value :: values) := by
  intro before
  obtain ⟨tokens, last, htiles, hvalues⟩ := h (before ++ [] ++ slice)
  refine ⟨_, last, Tiles.token (.nothing _) hlexeme htiles, ?_⟩
  rw [List.map_cons, hvalues]

/-- Any number of blanks in front of a text does not change its tokens. -/
theorem blanks (count : Nat) (h : Reads text values) :
    Reads (List.replicate count ' ' ++ text) values := by
  induction count with
  | zero => exact h
  | succ count ih => exact ih.blank (by decide)

/-- A stream over a text hands out the tokens that the text consists of. -/
theorem lexes {text : String} (h : Reads text.toList values) :
    (TokenStream.ofSource (.ofString text)).Lexes values := by
  obtain ⟨tokens, last, htiles, hvalues⟩ := h []
  exact ⟨tokens, last, TokenStream.tokens_of_tiles htiles (TokenStream.stands_ofString text),
    hvalues⟩

end Reads

/-! ## Bare words -/

/-- In a text that holds no comment none starts anywhere. -/
theorem startsComment_of_holdsComment {cs tail : List Char}
    (h : Quoted.holdsComment cs = false) (htail : tail <:+ cs) :
    Trivia.startsComment tail = false := by
  induction cs with
  | nil =>
    rw [List.suffix_nil.mp htail]
    rfl
  | cons c cs ih =>
    obtain ⟨hstart, hrest⟩ := Bool.or_eq_false_iff.mp h
    rcases List.suffix_cons_iff.mp htail with rfl | htail
    · exact hstart
    · exact ih hrest htail

/-- A text in which no comment starts anywhere holds none. -/
theorem holdsComment_of_startsComment {cs : List Char}
    (h : ∀ tail, tail ≠ [] → tail <:+ cs → Trivia.startsComment tail = false) :
    Quoted.holdsComment cs = false := by
  induction cs with
  | nil => rfl
  | cons c cs ih =>
    have hstart := h (c :: cs) (by simp) (List.suffix_refl _)
    have hrest := ih fun tail hne htail => h tail hne (htail.trans (List.suffix_cons c cs))
    rw [Quoted.holdsComment, hstart, hrest]
    rfl

/-- The texts that are written without quotes are the bare words. -/
theorem isBare_iff_bareWord (cs : List Char) : Quoted.isBare cs = true ↔ BareWord cs [] := by
  simp only [Quoted.isBare, Bool.and_eq_true, Bool.not_eq_true', List.all_eq_true,
    List.isEmpty_eq_false_iff]
  constructor
  · rintro ⟨⟨hne, hwordChars⟩, hcomment⟩
    refine ⟨hne, hwordChars, fun tail _ htail => ?_, rfl⟩
    rw [List.append_nil]
    exact startsComment_of_holdsComment hcomment htail
  · rintro ⟨hne, hwordChars, hcomment, -⟩
    refine ⟨⟨hne, hwordChars⟩, holdsComment_of_startsComment fun tail htail hsuffix => ?_⟩
    have htext := hcomment tail htail hsuffix
    rwa [List.append_nil] at htext

/-! ## Quoted words -/

/-- An escaped character spells that character in front of what the rest spells. -/
theorem spells_escape (c : Char) {body text : List Char} (h : Spells body text) :
    Spells (Quoted.escape c ++ body) (c :: text) := by
  unfold Quoted.escape
  by_cases hquote : c = '"'
  · rw [if_pos hquote, hquote]
    exact .escape rfl h
  rw [if_neg hquote]
  by_cases hbackslash : c = '\\'
  · rw [if_pos hbackslash, hbackslash]
    exact .escape rfl h
  rw [if_neg hbackslash]
  by_cases hnewline : c = '\n'
  · rw [if_pos hnewline, hnewline]
    exact .escape rfl h
  rw [if_neg hnewline]
  by_cases hreturn : c = '\r'
  · rw [if_pos hreturn, hreturn]
    exact .escape rfl h
  rw [if_neg hreturn]
  by_cases htab : c = '\t'
  · rw [if_pos htab, htab]
    exact .escape rfl h
  rw [if_neg htab]
  exact .plain hquote hbackslash (by simp [Quoted.isLineEnd, hnewline, hreturn]) h

/-- An escaped text spells that text. -/
theorem spells_flatMap_escape (cs : List Char) : Spells (cs.flatMap Quoted.escape) cs := by
  induction cs with
  | nil => exact .nil
  | cons c cs ih =>
    rw [List.flatMap_cons]
    exact spells_escape c ih

/-! ## Written words -/

/-- A text that is escaped and put in quotes is a token for that word, whatever is behind it. -/
theorem lexeme_quoted (word : String) (behind : List Char) :
    Lexeme ('"' :: (word.toList.flatMap Quoted.escape ++ ['"'])) behind (.word word) := by
  have hlexeme := Lexeme.quoted (spells_flatMap_escape word.toList) (.quote behind)
  rwa [String.ofList_toList] at hlexeme

/-- The written form of a word is one token in front of what no word goes on with. -/
theorem lexeme_write (word : String) {behind : List Char}
    (hbehind : behind.head?.any Word.isWordChar = false) :
    Lexeme (Quoted.write word).toList behind (.word word) := by
  rw [Quoted.write, String.toList_ofList, Quoted.writeChars]
  by_cases hbare : Quoted.isBare word.toList = true
  · rw [if_pos hbare]
    have hword := ((isBare_iff_bareWord _).mp hbare).append hbehind
    have hlexeme := Lexeme.bare hword
    rwa [String.ofList_toList] at hlexeme
  · rw [if_neg hbare]
    exact lexeme_quoted word behind

/-- Written words with a blank between them are read back in front of what no word goes on with. -/
theorem Reads.words (words : List String) {behind : List Char} {values : List Token}
    (hbehind : behind.head?.any Word.isWordChar = false) (h : Reads behind values) :
    Reads ((" ".intercalate (words.map Quoted.write)).toList ++ behind)
      (words.map .word ++ values) := by
  induction words with
  | nil => exact h
  | cons word words ih =>
    cases words with
    | nil => exact h.lexeme (lexeme_write word hbehind)
    | cons other words =>
      have hlexeme := (ih.blank (c := ' ') (by decide)).lexeme (lexeme_write word rfl)
      rw [List.map_cons, List.map_cons, String.intercalate_cons_cons]
      simpa using hlexeme

end Lexis

end CommandTree
