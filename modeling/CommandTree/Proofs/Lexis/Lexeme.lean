import CommandTree.Text.Bytes
import CommandTree.TokenStream

/-!
# The lexical grammar

This module says what the tokens of a text are without a reader: which stretches of a text are
trivia, which stretch is a token and what the token is, and how a whole text is made up of the two.
Every rule is about a stretch and what stands behind it, because where a stretch ends depends on
both. A line comment that is not closed, for instance, is trivia at the end of the text only.

`Tiles` puts the rules together: a text is trivia and tokens in turn, up to the end of the text or
to a character that starts no token.
-/

set_option autoImplicit false

namespace CommandTree.Lexis

/-! ## Trivia -/

/-- The stretch `gap` is trivia in front of `behind`: blanks, line comments through their newline
and block comments through the first star and slash after their opener. An open comment is trivia
when nothing stands behind it. -/
inductive Gap : (gap behind : List Char) → Prop where
  /-- No character at all. -/
  | nothing (behind : List Char) : Gap [] behind
  /-- A blank. -/
  | blank {c : Char} {gap behind : List Char} :
    Trivia.isBlank c = true → Gap gap behind → Gap (c :: gap) behind
  /-- A line comment with its newline. -/
  | lineComment {body gap behind : List Char} :
    '\n' ∉ body → Gap gap behind → Gap ('/' :: '/' :: (body ++ '\n' :: gap)) behind
  /-- A line comment at the end of the text. -/
  | openLineComment {body : List Char} : '\n' ∉ body → Gap ('/' :: '/' :: body) []
  /-- A block comment with its closing star and slash. -/
  | blockComment {body gap behind : List Char} :
    ¬ ['*', '/'] <:+: body → Gap gap behind →
      Gap ('/' :: '*' :: (body ++ '*' :: '/' :: gap)) behind
  /-- A block comment that the end of the text cuts off. -/
  | openBlockComment {body : List Char} : ¬ ['*', '/'] <:+: body → Gap ('/' :: '*' :: body) []

/-! ## Words -/

/-- The stretch `slice` is a bare word in front of `behind`. -/
structure BareWord (slice behind : List Char) : Prop where
  /-- A word has a character. -/
  ne_nil : slice ≠ []
  /-- It has no other characters than those of words. -/
  wordChars : ∀ c ∈ slice, Word.isWordChar c = true
  /-- No comment starts in it, nor at its last character with the one behind it. -/
  noComment : ∀ tail, tail ≠ [] → tail <:+ slice → Trivia.startsComment (tail ++ behind) = false
  /-- It is maximal: what stands behind it does not carry it on. -/
  maximal : Word.continues behind = false

/-- The number that octal digits stand for, when those before came to `value`. -/
def octalValue (value : Nat) (digits : List Char) : Nat :=
  digits.foldl (fun n c => n * 8 + (Quoted.octalDigit? c).getD 0) value

/-- The octal digits `others` are those that belong to an escape whose first digit has the value
`first`: there are as many as there may be, or `behind` goes on with something else. -/
structure OctalDigits (first : Nat) (others behind : List Char) : Prop where
  /-- They are octal digits. -/
  digits : ∀ c ∈ others, (Quoted.octalDigit? c).isSome = true
  /-- There are not too many of them. -/
  length_le : others.length ≤ Quoted.octalDigitsAfter first
  /-- There are not too few. -/
  maximal : others.length = Quoted.octalDigitsAfter first ∨
    behind.head?.bind Quoted.octalDigit? = none

/-- What stands between the quotes of a quoted word, and the text that it spells. No quote, newline
or carriage return stands in a body unless a backslash is in front of it. -/
inductive Spells : (body text : List Char) → Prop where
  /-- Nothing spells the empty text. -/
  | nil : Spells [] []
  /-- Most characters stand for themselves. -/
  | plain {c : Char} {body text : List Char} :
    c ≠ '"' → c ≠ '\\' → Quoted.isLineEnd c = false → Spells body text →
      Spells (c :: body) (c :: text)
  /-- A backslash and a character that is no octal digit stand for a control character, or else for
  the character. -/
  | escape {c : Char} {body text : List Char} :
    Quoted.octalDigit? c = none → Spells body text →
      Spells ('\\' :: c :: body) ((Quoted.controlOfLetter c).getD c :: text)
  /-- A backslash and octal digits stand for the character of that number. -/
  | octal {c : Char} {first : Nat} {others body text : List Char} :
    Quoted.octalDigit? c = some first → OctalDigits first others body → Spells body text →
      Spells ('\\' :: c :: (others ++ body)) (Char.ofNat (octalValue first others) :: text)

/-- How a quoted word ends. -/
inductive Closes : (closing behind : List Char) → Prop where
  /-- With a quote, which belongs to the word. -/
  | quote (behind : List Char) : Closes ['"'] behind
  /-- In front of a newline or a carriage return. -/
  | lineEnd {c : Char} (behind : List Char) : Quoted.isLineEnd c = true → Closes [] (c :: behind)
  /-- At the end of the text. -/
  | atEnd : Closes [] []
  /-- At the end of the text with a backslash that has nothing to escape. -/
  | backslashAtEnd : Closes ['\\'] []

/-! What no word goes on with changes nothing about the words in front of it. -/

section

variable {cs slice behind rest : List Char}

/-- No comment starts because of text behind that cannot carry a word on. -/
theorem startsComment_append (hrest : rest.head?.any Word.isWordChar = false) (cs : List Char) :
    Trivia.startsComment (cs ++ rest) = Trivia.startsComment cs := by
  have hhead : ∀ c, Word.isWordChar c = true → rest.head? ≠ some c := by
    intro c hc hsome
    rw [hsome, Option.any_some, hc] at hrest
    contradiction
  have hslash := hhead '/' rfl
  have hstar := hhead '*' rfl
  cases cs with
  | nil =>
    cases rest with
    | nil => rfl
    | cons c rest =>
      have hc : c ≠ '/' := by simpa using hslash
      rw [List.nil_append, Trivia.startsComment, Trivia.startsLineComment_cons,
        Trivia.startsBlockComment_cons, beq_eq_false_iff_ne.mpr hc]
      rfl
  | cons c cs =>
    simp only [Trivia.startsComment, List.cons_append, Trivia.startsLineComment_cons,
      Trivia.startsBlockComment_cons]
    cases cs with
    | nil => simp [hslash, hstar]
    | cons d cs => rfl

/-- No word is carried on by text behind that cannot carry a word on. -/
theorem continues_append (hrest : rest.head?.any Word.isWordChar = false) (cs : List Char) :
    Word.continues (cs ++ rest) = Word.continues cs := by
  rw [Word.continues, Word.continues, startsComment_append hrest]
  cases cs with
  | nil => rw [List.nil_append, hrest, List.head?_nil, Option.any_none]
  | cons c cs => rfl

/-- A bare word stays one in front of more text that cannot carry it on. -/
theorem BareWord.append (h : BareWord slice behind)
    (hrest : rest.head?.any Word.isWordChar = false) : BareWord slice (behind ++ rest) := by
  refine ⟨h.ne_nil, h.wordChars, fun tail hne htail => ?_, ?_⟩
  · rw [← List.append_assoc, startsComment_append hrest]
    exact h.noComment tail hne htail
  · rw [continues_append hrest]
    exact h.maximal

end

/-! ## Tokens -/

/-- The stretch `slice` is a token in front of `behind`. -/
inductive Lexeme : (slice behind : List Char) → Token → Prop where
  /-- An opening brace. -/
  | openScope (behind : List Char) : Lexeme ['{'] behind .openScope
  /-- A closing brace. -/
  | closeScope (behind : List Char) : Lexeme ['}'] behind .closeScope
  /-- A semicolon. -/
  | terminator (behind : List Char) : Lexeme [';'] behind .terminator
  /-- A bare word, which is its own text. -/
  | bare {slice behind : List Char} :
    BareWord slice behind → Lexeme slice behind (.word (String.ofList slice))
  /-- A quoted word, whose text is what its body spells. -/
  | quoted {body text closing behind : List Char} :
    Spells body text → Closes closing behind →
      Lexeme ('"' :: (body ++ closing)) behind (.word (String.ofList text))

/-- Whether a token can start with a character. -/
def startsToken (c : Char) : Bool :=
  c == '{' || c == '}' || c == ';' || c == '"' || Word.isWordChar c

/-! ## Texts -/

/-- The span of the stretch `slice` behind `before`. -/
def spanAt (before slice : List Char) : Span :=
  ⟨Bytes.count before, Bytes.count (before ++ slice), 1 + before.count '\n'⟩

/-- Behind `before`, the text `behind` is made up of trivia and the given tokens, up to what ends
it: the end of the text, or a failure at a character that starts no token. -/
inductive Tiles : (before behind : List Char) →
    List (Located Token) → Except Diagnostic (Located Token) → Prop where
  /-- Only trivia is left, and the end of input is at the end of the text. -/
  | done {before gap : List Char} : Gap gap [] →
    Tiles before gap [] (.ok ⟨.endOfInput, spanAt (before ++ gap) []⟩)
  /-- Behind trivia stands a character that is neither blank nor the start of a token. -/
  | failed {before gap behind : List Char} {c : Char} :
    Gap gap (c :: behind) → Trivia.isBlank c = false → startsToken c = false →
      Tiles before (gap ++ c :: behind) []
        (.error (.atSpan (.unknownCharacter c) (spanAt (before ++ gap) [c])))
  /-- Behind trivia stands a token, and behind the token the rest. -/
  | token {before gap slice behind : List Char} {value : Token} {tokens : List (Located Token)}
      {ending : Except Diagnostic (Located Token)} :
    Gap gap (slice ++ behind) → Lexeme slice behind value →
      Tiles (before ++ gap ++ slice) behind tokens ending →
      Tiles before (gap ++ (slice ++ behind))
        (⟨value, spanAt (before ++ gap) slice⟩ :: tokens) ending

end CommandTree.Lexis
