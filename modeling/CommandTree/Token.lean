/-!
# Tokens

A command file is a sequence of words and three structural characters. A word carries its text
after quotes and escapes have been removed, so a bare and a quoted spelling of one text are the
same token.
-/

set_option autoImplicit false

namespace CommandTree

/-- One lexical unit of a command file. -/
inductive Token where
  /-- An opening brace. -/
  | openScope
  /-- A closing brace. -/
  | closeScope
  /-- A semicolon. -/
  | terminator
  /-- A bare or quoted word. -/
  | word (text : String)
  /-- The end of the source, which repeats for ever. -/
  | endOfInput
deriving DecidableEq, Repr

namespace Token

/-- Whether the token is a word. -/
def isWord : Token → Bool
  | word _ => true
  | _ => false

/-- The text of a word. -/
def word? : Token → Option String
  | word text => some text
  | _ => none

/-- The name of the token in messages of the form "expected this, found that". -/
def describe : Token → String
  | openScope => "'\x7b'"
  | closeScope => "'\x7d'"
  | terminator => "';'"
  | word text => "word '" ++ text ++ "'"
  | endOfInput => "end of input"

/-- A token is a word if it has a text. -/
theorem isWord_iff (t : Token) : t.isWord = true ↔ ∃ text, t = word text := by
  cases t <;> simp [isWord]

end Token

end CommandTree
