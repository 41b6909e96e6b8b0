import CommandTree.Text.Visible

/-!
# Texts shown inside messages

A message that quotes a single character or a label shows it between quotes, with a backslash
before the quote and the backslash, with letters for the common control characters and with code
points for everything else that is not visible.
-/

set_option autoImplicit false

namespace CommandTree.Escaped

/-- A code point in hexadecimal, in letters of the given case. -/
def hexadecimal (code : Nat) : List Char := Nat.toDigits 16 code

/-- A character in a message, inside the given quotes. -/
def showChar (quote c : Char) : List Char :=
  if c = quote ∨ c = '\\' then ['\\', c]
  else if c = '\x00' then ['\\', '0']
  else if c = '\t' then ['\\', 't']
  else if c = '\r' then ['\\', 'r']
  else if c = '\n' then ['\\', 'n']
  else if Visible.isVisible c then [c]
  else ['\\', 'u', '\x7b'] ++ hexadecimal c.toNat ++ ['\x7d']

/-- A single character between single quotes. -/
def char (c : Char) : String := String.ofList ('\x27' :: showChar '\x27' c ++ ['\x27'])

/-- A text between double quotes. -/
def text (s : String) : String :=
  String.ofList ('"' :: s.toList.flatMap (showChar '"') ++ ['"'])

/-- A list of texts between brackets. -/
def texts (ss : List String) : String := "[" ++ ", ".intercalate (ss.map text) ++ "]"

/-- A code point the way Unicode writes it: `U+` and at least four capital hexadecimal digits. -/
def codePoint (c : Char) : String :=
  let ds := (hexadecimal c.toNat).map Char.toUpper
  "U+" ++ String.ofList (List.replicate (4 - ds.length) '0' ++ ds)

end CommandTree.Escaped
