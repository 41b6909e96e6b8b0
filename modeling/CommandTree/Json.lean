import CommandTree.Number.Shortest

/-!
# JSON values

The values of JSON, with the fields of an object in the order in which they are written. A number
is an integer or a binary number; single precision is kept apart from double precision because
its shortest text is a different one. There is a compact and an indented text for every value.
-/

set_option autoImplicit false

namespace CommandTree

/-- A number in a JSON value. -/
inductive JsonNumber where
  /-- An integer. -/
  | integer (value : Int)
  /-- A number of single precision. -/
  | single (value : Binary Format.single)
  /-- A number of double precision. -/
  | double (value : Binary Format.double)
deriving DecidableEq

/-- A JSON value. -/
inductive Json where
  /-- The absent value. -/
  | null
  /-- A truth value. -/
  | bool (value : Bool)
  /-- A number. -/
  | number (value : JsonNumber)
  /-- A text. -/
  | string (value : String)
  /-- A list of values. -/
  | array (elements : List Json)
  /-- Values under names. -/
  | object (fields : List (String × Json))

namespace JsonNumber

/-- Numbers of single precision are written plainly from five places behind the point up to
thirteen before it. -/
def singleLayout : Layout := ⟨-5, 12, .toEven⟩

/-- Numbers of double precision are written plainly from five places behind the point up to
sixteen before it. -/
def doubleLayout : Layout := ⟨-5, 15, .toEven⟩

/-- The text of a number; infinities are written as the absent value. -/
def text : JsonNumber → String
  | integer value => toString value
  | single value => ((singleLayout.text? value).map String.ofList).getD "null"
  | double value => ((doubleLayout.text? value).map String.ofList).getD "null"

end JsonNumber

namespace Json

/-- The text of one character inside quotes: only quotes, backslashes and control characters are
escaped. -/
def escapeChar (c : Char) : List Char :=
  if c = '"' then ['\\', '"']
  else if c = '\\' then ['\\', '\\']
  else if c = '\x08' then ['\\', 'b']
  else if c = '\x0c' then ['\\', 'f']
  else if c = '\n' then ['\\', 'n']
  else if c = '\r' then ['\\', 'r']
  else if c = '\t' then ['\\', 't']
  else if c < ' ' then
    let ds := Nat.toDigits 16 c.toNat
    ['\\', 'u'] ++ List.replicate (4 - ds.length) '0' ++ ds
  else [c]

/-- A text inside quotes. -/
def quote (s : String) : String := String.ofList ('"' :: s.toList.flatMap escapeChar ++ ['"'])

mutual

/-- Appends the text of a value without any blanks. -/
def writeCompact (out : String) : Json → String
  | null => out ++ "null"
  | bool value => out ++ (if value then "true" else "false")
  | number value => out ++ value.text
  | string value => out ++ quote value
  | array [] => out ++ "[]"
  | array (first :: rest) =>
    writeCompactElements (writeCompact (out ++ "[") first) rest ++ "]"
  | object [] => out ++ "\x7b\x7d"
  | object ((name, value) :: rest) =>
    writeCompactFields (writeCompact (out ++ "\x7b" ++ quote name ++ ":") value) rest ++ "\x7d"

/-- Appends further elements of a list, each after a comma. -/
def writeCompactElements (out : String) : List Json → String
  | [] => out
  | value :: rest => writeCompactElements (writeCompact (out ++ ",") value) rest

/-- Appends further fields of an object, each after a comma. -/
def writeCompactFields (out : String) : List (String × Json) → String
  | [] => out
  | (name, value) :: rest =>
    writeCompactFields (writeCompact (out ++ "," ++ quote name ++ ":") value) rest

end

/-- The text of a value without any blanks. -/
def compact (value : Json) : String := writeCompact "" value

/-- The line break before something on a level of the indented text. -/
def lineBreak (level : Nat) : String := "\n" ++ String.ofList (List.replicate (2 * level) ' ')

mutual

/-- Appends the indented text of a value that starts on a level. -/
def writeIndented (level : Nat) (out : String) : Json → String
  | null => out ++ "null"
  | bool value => out ++ (if value then "true" else "false")
  | number value => out ++ value.text
  | string value => out ++ quote value
  | array [] => out ++ "[]"
  | array (first :: rest) =>
    let opened := writeIndented (level + 1) (out ++ "[" ++ lineBreak (level + 1)) first
    writeIndentedElements (level + 1) opened rest ++ lineBreak level ++ "]"
  | object [] => out ++ "\x7b\x7d"
  | object ((name, value) :: rest) =>
    let opened := writeIndented (level + 1)
      (out ++ "\x7b" ++ lineBreak (level + 1) ++ quote name ++ ": ") value
    writeIndentedFields (level + 1) opened rest ++ lineBreak level ++ "\x7d"

/-- Appends further elements of a list, each on a line of its own. -/
def writeIndentedElements (level : Nat) (out : String) : List Json → String
  | [] => out
  | value :: rest =>
    writeIndentedElements level (writeIndented level (out ++ "," ++ lineBreak level) value) rest

/-- Appends further fields of an object, each on a line of its own. -/
def writeIndentedFields (level : Nat) (out : String) : List (String × Json) → String
  | [] => out
  | (name, value) :: rest =>
    writeIndentedFields level
      (writeIndented level (out ++ "," ++ lineBreak level ++ quote name ++ ": ") value) rest

end

/-- The text of a value over several lines, indented by two blanks a level. -/
def indented (value : Json) : String := writeIndented 0 "" value

/-- The field of an object; of several fields of one name the last one counts. -/
def field? (fields : List (String × Json)) (name : String) : Option Json :=
  (fields.reverse.find? (·.1 == name)).map Prod.snd

end Json

end CommandTree
