import CommandTree.Json
import CommandTree.Number.Literal

/-!
# Reading JSON text

A reader for the text of one JSON value. Every step hands back what is left together with the
proof that it is shorter than what was there, so reading ends without a bound of its own.

Integers that fit into 64 bits, with or without a sign, are read as integers. All other numbers,
and minus zero, are read as the nearest number of double precision.
-/

set_option autoImplicit false

namespace CommandTree.Json

/-- What is left of a text after a step that took something from it. -/
abbrev Rest (cs : List Char) : Type := { rest : List Char // rest.length < cs.length }

/-- The blanks between the parts of a JSON text. -/
def isBlank (c : Char) : Bool := c == ' ' || c == '\n' || c == '\r' || c == '\t'

/-- A text without the blanks it starts with. -/
def skipBlanks (cs : List Char) : List Char := cs.dropWhile isBlank

/-- Skipping blanks leaves no more characters than before. -/
theorem length_skipBlanks_le (cs : List Char) : (skipBlanks cs).length ≤ cs.length :=
  (List.dropWhile_sublist isBlank).length_le

/-- A character that is found behind blanks leaves fewer characters behind it, so reading on
ends. -/
theorem length_lt_of_skipBlanks {cs rest : List Char} {c : Char}
    (h : skipBlanks cs = c :: rest) : rest.length < cs.length := by
  have := length_skipBlanks_le cs
  rw [h] at this
  exact this

/-- The value of a hexadecimal digit. -/
def hexDigit? (c : Char) : Option Nat :=
  if '0' ≤ c ∧ c ≤ '9' then some (c.toNat - '0'.toNat)
  else if 'a' ≤ c ∧ c ≤ 'f' then some (c.toNat - 'a'.toNat + 10)
  else if 'A' ≤ c ∧ c ≤ 'F' then some (c.toNat - 'A'.toNat + 10)
  else none

/-- The value of four hexadecimal digits. -/
def hexQuad? (a b c d : Char) : Option Nat := do
  let a ← hexDigit? a
  let b ← hexDigit? b
  let c ← hexDigit? c
  let d ← hexDigit? d
  pure (((a * 16 + b) * 16 + c) * 16 + d)

/-- The character that a letter after a backslash stands for. -/
def unescape? : Char → Option Char
  | '"' => some '"'
  | '\\' => some '\\'
  | '/' => some '/'
  | 'b' => some '\x08'
  | 'f' => some '\x0c'
  | 'n' => some '\n'
  | 'r' => some '\r'
  | 't' => some '\t'
  | _ => none

/-- The character of a number that is a code point on its own. -/
def ofCodePoint? (code : Nat) : Option Char :=
  if code.isValidChar then some (Char.ofNat code) else none

/-- The character of two numbers, each of which is half of a code point. -/
def ofSurrogates? (high low : Nat) : Option Char :=
  if 0xD800 ≤ high ∧ high < 0xDC00 ∧ 0xDC00 ≤ low ∧ low < 0xE000 then
    ofCodePoint? (0x10000 + (high - 0xD800) * 0x400 + (low - 0xDC00))
  else none

/-- Reads the rest of a string whose first characters, latest first, are `read`. -/
def readString (read : List Char) : List Char → Option (String × List Char)
  | '"' :: rest => some (String.ofList read.reverse, rest)
  | '\\' :: 'u' :: a :: b :: c :: d :: rest =>
    match hexQuad? a b c d with
    | none => none
    | some code =>
      match ofCodePoint? code with
      | some char => readString (char :: read) rest
      | none =>
        match rest with
        | '\\' :: 'u' :: a :: b :: c :: d :: rest =>
          match (hexQuad? a b c d).bind (ofSurrogates? code) with
          | some char => readString (char :: read) rest
          | none => none
        | _ => none
  | '\\' :: c :: rest =>
    match unescape? c with
    | some char => readString (char :: read) rest
    | none => none
  | c :: rest => if c < ' ' then none else readString (c :: read) rest
  | [] => none

/-- A string takes at least its closing quote. -/
theorem length_lt_of_readString {read cs rest : List Char} {s : String}
    (h : readString read cs = some (s, rest)) : rest.length < cs.length := by
  fun_induction readString read cs <;> simp_all <;> omega

/-- The characters that numbers are made of. -/
def isNumberChar (c : Char) : Bool :=
  Literal.isDigit c || c == '-' || c == '+' || c == '.' || c == 'e' || c == 'E'

/-- Integers from minus this number on are read as integers. -/
def negativeBound : Nat := Nat.pow 2 63

/-- Integers below this number are read as integers. -/
def integerBound : Nat := Nat.pow 2 64

/-- The number of a text; a leading zero may not be followed by another digit. -/
def readNumber (cs : List Char) : Option JsonNumber :=
  let (negative, body) :=
    match cs with
    | '-' :: body => (true, body)
    | body => (false, body)
  let wellFormed :=
    match body with
    | '0' :: c :: _ => !Literal.isDigit c
    | c :: _ => Literal.isDigit c
    | [] => false
  if !wellFormed then none
  else if body.all Literal.isDigit then
    let value : Int := Decimal.ofDigits body
    let value := if negative then -value else value
    if (negative && value == 0) || value < -negativeBound || integerBound ≤ value then
      some (.double (Binary.ofDecimal _ negative ⟨Decimal.ofDigits body, 0⟩))
    else some (.integer value)
  else
    (Literal.readDecimal body).bind fun d =>
      let value := Binary.ofDecimal Format.double negative d
      if value.isInfinite then none else some (.double value)

/-- Reads one of the three named values. -/
def readName : List Char → Option Json
  | ['n', 'u', 'l', 'l'] => some .null
  | ['t', 'r', 'u', 'e'] => some (.bool true)
  | ['f', 'a', 'l', 's', 'e'] => some (.bool false)
  | _ => none

/-- Reads a named value or a number, which go as far as their characters do. -/
def readAtom (cs : List Char) : Option (Json × Rest cs) :=
  let belongs := fun c => isNumberChar c || ('a' ≤ c && c ≤ 'z')
  let atom := cs.takeWhile belongs
  let value := (readName atom).or ((readNumber atom).map .number)
  match value with
  | none => none
  | some value =>
    if h : (cs.dropWhile belongs).length < cs.length then some (value, ⟨cs.dropWhile belongs, h⟩)
    else none

mutual

/-- Reads a value, which blanks may precede. -/
def readValue (cs : List Char) : Option (Json × Rest cs) :=
  match hc : skipBlanks cs with
  | [] => none
  | '"' :: rest =>
    match hs : readString [] rest with
    | none => none
    | some (s, tail) =>
      some (.string s, ⟨tail, Nat.lt_trans (length_lt_of_readString hs)
        (length_lt_of_skipBlanks hc)⟩)
  | '[' :: rest =>
    have hlt := length_lt_of_skipBlanks hc
    match he : skipBlanks rest with
    | ']' :: tail =>
      some (.array [], ⟨tail, Nat.lt_trans (length_lt_of_skipBlanks he) hlt⟩)
    | _ =>
      match readElements [] rest with
      | none => none
      | some (elements, ⟨tail, h⟩) => some (.array elements, ⟨tail, Nat.lt_trans h hlt⟩)
  | '{' :: rest =>
    have hlt := length_lt_of_skipBlanks hc
    match he : skipBlanks rest with
    | '}' :: tail =>
      some (.object [], ⟨tail, Nat.lt_trans (length_lt_of_skipBlanks he) hlt⟩)
    | _ =>
      match readFields [] rest with
      | none => none
      | some (fields, ⟨tail, h⟩) => some (.object fields, ⟨tail, Nat.lt_trans h hlt⟩)
  | c :: rest =>
    match readAtom (c :: rest) with
    | none => none
    | some (value, ⟨tail, h⟩) =>
      some (value, ⟨tail, Nat.lt_of_lt_of_le h (hc ▸ length_skipBlanks_le cs)⟩)
termination_by 2 * cs.length

/-- Reads the elements of a list from some element on, through the closing bracket; those before
it are `read`, latest first. -/
def readElements (read : List Json) (cs : List Char) : Option (List Json × Rest cs) :=
  match readValue cs with
  | none => none
  | some (value, ⟨rest, h⟩) =>
    match hc : skipBlanks rest with
    | ',' :: tail =>
      have hlt := Nat.lt_trans (length_lt_of_skipBlanks hc) h
      match readElements (value :: read) tail with
      | none => none
      | some (elements, ⟨after, h₂⟩) => some (elements, ⟨after, Nat.lt_trans h₂ hlt⟩)
    | ']' :: tail =>
      some ((value :: read).reverse, ⟨tail, Nat.lt_trans (length_lt_of_skipBlanks hc) h⟩)
    | _ => none
termination_by 2 * cs.length + 1

/-- Reads the fields of an object from some field on, through the closing brace; those before it
are `read`, latest first. -/
def readFields (read : List (String × Json)) (cs : List Char) :
    Option (List (String × Json) × Rest cs) :=
  match hq : skipBlanks cs with
  | '"' :: quoted =>
    match hs : readString [] quoted with
    | none => none
    | some (name, named) =>
      match hn : skipBlanks named with
      | ':' :: rest =>
        have hlt : rest.length < cs.length :=
          Nat.lt_trans (length_lt_of_skipBlanks hn)
            (Nat.lt_trans (length_lt_of_readString hs) (length_lt_of_skipBlanks hq))
        match readValue rest with
        | none => none
        | some (value, ⟨tail, h⟩) =>
          match hc : skipBlanks tail with
          | ',' :: after =>
            have hlt₂ := Nat.lt_trans (length_lt_of_skipBlanks hc) (Nat.lt_trans h hlt)
            match readFields ((name, value) :: read) after with
            | none => none
            | some (fields, ⟨left, h₂⟩) => some (fields, ⟨left, Nat.lt_trans h₂ hlt₂⟩)
          | '}' :: after =>
            some (((name, value) :: read).reverse,
              ⟨after, Nat.lt_trans (length_lt_of_skipBlanks hc) (Nat.lt_trans h hlt)⟩)
          | _ => none
      | _ => none
  | _ => none
termination_by 2 * cs.length

end

/-- Reads a text that holds one value and nothing else but blanks. -/
def read? (text : String) : Option Json :=
  match readValue text.toList with
  | some (value, ⟨rest, _⟩) => if (skipBlanks rest).isEmpty then some value else none
  | none => none

end CommandTree.Json
