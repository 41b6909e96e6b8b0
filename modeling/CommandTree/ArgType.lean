import CommandTree.Key
import CommandTree.Number.NumberKind

/-!
# Types of arguments

An argument of a command has one of the built-in types or a type that an extension supplies. The
bounds of a number are always present; where a command file leaves one out it is the extreme of
the kind. `ArgType.words` lists the words that declare a type, leaving out what goes without
saying.
-/

set_option autoImplicit false

namespace CommandTree

/-- How much of the input a string argument takes. -/
inductive StringMode where
  /-- A word without blanks. -/
  | singleWord
  /-- A word, or a phrase in quotes. -/
  | quotablePhrase
  /-- All that is left. -/
  | greedyPhrase
deriving DecidableEq, Repr

namespace StringMode

/-- All modes. -/
def all : List StringMode := [singleWord, quotablePhrase, greedyPhrase]

/-- The word that selects a mode. -/
def keyword : StringMode → String
  | singleWord => "single_word"
  | quotablePhrase => "quotable_phrase"
  | greedyPhrase => "greedy_phrase"

/-- The mode that a word selects. -/
def ofKeyword? (word : String) : Option StringMode := all.find? (·.keyword == word)

/-- Every mode is selected by its keyword. -/
theorem ofKeyword?_keyword (mode : StringMode) : ofKeyword? mode.keyword = some mode := by
  cases mode <;> decide

/-- A mode is selected by no other word than its keyword. -/
theorem keyword_of_ofKeyword? {word : String} {mode : StringMode}
    (h : ofKeyword? word = some mode) : mode.keyword = word := by
  simpa using List.find?_some h

end StringMode

/-- One of the built-in types, before its parameters are known. -/
inductive Builtin where
  /-- Truth values. -/
  | bool
  /-- Text. -/
  | string
  /-- Numbers of some kind. -/
  | number (kind : NumberKind)
deriving DecidableEq, Repr

namespace Builtin

/-- The name of a built-in type. -/
def name : Builtin → String
  | bool => "bool"
  | string => "string"
  | number kind => kind.name

/-- All built-in types, in the order in which messages list them. -/
def all : List Builtin := [bool, string] ++ NumberKind.all.map number

/-- The built-in type of a name; case matters. -/
def ofName? (word : String) : Option Builtin := all.find? (·.name == word)

/-- A built-in type is found by its name. -/
theorem ofName?_name (b : Builtin) : ofName? b.name = some b := by
  rcases b with _ | _ | kind
  · decide
  · decide
  · cases kind <;> decide

end Builtin

/-- What an argument captures. -/
inductive ArgType where
  /-- A truth value. -/
  | bool
  /-- A text. -/
  | string (mode : StringMode)
  /-- A number between two bounds. -/
  | number (kind : NumberKind) (lower upper : kind.Value)
  /-- Something an extension defines, with the words that followed the name of the type. -/
  | extension (space name : String) (payload : List String)
deriving DecidableEq

namespace ArgType

/-- The extension type of a key. -/
def ofKey (key : Key) (payload : List String) : ArgType := extension key.space key.name payload

/-- The name of a type as a command file spells it. -/
def typeName : ArgType → String
  | bool => "bool"
  | string _ => "string"
  | number kind _ _ => kind.name
  | extension space name _ => space ++ ":" ++ name

/-- Whether an extension supplies the type. -/
def isExtension : ArgType → Bool
  | extension .. => true
  | _ => false

/-- The words for a pair of bounds: none for both extremes, and `min` for the lower one where only
the upper one is to be given. -/
def boundWords (kind : NumberKind) (lower upper : kind.Value) : List String :=
  let isLeast := kind.same lower kind.least
  let isGreatest := kind.same upper kind.greatest
  if isLeast && isGreatest then []
  else
    (if isLeast then "min" else kind.text lower) ::
      if isGreatest then [] else [kind.text upper]

/-- The words that declare a type, its name first. -/
def words : ArgType → List String
  | bool => ["bool"]
  | string mode => ["string", mode.keyword]
  | number kind lower upper => kind.name :: boundWords kind lower upper
  | extension space name payload => (space ++ ":" ++ name) :: payload

/-- Equality of types in which bounds are compared as numbers. -/
def agrees : ArgType → ArgType → Bool
  | number kind lower upper, number kind' lower' upper' =>
    if h : kind' = kind then kind.same lower (h ▸ lower') && kind.same upper (h ▸ upper')
    else false
  | s, t => s == t

end ArgType

end CommandTree
