import CommandTree.Json.Tagged
import CommandTree.Tree.Draft

/-!
# Trees as JSON

A serialized node says whether it is a literal or an argument and holds its name, its type and its
children; a serialized type says of which kind it is and holds its parameters. Both are tagged
values: they are written as objects, and read from objects and from lists. Reading ignores fields of
an object it does not know and wants all that it knows. Only a value of the right shape throughout
is read as a draft, and siblings of one name are noticed after that.
-/

set_option autoImplicit false

namespace CommandTree

/-- Why a JSON value is not a serialized tree. -/
inductive DecodeError where
  /-- Some part of the value has the wrong shape. -/
  | shape
  /-- The shape is right, but two siblings share a name. -/
  | duplicate (duplicate : DuplicateChild)
deriving DecidableEq, Repr

/-- The wording of a decoding error. What is said of a wrong shape is up to the reader of the JSON
text. -/
def DecodeError.message? : DecodeError → Option String
  | shape => none
  | duplicate d => some d.message

namespace NumberKind

/-- A number as JSON; infinities are absent. -/
def toJson : (kind : NumberKind) → kind.Value → Json
  | integer, w => .number (.integer w.value)
  | long, w => .number (.integer w.value)
  | float, b => if b.isInfinite then .null else .number (.single b)
  | double, b => if b.isInfinite then .null else .number (.double b)

/-- The number of a binary format nearest to a number in JSON. -/
def binaryOfJson (f : Format) : JsonNumber → Binary f
  | .integer value => Binary.ofDecimal f (value < 0) ⟨value.natAbs, 0⟩
  | .single value => value.convert f
  | .double value => value.convert f

/-- Reads a number. Integers are wanted as integers and in range; a binary number is read from any
number. -/
def ofJson? : (kind : NumberKind) → Json → Option kind.Value
  | integer, .number (.integer value) => Whole.ofInt? 32 value
  | long, .number (.integer value) => Whole.ofInt? 64 value
  | float, .number value => some (binaryOfJson Format.single value)
  | double, .number value => some (binaryOfJson Format.double value)
  | _, _ => none

/-- The kind of number of a given name. -/
def ofName? (name : String) : Option NumberKind := all.find? (·.name == name)

end NumberKind

namespace Json

/-- The text of a string. -/
def string? : Json → Option String
  | string s => some s
  | _ => none

/-- The elements of a list of strings. -/
def strings? : Json → Option (List String)
  | array elements => elements.mapM string?
  | _ => none

/-- The string in a field of an object. -/
def stringField? (fields : List (String × Json)) (name : String) : Option String :=
  (field? fields name).bind string?

end Json

namespace StringMode

/-- Reads the mode of a string from its keyword. The keyword may also be the name of the only field
of an object, if that field holds nothing. -/
def ofJson? : Json → Option StringMode
  | .string word => ofKeyword? word
  | .object fields =>
    match Json.onlyField? fields with
    | some (word, .null) => ofKeyword? word
    | some (word, .object []) => ofKeyword? word
    | _ => none
  | _ => none

end StringMode

namespace ArgType

/-- The kinds of types and their parameters. -/
def variants : List Json.Variant :=
  [⟨"bool", []⟩, ⟨"string", ["mode"]⟩] ++
    NumberKind.all.map (fun kind => ⟨kind.name, ["min", "max"]⟩) ++
    [⟨"extension", ["namespace", "name", "payload"]⟩]

/-- A type as JSON. -/
def toJson : ArgType → Json
  | bool => .object [("kind", .string "bool")]
  | string mode => .object [("kind", .string "string"), ("mode", .string mode.keyword)]
  | number kind lower upper =>
    .object [("kind", .string kind.name), ("min", kind.toJson lower), ("max", kind.toJson upper)]
  | extension space name payload =>
    .object [("kind", .string "extension"), ("namespace", .string space),
      ("name", .string name), ("payload", .array (payload.map Json.string))]

/-- Reads a type of a given kind. -/
def ofFields? (kind : String) (fields : List (String × Json)) : Option ArgType :=
  if kind = "bool" then some bool
  else if kind = "string" then do
    let mode ← (Json.field? fields "mode").bind StringMode.ofJson?
    pure (string mode)
  else if kind = "extension" then do
    let space ← Json.stringField? fields "namespace"
    let name ← Json.stringField? fields "name"
    let payload ← (Json.field? fields "payload").bind Json.strings?
    pure (extension space name payload)
  else do
    let kind ← NumberKind.ofName? kind
    let lower ← (Json.field? fields "min").bind kind.ofJson?
    let upper ← (Json.field? fields "max").bind kind.ofJson?
    pure (number kind lower upper)

/-- Reads a type that stands at some place. -/
def ofJsonAt? (place : Json.Place) (value : Json) : Option ArgType := do
  let (variant, fields) ← Json.tagged? place "kind" variants value
  ofFields? variant.tag fields

/-- Reads a type. -/
def ofJson? : Json → Option ArgType := ofJsonAt? .whole

end ArgType

namespace Tree

mutual

/-- A tree as JSON. -/
def toJson : Tree → Json
  | node name none children =>
    .object [("node", .string "literal"), ("name", .string name),
      ("children", .array (toJsonAll children))]
  | node name (some type) children =>
    .object [("node", .string "argument"), ("name", .string name), ("type", type.toJson),
      ("children", .array (toJsonAll children))]

/-- Trees as JSON. -/
def toJsonAll : List Tree → List Json
  | [] => []
  | t :: ts => toJson t :: toJsonAll ts

end

end Tree

namespace Draft

/-- The forms of nodes and what they hold. -/
def variants : List Json.Variant :=
  [⟨"literal", ["name", "children"]⟩, ⟨"argument", ["name", "type", "children"]⟩]

/-- Reads the type of a node that says of itself that it is a literal or an argument. -/
def typeOfFields? (kind : String) (fields : List (String × Json)) : Option (Option ArgType) :=
  if kind = "literal" then some none
  else if kind = "argument" then
    ((Json.field? fields "type").bind (ArgType.ofJsonAt? .part)).map some
  else none

mutual

/-- Reads a draft that stands at some place. -/
def ofJsonAt? (place : Json.Place) (value : Json) : Option Draft :=
  match _h : Json.tagged? place "node" variants value with
  | none => none
  | some (variant, fields) =>
    match Json.stringField? fields "name", typeOfFields? variant.tag fields with
    | some name, some type =>
      match _hchildren : Json.field? fields "children" with
      | some (.array elements) => (ofJsonAll? elements).map (node name type)
      | _ => none
    | _, _ => none
termination_by sizeOf value
decreasing_by
  have hlt := Json.sizeOf_lt_of_tagged? _h _hchildren
  simp only [Json.array.sizeOf_spec] at hlt
  omega

/-- Reads a list of drafts that are parts of a value. -/
def ofJsonAll? : List Json → Option (List Draft)
  | [] => some []
  | value :: values =>
    match ofJsonAt? .part value with
    | none => none
    | some d => (ofJsonAll? values).map (d :: ·)
termination_by values => sizeOf values

end

/-- Reads a draft. -/
def ofJson? : Json → Option Draft := ofJsonAt? .whole

end Draft

namespace Tree

/-- Reads a tree. -/
def ofJson (value : Json) : Except DecodeError Tree :=
  match Draft.ofJson? value with
  | none => .error .shape
  | some d =>
    match d.build with
    | .error e => .error (.duplicate e)
    | .ok t => .ok t

end Tree

end CommandTree
