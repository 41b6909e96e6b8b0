import CommandTree.FileSystem
import CommandTree.ParamRule.Encoding
import CommandTree.Registry
import CommandTree.Settings
import CommandTree.SortedTable
import CommandTree.Yaml.YamlReader

/-!
# Types files

A types file declares extension types and changes the settings of a parse. It is a mapping of five
fields, all of which may be omitted. Its namespaces and the types in them are kept in the order of
their names, in which they are also checked and asked for keys.
-/

set_option autoImplicit false

namespace CommandTree

/-- What a types file says. -/
structure TypesFile where
  /-- The greatest number of levels, if it is to be changed. -/
  maxDepth : Option Nat
  /-- The namespace of types that are written without one, if it is to be changed. -/
  defaultSpace : Option String
  /-- Whether the built-in types have names in a namespace of their own. -/
  brigadierAliases : Bool
  /-- Whether the types of the game check their parameters. -/
  minecraftTypes : Bool
  /-- The declared types of each namespace with the rules for their parameters. -/
  namespaces : SortedTable (SortedTable ParamRule)
deriving DecidableEq

namespace TypesFile

/-- A types file that says nothing. -/
def empty : TypesFile := ⟨none, none, false, false, .empty⟩

/-! ### Reading fields -/

/-- Counts are below this bound. -/
def countBound : Nat := Nat.pow 2 64

/-- Reads a text, for which every scalar is one. -/
def textOf (d : YamlDocument) (node : Yaml) : Except YamlError String :=
  match d.resolve node with
  | .scalar _ _ text => .ok text
  | _ => .error (.mismatch "a text")

/-- Reads the fields of a mapping, which may be omitted. Their names are texts. -/
def fieldsOf (d : YamlDocument) (wanted : String) (node : Yaml) :
    Except YamlError (List (String × Yaml)) :=
  match d.resolve node with
  | .mapping fields =>
    fields.mapM fun (name, value) => (textOf d name).map fun name => (name, value)
  | .scalar _ .plain "" => .ok []
  | _ => .error (.mismatch wanted)

/-- The text of a scalar that may stand for a value of some kind: it is plain, or it is a literal
with the tag of that kind. -/
def valueText? (d : YamlDocument) (kind : String) (node : Yaml) : Option String :=
  match d.resolve node with
  | .scalar _ .plain text => some text
  | .scalar tag .literal text => if tag = some (Yaml.coreTag kind) then some text else none
  | _ => none

/-- Reads a count. -/
def countOf (d : YamlDocument) (node : Yaml) : Except YamlError Nat :=
  match (valueText? d "int" node).bind Yaml.natural? with
  | some n => if n < countBound then .ok n else .error (.mismatch "a count")
  | none => .error (.mismatch "a count")

/-- Reads a truth value. -/
def boolOf (d : YamlDocument) (node : Yaml) : Except YamlError Bool :=
  match (valueText? d "bool" node).bind Yaml.bool? with
  | some value => .ok value
  | none => .error (.mismatch "true or false")

/-- Reads a value that may be absent. An omitted value is, unless it has a tag; the tag of the
absent value asks for one of the words for it. -/
def optionOf {α : Type} (d : YamlDocument) (read : YamlDocument → Yaml → Except YamlError α)
    (node : Yaml) : Except YamlError (Option α) :=
  match d.resolve node with
  | .scalar none .plain text =>
    if text.isEmpty || Yaml.isNull text then .ok none else (read d node).map some
  | .scalar (some tag) .plain text =>
    if tag ≠ Yaml.coreTag "null" then (read d node).map some
    else if Yaml.isNull text then .ok none
    else .error (.mismatch "nothing")
  | _ => (read d node).map some

/-- Reads the keyword of a rule. -/
def keywordOf (word : String) : Except YamlError ParamRule :=
  match ParamRule.ofKeyword? word with
  | some rule => .ok rule
  | none => .error (.refused (ParamRule.unknownKeyword word))

/-- The rule of a count, which may be written with a minus sign if it is zero. -/
def ruleOfInt (n : Int) : Except YamlError ParamRule :=
  if 0 ≤ n ∧ n.toNat < countBound then .ok (.ofCount n.toNat)
  else .error (.mismatch "a count or a keyword")

/-- Reads a rule, which is a count or a keyword. A tag decides which of the two it is, and a plain
scalar without one is a count if it looks like a number. -/
def ruleOf (d : YamlDocument) (node : Yaml) : Except YamlError ParamRule :=
  match d.resolve node with
  | .scalar none .plain text =>
    match Yaml.integer? text with
    | some n => ruleOfInt n
    | none => keywordOf text
  | .scalar none _ text => keywordOf text
  | .scalar (some tag) _ text =>
    if tag = Yaml.coreTag "int" then
      match Yaml.integer? text with
      | some n => ruleOfInt n
      | none => .error (.mismatch "a count")
    else if Yaml.isLocalTag tag || (["bool", "float", "null"].map Yaml.coreTag).contains tag then
      .error (.mismatch "a count or a keyword")
    else keywordOf text
  | _ => .error (.mismatch "a count or a keyword")

/-- Reads the declaration of a type, whose only field is the rule for its parameters. -/
def declarationOf (d : YamlDocument) (node : Yaml) : Except YamlError ParamRule := do
  match ← fieldsOf d "a declaration" node with
  | [] => pure .none
  | [("params", value)] => ruleOf d value
  | ("params", _) :: ("params", _) :: _ => throw (.repeatedField "params")
  | ("params", _) :: (name, _) :: _ => throw (.unknownField name)
  | (name, _) :: _ => throw (.unknownField name)

/-- Reads the values of a table, of which a later one replaces an earlier one of the same name. -/
def tableOf {β : Type} (d : YamlDocument) (read : YamlDocument → Yaml → Except YamlError β)
    (wanted : String) (node : Yaml) : Except YamlError (SortedTable β) := do
  let fields ← fieldsOf d wanted node
  let entries ← fields.mapM fun (name, value) => do
    let value ← read d value
    pure (name, value)
  pure (SortedTable.ofList entries)

/-- Reads the types of a namespace. -/
def typesOf (d : YamlDocument) (node : Yaml) : Except YamlError (SortedTable ParamRule) :=
  tableOf d declarationOf "a mapping of types" node

/-- Reads one field of a types file into what was read before. -/
def readField (d : YamlDocument) (file : TypesFile) :
    String × Yaml → Except YamlError TypesFile
  | ("max_depth", value) => do
    let maxDepth ← optionOf d countOf value
    pure { file with maxDepth := maxDepth }
  | ("default_namespace", value) => do
    let defaultSpace ← optionOf d textOf value
    pure { file with defaultSpace := defaultSpace }
  | ("brigadier_aliases", value) => do
    let brigadierAliases ← boolOf d value
    pure { file with brigadierAliases := brigadierAliases }
  | ("minecraft_types", value) => do
    let minecraftTypes ← boolOf d value
    pure { file with minecraftTypes := minecraftTypes }
  | ("namespaces", value) => do
    let namespaces ← tableOf d typesOf "a mapping" value
    pure { file with namespaces := namespaces }
  | (name, _) => throw (.unknownField name)

/-- The first name that a list holds twice. -/
def repeated? : List String → Option String
  | [] => none
  | name :: names => if name ∈ names then some name else repeated? names

/-- The depth of a types file: the file, its namespaces, their types, the declarations of these,
and what they say. -/
def depth : Nat := 5

/-- Reads a types file from a YAML document. -/
def ofDocument (d : YamlDocument) : Except YamlError TypesFile := do
  let fields ← fieldsOf d "a types file" d.root
  match repeated? (fields.map Prod.fst) with
  | some name => throw (.repeatedField name)
  | none =>
    let file ← fields.foldlM (readField d) empty
    if d.isModest depth then pure file else throw .excessive

/-! ### Checks -/

/-- Whether the default namespace can be one: it is tried with a name that is well formed. -/
def checkDefaultSpace (file : TypesFile) : Option Problem :=
  match file.defaultSpace with
  | none => none
  | some space =>
    match Key.make space "x" with
    | .ok _ => none
    | .error e => some (.invalidDefaultSpace space e)

/-- The problem with a declaration that is not a key. -/
def checkDeclaration (space name : String) : Option Problem :=
  match Key.make space name with
  | .ok _ => none
  | .error e => some (.invalidDeclaration space name e)

/-- The first problem with what a types file says. -/
def problem? (file : TypesFile) : Option Problem :=
  file.checkDefaultSpace.or
    (file.namespaces.entries.findSome? fun (space, types) =>
      types.entries.findSome? fun (name, _) => checkDeclaration space name)

/-- The diagnostic for a problem with a types file. -/
def diagnose (problem : Problem) : Diagnostic := .onLine problem 1

/-- Reads a types file from its text. -/
def ofText (text : String) : Except Diagnostic TypesFile :=
  match Yaml.read text >>= ofDocument with
  | .error e => .error (diagnose (.malformedTypesFile e))
  | .ok file =>
    match file.problem? with
    | some problem => .error (diagnose problem)
    | none => .ok file

/-- Reads the types file at a path. -/
def load (fs : FileSystem) (path : String) : Except Diagnostic TypesFile :=
  match fs.text path with
  | .error e => .error (diagnose (.typesFileUnreadable path e))
  | .ok text => ofText text

/-! ### What follows from a types file -/

/-- The settings of a parse. -/
def settings (file : TypesFile) : Settings :=
  { Settings.standard with
    maxDepth := file.maxDepth.or Settings.standard.maxDepth
    defaultSpace := file.defaultSpace.getD Settings.standard.defaultSpace }

/-- The resolvers, in the order in which they are asked: the types of the game, the declared
namespaces by name, and the other names of the built-in types. -/
def registry (file : TypesFile) : Registry :=
  ⟨(if file.minecraftTypes then [.minecraft] else []) ++
    file.namespaces.entries.map (fun (space, types) => .declared space types) ++
    (if file.brigadierAliases then [.brigadier] else [])⟩

/-- A types file as JSON. -/
def toJson (file : TypesFile) : Json :=
  .object [
    ("max_depth", (file.maxDepth.map fun n => Json.number (.integer n)).getD .null),
    ("default_namespace", (file.defaultSpace.map Json.string).getD .null),
    ("brigadier_aliases", .bool file.brigadierAliases),
    ("minecraft_types", .bool file.minecraftTypes),
    ("namespaces", .object (file.namespaces.entries.map fun (space, types) =>
      (space, .object (types.entries.map fun (name, rule) =>
        (name, .object [("params", rule.toJson)])))))]

end TypesFile

end CommandTree
