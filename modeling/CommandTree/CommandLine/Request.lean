/-!
# Requests

The arguments of the program say which of its commands to run, on which paths and with which types
file. They are read in two steps. First every argument is taken apart into items by its form alone;
only the option `--types` takes the next argument as its value. Then the items are read from left to
right, and the first one that asks for help or for the version, or cannot be what it is, decides.

Options may stand before the name of the command and after it. The types file named after the
command goes before the one named in front of it, and each may be named only once.
-/

set_option autoImplicit false

namespace CommandTree.CommandLine

/-- What to do with files. -/
inductive Command where
  /-- Check the files at the paths, of which there is at least one. -/
  | check (path : String) (others : List String)
  /-- Show the tree of a file, as a listing or as JSON. -/
  | tree (path : String) (asJson : Bool)
  /-- Show the canonical form of a file, or compare the file with it. -/
  | format (path : String) (comparing : Bool)
deriving DecidableEq, Repr

namespace Command

/-- The paths that a command is given. -/
def paths : Command → List String
  | check path others => path :: others
  | tree path _ => [path]
  | format path _ => [path]

end Command

/-- What the program is asked for. -/
inductive Request where
  /-- To run a command, with the types file at a path if there is one. -/
  | run (types : Option String) (command : Command)
  /-- To say which version it is. -/
  | version
  /-- To say how it is used. -/
  | help
deriving DecidableEq, Repr

/-- Why arguments are no request. -/
inductive UsageError where
  /-- There is no command. -/
  | missingCommand
  /-- There is no command of that name. -/
  | unknownCommand (name : String)
  /-- There is no such option here. -/
  | unknownOption (text : String)
  /-- An option that may be given once is given again. -/
  | repeatedOption (name : String)
  /-- An option that takes a value has none. -/
  | missingValue (name : String)
  /-- An option that takes no value has one. -/
  | unexpectedValue (name : String)
  /-- A command that takes a path has none. -/
  | missingPath
  /-- A path is the empty text. -/
  | emptyPath
  /-- An argument is one more than the command takes. -/
  | unexpectedArgument (text : String)
deriving DecidableEq, Repr

namespace UsageError

/-- The wording of an error. -/
def message : UsageError → String
  | missingCommand => "a command is missing"
  | unknownCommand name => "unknown command '" ++ name ++ "'"
  | unknownOption text => "unknown option '" ++ text ++ "'"
  | repeatedOption name => "option '--" ++ name ++ "' is given twice"
  | missingValue name => "option '--" ++ name ++ "' needs a value"
  | unexpectedValue name => "option '--" ++ name ++ "' takes no value"
  | missingPath => "a path is missing"
  | emptyPath => "a path is empty"
  | unexpectedArgument text => "unexpected argument '" ++ text ++ "'"

end UsageError

/-! ### Items -/

/-- One piece of the arguments. -/
inductive Item where
  /-- An option with a long name, and its value if it has one. -/
  | long (name : String) (value : Option String)
  /-- An option of one letter. -/
  | short (letter : Char)
  /-- Any other argument. -/
  | plain (text : String)
  /-- The mark after which no argument is an option. -/
  | mark
deriving DecidableEq, Repr

namespace Item

/-- The item of a long option from its text behind the dashes; a value follows the first equals
sign. -/
def ofLong (text : List Char) : Item :=
  let name := String.ofList (text.takeWhile (· != '='))
  match text.dropWhile (· != '=') with
  | [] => long name none
  | _ :: value => long name (some (String.ofList value))

/-- The items of an argument that is not the mark. -/
def ofArgument (argument : String) : List Item :=
  match argument.toList with
  | '-' :: '-' :: text => [ofLong text]
  | '-' :: first :: others => (first :: others).map short
  | _ => [plain argument]

/-- Whether an argument can be the value of an option before it. -/
def isValue (argument : String) : Bool := !argument.startsWith "-" || argument == "-"

/-- The items of arguments. -/
def ofArguments : List String → List Item
  | [] => []
  | "--" :: rest => mark :: rest.map plain
  | "--types" :: value :: rest =>
    if isValue value then long "types" (some value) :: ofArguments rest
    else long "types" none :: ofArguments (value :: rest)
  | argument :: rest => ofArgument argument ++ ofArguments rest

end Item

/-! ### Reading items -/

/-- What ends the reading of items early. -/
inductive Halt where
  /-- Something else than a command is asked for. -/
  | answer (request : Request)
  /-- The items are no request. -/
  | refuse (error : UsageError)
deriving DecidableEq, Repr

/-- What is given on one side of the name of the command. -/
structure Given where
  /-- The path of the types file. -/
  types : Option String
  /-- Whether the option that only this command has is given. -/
  flag : Bool
  /-- The other arguments, latest first. -/
  paths : List String
deriving DecidableEq, Repr

namespace Given

/-- Nothing is given. -/
def nothing : Given := ⟨none, false, []⟩

/-- Reads an option that may stand on either side of the command. The verbose option is accepted
and changes nothing that the program answers. -/
def readShared (given : Given) : Item → Except Halt Given
  | .long "types" none => .error (.refuse (.missingValue "types"))
  | .long "types" (some value) =>
    if value.isEmpty then .error (.refuse (.missingValue "types"))
    else if given.types.isSome then .error (.refuse (.repeatedOption "types"))
    else .ok { given with types := some value }
  | .long "verbose" none | .short 'v' => .ok given
  | .long "help" none | .short 'h' => .error (.answer .help)
  | .long name (some _) =>
    if name = "verbose" ∨ name = "help" then .error (.refuse (.unexpectedValue name))
    else .error (.refuse (.unknownOption name))
  | .long name none => .error (.refuse (.unknownOption name))
  | .short letter => .error (.refuse (.unknownOption letter.toString))
  | .plain text => .error (.refuse (.unexpectedArgument text))
  | .mark => .error (.refuse (.unexpectedArgument "--"))

/-- Reads an item behind the name of a command that has an option `own` and takes at most `limit`
paths, where such bounds exist. -/
def read (own : Option String) (limit : Option Nat) (given : Given) (item : Item) :
    Except Halt Given :=
  match item with
  | .mark => .ok given
  | .plain path =>
    if limit.any (· ≤ given.paths.length) then .error (.refuse (.unexpectedArgument path))
    else if path.isEmpty then .error (.refuse .emptyPath)
    else .ok { given with paths := path :: given.paths }
  | .long name value =>
    if own = some name then
      if value.isSome then .error (.refuse (.unexpectedValue name))
      else if given.flag then .error (.refuse (.repeatedOption name))
      else .ok { given with flag := true }
    else given.readShared item
  | item => given.readShared item

/-- The only path, or the lack of it. -/
def path (given : Given) : Except Halt String :=
  match given.paths with
  | path :: _ => .ok path
  | [] => .error (.refuse .missingPath)

end Given

namespace Request

/-- The paths that a request names. -/
def paths : Request → List String
  | run types command => types.toList ++ command.paths
  | version | help => []

/-- The names of the commands. -/
def commandNames : List String := ["check", "tree", "fmt"]

/-- Reads the items behind the name of a command that asks for help with another. -/
def readHelp : List Item → Except Halt Request
  | [] => .ok help
  | .plain name :: rest =>
    if name = "help" ∨ name ∈ commandNames then
      match rest with
      | [] => .ok help
      | _ => .error (.refuse (.unknownCommand name))
    else .error (.refuse (.unknownCommand name))
  | _ => .error (.refuse .missingCommand)

/-- Reads the items behind the name of a command; `before` is given in front of it. -/
def readCommand (before : Given) (name : String) (items : List Item) : Except Halt Request :=
  match name with
  | "check" => do
    let given ← items.foldlM (Given.read none none) .nothing
    match given.paths.reverse with
    | path :: others => pure (run (given.types.or before.types) (.check path others))
    | [] => throw (.refuse .missingPath)
  | "tree" => do
    let given ← items.foldlM (Given.read (some "json") (some 1)) .nothing
    let path ← given.path
    pure (run (given.types.or before.types) (.tree path given.flag))
  | "fmt" => do
    let given ← items.foldlM (Given.read (some "check") (some 1)) .nothing
    let path ← given.path
    pure (run (given.types.or before.types) (.format path given.flag))
  | "help" => readHelp items
  | name => throw (.refuse (.unknownCommand name))

/-- Reads items from the front, where only shared options, the version and a command may stand. -/
def readItems (before : Given) : List Item → Except Halt Request
  | [] => .error (.refuse .missingCommand)
  | .plain name :: items => readCommand before name items
  | .long "version" none :: _ | .short 'V' :: _ => .error (.answer version)
  | .long "version" (some _) :: _ => .error (.refuse (.unexpectedValue "version"))
  | item :: items => do
    let before ← before.readShared item
    readItems before items

/-- The request that arguments make. -/
def ofArguments (arguments : List String) : Except UsageError Request :=
  match readItems .nothing (Item.ofArguments arguments) with
  | .ok request => .ok request
  | .error (.answer request) => .ok request
  | .error (.refuse error) => .error error

end Request

end CommandTree.CommandLine
