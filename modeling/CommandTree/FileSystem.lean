import CommandTree.AccessError
import CommandTree.Source
import CommandTree.Text.Split

/-!
# Files and directories

A file system answers for every path with an entry, which is a file or a directory, or with a
failure. One is made from a single directory, in which paths are followed name by name.

A directory can be read from as little as a file that is missing can be opened, but it is noticed
later: it opens, and then the first read fails.

A directory always has its entries at hand. A directory that cannot be listed, because reading it
is not permitted or fails on the way, is left out: there the walk of `FileSystem.collect` would
fail, and with it the whole check, before any file is looked at.
-/

set_option autoImplicit false

namespace CommandTree

/-- What a path leads to. -/
inductive Entry where
  /-- A file with its contents. -/
  | file (contents : Source)
  /-- A directory with its entries by name. -/
  | directory (entries : List (String × Entry))

/-- The answers for all paths. -/
structure FileSystem where
  /-- What a path leads to. -/
  entry : String → Except AccessError Entry

namespace Entry

/-- Whether an entry is a directory. -/
def isDirectory : Entry → Bool
  | directory _ => true
  | file _ => false

/-- Follows names downwards from an entry; `above` are the directories it lies in, the nearest
first. -/
def follow (above : List Entry) (here : Entry) : List String → Except AccessError Entry
  | [] => .ok here
  | name :: rest =>
    match here with
    | file _ => .error .notADirectory
    | directory entries =>
      if name = "." ∨ name = "" then follow above here rest
      else if name = ".." then
        match above with
        | parent :: others => follow others parent rest
        | [] => .error .notFound
      else
        match entries.lookup name with
        | some next => follow (here :: above) next rest
        | none => .error .notFound

/-- Puts a file at the end of a path of names, making the directories on the way. -/
def putFile (contents : Source) : List String → List (String × Entry) → List (String × Entry)
  | [], entries => entries
  | [name], entries => (name, file contents) :: entries.filter (·.1 != name)
  | name :: next :: rest, entries =>
    let inner :=
      match entries.lookup name with
      | some (directory inner) => inner
      | _ => []
    (name, directory (putFile contents (next :: rest) inner)) :: entries.filter (·.1 != name)

/-- Makes an empty directory at the end of a path of names, and those on the way. -/
def putDirectory : List String → List (String × Entry) → List (String × Entry)
  | [], entries => entries
  | name :: rest, entries =>
    let inner :=
      match entries.lookup name with
      | some (directory inner) => inner
      | _ => []
    (name, directory (putDirectory rest inner)) :: entries.filter (·.1 != name)

end Entry

namespace FileSystem

/-- The names that a path consists of. -/
def names (path : String) : List String := (Split.parts '/' path.toList).map String.ofList

/-- The file system that consists of one directory, where the paths start. -/
def ofDirectory (entries : List (String × Entry)) : FileSystem where
  entry path :=
    if path.isEmpty ∨ path.startsWith "/" then .error .notFound
    else Entry.follow [] (.directory entries) (names path)

/-- The part of a path that leads on from the directory at another path, if it does. -/
def beyond? (base path : String) : Option String :=
  let base := if base.endsWith "/" then base else base ++ "/"
  if path.startsWith base then some (String.ofList (path.toList.drop base.length)) else none

/-- The file system with the given answers for paths. The answer for any other path is found in a
directory above it, and where there is none, there is nothing. -/
def ofAnswers (answers : List (String × Except AccessError Entry)) : FileSystem where
  entry path :=
    match answers.lookup path with
    | some answer => answer
    | none =>
      (answers.findSome? fun (base, answer) =>
        (beyond? base path).map fun rest => answer.bind (Entry.follow [] · (names rest))).getD
          (.error .notFound)

/-- Whether a path leads to a directory. -/
def isDirectory (fs : FileSystem) (path : String) : Bool :=
  match fs.entry path with
  | .ok entry => entry.isDirectory
  | .error _ => false

/-- The source at a path, to be read line by line. -/
def source (fs : FileSystem) (path : String) : Except AccessError Source :=
  match fs.entry path with
  | .ok (.file contents) => .ok contents
  | .ok (.directory _) => .ok (Source.unreadable AccessError.isADirectory.message)
  | .error e => .error e

/-- The characters of lines, if all of them are text. -/
def textOfLines : List Line → Option (List Char)
  | [] => some []
  | .undecodable :: _ => none
  | .text first others :: lines => (textOfLines lines).map (first :: others ++ ·)

/-- The whole text at a path. -/
def text (fs : FileSystem) (path : String) : Except AccessError String :=
  match fs.entry path with
  | .ok (.file ⟨lines, .endOfInput⟩) =>
    match textOfLines lines with
    | some chars => .ok (String.ofList chars)
    | none => .error .notUtf8
  | .ok (.file ⟨_, .failure _ message⟩) => .error (.other message)
  | .ok (.directory _) => .error .isADirectory
  | .error e => .error e

/-! ### Command files in directories -/

/-- The ending of the names of command files. -/
def commandFileExtension : String := "commodore"

/-- What follows the last dot of a name, unless that dot is the first character. -/
def extension? (name : String) : Option String :=
  match Split.parts '.' name.toList with
  | [_] => none
  | [[], _] => none
  | parts => parts.getLast?.map String.ofList

/-- Whether a name is that of a command file. -/
def isCommandFileName (name : String) : Bool := extension? name == some commandFileExtension

/-- The path of an entry of the directory at a path. -/
def child (path name : String) : String :=
  if path.endsWith "/" then path ++ name else path ++ "/" ++ name

mutual

/-- The paths of the command files at or below an entry that has a name and a path. -/
def commandFilesAt (name path : String) : Entry → List String
  | .file _ => if isCommandFileName name then [path] else []
  | .directory entries => commandFilesIn path entries

/-- The paths of the command files below the directory at a path, its entries in the order of
their names. -/
def commandFilesIn (path : String) (entries : List (String × Entry)) : List String :=
  ((commandFilesOf path entries).mergeSort fun a b => a.1 ≤ b.1).flatMap Prod.snd

/-- The names of entries, each with the paths of the command files at or below the entry. -/
def commandFilesOf (path : String) : List (String × Entry) → List (String × List String)
  | [] => []
  | (name, entry) :: rest =>
    (name, commandFilesAt name (child path name) entry) :: commandFilesOf path rest

end

/-- The files that a path argument stands for: the command files below it if it is a directory, and
otherwise whatever is at the path. The walk through a directory cannot fail, since directories that
cannot be listed are left out of file systems. -/
def collect (fs : FileSystem) (path : String) : List String :=
  match fs.entry path with
  | .ok (.directory entries) => commandFilesIn path entries
  | _ => [path]

end FileSystem

end CommandTree
