/-!
# Failures to get at a file

These are the answers of a file system that refuses a path. Their wording, with the number that
the system knows them by, is shown below the message they caused.
-/

set_option autoImplicit false

namespace CommandTree

/-- Why a path does not lead to a readable file. -/
inductive AccessError where
  /-- There is nothing at the path. -/
  | notFound
  /-- The path leads through a file as if it were a directory. -/
  | notADirectory
  /-- The path leads to a directory where a file is wanted. -/
  | isADirectory
  /-- The file is not UTF-8, where the whole text is wanted at once. -/
  | notUtf8
  /-- Something else, in the words of the system. -/
  | other (message : String)
deriving DecidableEq, Repr

namespace AccessError

/-- The wording of a failure. -/
def message : AccessError → String
  | notFound => "No such file or directory (os error 2)"
  | notADirectory => "Not a directory (os error 20)"
  | isADirectory => "Is a directory (os error 21)"
  | notUtf8 => "stream did not contain valid UTF-8"
  | other message => message

end AccessError

end CommandTree
