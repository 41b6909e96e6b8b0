import CommandTree.FileSystem
import CommandTree.Tree.Parser

/-!
# Reading trees from files

A file is read line by line under its own path as the name of the source.
-/

set_option autoImplicit false

namespace CommandTree.Tree

/-- Reads the tree of the command file at a path. -/
def parseFile (fs : FileSystem) (registry : Registry) (settings : Settings) (path : String) :
    Except Diagnostic Tree :=
  match fs.source path with
  | .error e => .error (.onLine (.cannotOpen path e) 1)
  | .ok source => parse registry (settings.named path) source

end CommandTree.Tree
