import CommandTree.Token.Quoted
import CommandTree.Tree

/-!
# Writing trees

The canonical form of a tree has a node to a line, indented by four blanks a level. A node without
children ends in a semicolon; the scope of any other node starts at the end of its line and ends on
a line of its own. Words are quoted where they have to be.
-/

set_option autoImplicit false

namespace CommandTree.Tree

/-- The blanks before a node on a level; the root is on level zero. -/
def indent (level : Nat) : String := String.ofList (List.replicate (4 * level) ' ')

/-- The words before the body of a node: its name and, for an argument, those of its type. -/
def headWords (name : String) (type : Option ArgType) : List String :=
  name :: (type.map ArgType.words).getD []

/-- The text before the body of a node. -/
def headText (name : String) (type : Option ArgType) : String :=
  " ".intercalate ((headWords name type).map Quoted.write)

mutual

/-- Appends the canonical form of a tree whose root is on a level. -/
def write (level : Nat) (out : String) : Tree → String
  | node name type children =>
    let head := out ++ indent level ++ headText name type
    if children.isEmpty then head ++ ";\n"
    else writeAll (level + 1) (head ++ " \x7b\n") children ++ indent level ++ "\x7d\n"

/-- Appends the canonical forms of trees whose roots are on a level. -/
def writeAll (level : Nat) (out : String) : List Tree → String
  | [] => out
  | t :: ts => writeAll level (write level out t) ts

end

/-- The canonical form of a tree. -/
def source (t : Tree) : String := write 0 "" t

end CommandTree.Tree
