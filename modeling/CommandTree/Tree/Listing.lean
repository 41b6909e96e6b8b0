import CommandTree.Tree

/-!
# Listing trees

A listing has a node to a line, indented by two blanks a level. Literals are shown by their names,
arguments by their names in angle brackets and the words of their types. Nothing is quoted, so a
listing is for reading only.
-/

set_option autoImplicit false

namespace CommandTree.Tree

/-- What is shown of a node by itself. -/
def caption (t : Tree) : String :=
  match t.type with
  | none => t.name
  | some type => "<" ++ t.name ++ "> " ++ " ".intercalate type.words

/-- The line of a node that a path leads to. -/
def listingLine (path : List String) (t : Tree) : String :=
  String.ofList (List.replicate (2 * (path.length - 1)) ' ') ++ t.caption ++ "\n"

/-- The lines of all nodes in pre-order. -/
def listing (t : Tree) : String := String.join (t.walk.map fun (path, t) => listingLine path t)

end CommandTree.Tree
