import CommandTree.ArgType

/-!
# Command trees

A command tree is a node with a name, an argument type unless the node is a literal, and a list of
subtrees. Siblings are told apart by their names, so a tree should not hold two siblings of one
name; `Tree.Distinct` says so for a whole tree.

The module also has the questions one asks a tree: the node at the end of a path of names, all
nodes with their paths in pre-order, their number, and the number of levels.
-/

set_option autoImplicit false

namespace CommandTree

/-- A node of a command tree with everything below it. A node without a type is a literal. -/
inductive Tree where
  /-- A node from its name, its type and its children in order. -/
  | node (name : String) (type : Option ArgType) (children : List Tree)

/-- Two children of one node share a name. -/
structure DuplicateChild where
  /-- The name of the node that has them. -/
  parent : String
  /-- The name that they share. -/
  name : String
deriving DecidableEq, Repr

/-- The wording of a duplicate. -/
def DuplicateChild.message (d : DuplicateChild) : String :=
  "duplicate child node '" ++ d.name ++ "' under '" ++ d.parent ++ "'"

namespace Tree

/-- The name of a node. -/
def name : Tree → String
  | node name _ _ => name

/-- The type of an argument; a literal has none. -/
def type : Tree → Option ArgType
  | node _ type _ => type

/-- The subtrees right below a node. -/
def children : Tree → List Tree
  | node _ _ children => children

/-- Whether a node matches its own name and captures nothing. -/
def isLiteral (t : Tree) : Bool := t.type.isNone

/-- The same tree with another name at its root. -/
def renamed (t : Tree) (name : String) : Tree := node name t.type t.children

/-- The child of a given name. -/
def child? (t : Tree) (name : String) : Option Tree := t.children.find? (·.name == name)

/-- The node at the end of a path of names that starts below this node. -/
def find? (t : Tree) : List String → Option Tree
  | [] => some t
  | name :: path => (t.child? name).bind (find? · path)

mutual

/-- The number of nodes of a tree. -/
def nodeCount : Tree → Nat
  | node _ _ children => 1 + nodeCountAll children

/-- The number of nodes of a list of trees. -/
def nodeCountAll : List Tree → Nat
  | [] => 0
  | t :: ts => nodeCount t + nodeCountAll ts

end

mutual

/-- The number of levels of a tree; a leaf has one. -/
def depth : Tree → Nat
  | node _ _ children => 1 + depthAll children

/-- The number of levels of the deepest of a list of trees. -/
def depthAll : List Tree → Nat
  | [] => 0
  | t :: ts => max (depth t) (depthAll ts)

end

mutual

/-- No two siblings anywhere in the tree share a name. -/
def Distinct : Tree → Prop
  | node _ _ children => (children.map name).Nodup ∧ DistinctAll children

/-- Every tree of a list has distinct siblings throughout. -/
def DistinctAll : List Tree → Prop
  | [] => True
  | t :: ts => Distinct t ∧ DistinctAll ts

end

mutual

/-- Equality of trees in which bounds are compared as numbers. -/
def agrees : Tree → Tree → Bool
  | node name type children, node name' type' children' =>
    name == name' &&
      (match type, type' with
        | none, none => true
        | some t, some t' => t.agrees t'
        | _, _ => false) &&
      agreesAll children children'

/-- Equality of lists of trees in which bounds are compared as numbers. -/
def agreesAll : List Tree → List Tree → Bool
  | [], [] => true
  | t :: ts, t' :: ts' => agrees t t' && agreesAll ts ts'
  | _, _ => false

end

/-- The nodes of two lists of trees add up. -/
theorem nodeCountAll_append (ts us : List Tree) :
    nodeCountAll (ts ++ us) = nodeCountAll ts + nodeCountAll us := by
  induction ts with
  | nil => simp [nodeCountAll]
  | cons t ts ih => simp only [List.cons_append, nodeCountAll, ih]; omega

/-- A tree has its root and the nodes of its children. -/
theorem nodeCount_eq (t : Tree) : t.nodeCount = 1 + nodeCountAll t.children := by
  cases t
  rfl

/-- Visits the nodes that wait, first to last, each together with the path that leads to it. The
children of a visited node wait before all others. -/
def visit : List (List String × Tree) → List (List String × Tree)
  | [] => []
  | (path, t) :: waiting =>
    (path, t) :: visit (t.children.map (fun c => (path ++ [c.name], c)) ++ waiting)
termination_by waiting => nodeCountAll (waiting.map Prod.snd)
decreasing_by
  have hsnd : (Prod.snd ∘ fun c : Tree => (path ++ [c.name], c)) = id := rfl
  simp only [List.map_append, List.map_map, hsnd, List.map_id, nodeCountAll_append, List.map_cons,
    nodeCountAll, nodeCount_eq t]
  omega

/-- All nodes in pre-order, each with the path of names that leads to it from the root. -/
def walk (t : Tree) : List (List String × Tree) := visit [([t.name], t)]

end Tree

end CommandTree
