import CommandTree.Tree

/-!
# Drafts of trees

A draft has the shape of a tree and is put together freely, by a host or from a serialized tree.
`Draft.build` makes a tree of it unless two siblings share a name. The children of a node are
visited in order; each is first compared with the siblings before it and then built itself, so the
duplicate that is reported is the first one in pre-order.
-/

set_option autoImplicit false

namespace CommandTree

/-- A tree in the making. A node without a type is a literal. -/
inductive Draft where
  /-- A node from its name, its type and its children in order. -/
  | node (name : String) (type : Option ArgType) (children : List Draft)

namespace Draft

/-- The draft of a literal without children. -/
def literal (name : String) : Draft := node name none []

/-- The draft of an argument without children. -/
def argument (name : String) (type : ArgType) : Draft := node name (some type) []

/-- The name of a node. -/
def name : Draft → String
  | node name _ _ => name

/-- Adds a child behind the others. -/
def andThen : Draft → Draft → Draft
  | node name type children, child => node name type (children ++ [child])

mutual

/-- The tree of a draft, or the first sibling that repeats a name. -/
def build : Draft → Except DuplicateChild Tree
  | node name type children =>
    match buildAll name [] children with
    | .ok trees => .ok (.node name type trees)
    | .error e => .error e

/-- The trees of the drafts under `parent` that follow siblings of the names `seen`. -/
def buildAll (parent : String) (seen : List String) :
    List Draft → Except DuplicateChild (List Tree)
  | [] => .ok []
  | d :: ds =>
    if d.name ∈ seen then .error ⟨parent, d.name⟩
    else
      match build d with
      | .error e => .error e
      | .ok t =>
        match buildAll parent (d.name :: seen) ds with
        | .error e => .error e
        | .ok ts => .ok (t :: ts)

end

mutual

/-- The draft of a tree that exists. -/
def ofTree : Tree → Draft
  | .node name type children => node name type (ofTrees children)

/-- The drafts of trees that exist. -/
def ofTrees : List Tree → List Draft
  | [] => []
  | t :: ts => ofTree t :: ofTrees ts

end

end Draft

end CommandTree
