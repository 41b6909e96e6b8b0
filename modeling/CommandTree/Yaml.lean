import CommandTree.Yaml.YamlScalar

/-!
# YAML values

A YAML document is a node: a scalar, a list of nodes, or a mapping from nodes to nodes. A node that
is written elsewhere is referred to, and `YamlDocument.resolve` finds it. What a scalar means
depends on what is wanted where it stands, and also on its style and its tag: a plain scalar that
looks like a number may be one, and so may any scalar with the tag of whole numbers.
-/

set_option autoImplicit false

namespace CommandTree

open YamlText (naturalIn?)

/-- A node of a YAML document. -/
inductive Yaml where
  /-- A scalar; an omitted node is an empty plain one. -/
  | scalar (tag : Option String) (style : ScalarStyle) (text : String)
  /-- A list of nodes. -/
  | sequence (elements : List Yaml)
  /-- Nodes under nodes, in the order in which they are written. -/
  | mapping (fields : List (Yaml × Yaml))
  /-- The node in some slot of the document. -/
  | reference (slot : Nat)

namespace Yaml

/-- An omitted node. -/
def omitted : Yaml := scalar none .plain ""

/-! ### Tags -/

/-- The tag of a kind of values that all documents know. -/
def coreTag (kind : String) : String := "tag:yaml.org,2002:" ++ kind

/-- Whether a tag is one of those that each program may use for values of its own. -/
def isLocalTag (tag : String) : Bool := tag.startsWith "!"

/-! ### The meaning of scalars -/

/-- The texts that stand for the absent value. -/
def isNull (text : String) : Bool := ["~", "null", "Null", "NULL"].contains text

/-- The truth value of a text. -/
def bool? (text : String) : Option Bool :=
  if ["true", "True", "TRUE"].contains text then some true
  else if ["false", "False", "FALSE"].contains text then some false
  else none

/-- The number that some characters without a sign stand for: decimal digits without a leading
zero, or digits behind one of the marks of other bases. -/
def unsigned? : List Char → Option Nat
  | '0' :: 'x' :: digits => naturalIn? 16 digits
  | '0' :: 'o' :: digits => naturalIn? 8 digits
  | '0' :: 'b' :: digits => naturalIn? 2 digits
  | '0' :: _ :: _ => none
  | digits => naturalIn? 10 digits

/-- The natural number of a text, which may have a plus sign. -/
def natural? (text : String) : Option Nat :=
  match text.toList with
  | '+' :: cs => unsigned? cs
  | cs => unsigned? cs

/-- The whole number of a text, which may have a sign. -/
def integer? (text : String) : Option Int :=
  match text.toList with
  | '+' :: cs => (unsigned? cs).map Int.ofNat
  | '-' :: cs => (unsigned? cs).map fun n => -Int.ofNat n
  | cs => (unsigned? cs).map Int.ofNat

end Yaml

/-- A YAML document. -/
structure YamlDocument where
  /-- The node that it consists of. -/
  root : Yaml
  /-- The nodes in its slots. -/
  slots : List (Nat × Yaml)
  /-- The number of starts and ends of nodes in it, where a scalar and a reference count once. -/
  size : Nat

namespace YamlDocument

/-- The node that a node refers to, or the node itself if it is not a reference. -/
def resolve (d : YamlDocument) : Yaml → Yaml
  | .reference slot => (d.slots.lookup slot).getD (.reference slot)
  | node => node

/-- The number of references that are followed in reading a node down to some depth. -/
def followed (d : YamlDocument) : (depth : Nat) → Yaml → Nat
  | 0, _ => 0
  | depth + 1, node =>
    let own :=
      match node with
      | .reference _ => 1
      | _ => 0
    match d.resolve node with
    | .sequence elements => elements.foldl (fun n element => n + d.followed depth element) own
    | .mapping fields =>
      fields.foldl (fun n (name, value) => n + d.followed depth name + d.followed depth value) own
    | _ => own

/-- Whether no more references are followed in reading a document down to some depth than it may
contain for its size. -/
def isModest (d : YamlDocument) (depth : Nat) : Bool := d.followed depth d.root ≤ 100 * d.size

end YamlDocument

end CommandTree
