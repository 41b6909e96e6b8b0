import CommandTree.Yaml
import CommandTree.Yaml.YamlError
import CommandTree.Yaml.YamlToken

/-!
# Reading YAML documents

The structure of a document follows from its tokens. A node may have an anchor and a tag, and is
omitted where no token can start it. A text holds at most one document, and an omitted document is
an omitted node.

The nodes with anchors have slots. A name that was not in use gets the slot whose number is the
number of names in use. A name that was in use moves to the slot that the next new name would get,
and shares it from then on. What a slot holds is the last node that has got it.
-/

set_option autoImplicit false

namespace CommandTree.Yaml

/-! ### Anchors and tags -/

/-- What the nodes of a document have in common. -/
structure Scope where
  /-- The handles of tags and what they stand for. -/
  handles : List (String × String)
  /-- The slots of the names in use. -/
  names : List (String × Nat)
  /-- The slots of the nodes with anchors, by the number of such nodes before, latest first. -/
  taken : List (Nat × Nat)
  /-- The nodes with anchors that were read, by the same number. -/
  nodes : List (Nat × Yaml)
  /-- The number of starts and ends of nodes that were read. -/
  size : Nat

namespace Scope

/-- The handles that every document knows. -/
def standardHandles : List (String × String) := [("!", "!"), ("!!", coreTag "")]

/-- The scope at the start of a document with handles of its own. -/
def ofHandles (handles : List (String × String)) : Scope :=
  ⟨handles ++ standardHandles, [], [], [], 0⟩

/-- The tag that a handle and a suffix make up. -/
def tag? (s : Scope) (handle suffix : String) : Option String :=
  if handle.isEmpty then some suffix else (s.handles.lookup handle).map (· ++ suffix)

/-- Gives a node that starts a slot, if it has an anchor. -/
def take (s : Scope) : (anchor : Option String) → Scope
  | none => s
  | some name =>
    let slot := s.names.length
    { s with
      names := (name, slot) :: s.names.filter (·.1 != name)
      taken := (slot, s.taken.length) :: s.taken }

/-- Puts a node in the slot that it was given when the scope was another one. -/
def put (s start : Scope) (anchor : Option String) (node : Yaml) : Scope :=
  if anchor.isSome then { s with nodes := (start.taken.length, node) :: s.nodes } else s

/-- Counts starts and ends of nodes. -/
def count (s : Scope) (marks : Nat) : Scope := { s with size := s.size + marks }

/-- The document with a root. -/
def document (s : Scope) (root : Yaml) : YamlDocument :=
  let slots := s.taken.filterMap fun (slot, number) =>
    (s.nodes.lookup number).map fun node => (slot, node)
  ⟨root, slots, s.size⟩

end Scope

/-! ### Nodes -/

/-- Whether a token starts a node, which a hyphen does for a list in the column of its name. -/
def startsNode (inColumn : Bool) : YamlToken → Bool
  | .scalar _ _ => true
  | .hyphen => inColumn
  | .openMapping => true
  | .openSequence => true
  | .blockMapping => true
  | .blockSequence => true
  | .anchor _ => true
  | .reference _ => true
  | .tag _ _ => true
  | _ => false

/-- The anchor, the tag and the rest of the tokens of a node. -/
def readProperties (s : Scope) (ts : List YamlToken) :
    Option (Option String × Option String × { rest : List YamlToken // rest.length ≤ ts.length }) :=
  match ts with
  | .anchor name :: .tag handle suffix :: rest =>
    (s.tag? handle suffix).map fun tag =>
      (some name, some tag, ⟨rest, Nat.le_succ_of_le (Nat.le_succ _)⟩)
  | .tag handle suffix :: .anchor name :: rest =>
    (s.tag? handle suffix).map fun tag =>
      (some name, some tag, ⟨rest, Nat.le_succ_of_le (Nat.le_succ _)⟩)
  | .anchor name :: rest => some (some name, none, ⟨rest, Nat.le_succ _⟩)
  | .tag handle suffix :: rest =>
    (s.tag? handle suffix).map fun tag => (none, some tag, ⟨rest, Nat.le_succ _⟩)
  | rest => some (none, none, ⟨rest, Nat.le_refl _⟩)

/-- What is left of the tokens after something that took some of them. -/
abbrev Fewer (ts : List YamlToken) : Type := { rest : List YamlToken // rest.length < ts.length }

/-- What is left of the tokens after something that may have taken some of them. -/
abbrev NoMore (ts : List YamlToken) : Type := { rest : List YamlToken // rest.length ≤ ts.length }

mutual

/-- Reads a node. -/
def readNode (s : Scope) (inColumn : Bool) (ts : List YamlToken) :
    Option (Yaml × Scope × Fewer ts) :=
  match ts with
  | .reference name :: rest =>
    (s.names.lookup name).map fun slot => (.reference slot, s.count 1, ⟨rest, Nat.lt_succ_self _⟩)
  | ts =>
    match readProperties s ts with
    | none => none
    | some (anchor, tag, ⟨rest, hrest⟩) =>
      if rest.head?.any (startsNode inColumn) then
        match readContent (s.take anchor) inColumn tag rest with
        | none => none
        | some (node, s', ⟨r, h⟩) =>
          some (node, s'.put s anchor node, ⟨r, Nat.lt_of_lt_of_le h hrest⟩)
      else if h : rest.length < ts.length then
        let node := scalar tag .plain ""
        some (node, ((s.take anchor).put s anchor node).count 1, ⟨rest, h⟩)
      else none
termination_by 8 * ts.length + 2
decreasing_by omega

/-- Reads what a node consists of besides its anchor and its tag. -/
def readContent (s : Scope) (inColumn : Bool) (tag : Option String) (ts : List YamlToken) :
    Option (Yaml × Scope × Fewer ts) :=
  match ts with
  | .scalar style text :: rest =>
    let tag := if tag == some "!" then none else tag
    some (scalar tag style text, s.count 1, ⟨rest, Nat.lt_succ_self _⟩)
  | .openMapping :: rest =>
    match readFlowFields (s.count 2) [] rest with
    | none => none
    | some (fields, s, ⟨r, h⟩) => some (mapping fields, s, ⟨r, Nat.lt_succ_of_le h⟩)
  | .openSequence :: rest =>
    match readFlowElements (s.count 2) [] rest with
    | none => none
    | some (elements, s, ⟨r, h⟩) => some (sequence elements, s, ⟨r, Nat.lt_succ_of_le h⟩)
  | .blockMapping :: rest =>
    match readBlockFields (s.count 2) [] rest with
    | none => none
    | some (fields, s, ⟨r, h⟩) => some (mapping fields, s, ⟨r, Nat.lt_succ_of_le h⟩)
  | .blockSequence :: rest =>
    match readBlockElements (s.count 2) [] rest with
    | some (elements, s, ⟨.blockEnd :: r, h⟩) =>
      some (sequence elements, s, ⟨r, Nat.lt_succ_of_le (Nat.le_of_succ_le h)⟩)
    | _ => none
  | .hyphen :: rest =>
    if inColumn then
      match readOptional (s.count 2) false rest with
      | none => none
      | some (element, s, ⟨r, h⟩) =>
        match readBlockElements s [element] r with
        | none => none
        | some (elements, s, ⟨q, hq⟩) =>
          some (sequence elements, s, ⟨q, Nat.lt_succ_of_le (Nat.le_trans hq h)⟩)
    else none
  | _ => none
termination_by 8 * ts.length + 1
decreasing_by all_goals simp only [List.length_cons]; omega

/-- Reads a node that may be omitted. -/
def readOptional (s : Scope) (inColumn : Bool) (ts : List YamlToken) :
    Option (Yaml × Scope × NoMore ts) :=
  if ts.head?.any (startsNode inColumn) then
    match readNode s inColumn ts with
    | none => none
    | some (node, s, ⟨r, h⟩) => some (node, s, ⟨r, Nat.le_of_lt h⟩)
  else some (omitted, s.count 1, ⟨ts, Nat.le_refl _⟩)
termination_by 8 * ts.length + 3

/-- Reads a name and its value, both of which may be omitted, from behind the mark of a name. -/
def readField (s : Scope) (inColumn : Bool) (ts : List YamlToken) :
    Option ((Yaml × Yaml) × Scope × NoMore ts) :=
  match readOptional s inColumn ts with
  | none => none
  | some (name, s, ⟨.colon :: r, h⟩) =>
    match readOptional s inColumn r with
    | none => none
    | some (value, s, ⟨q, hq⟩) =>
      some ((name, value), s, ⟨q, Nat.le_trans hq (Nat.le_of_succ_le h)⟩)
  | some (name, s, r) => some ((name, omitted), s.count 1, r)
termination_by 8 * ts.length + 4
decreasing_by
  · omega
  · simp only [List.length_cons] at h
    omega

/-- Reads the fields of a mapping by indentation on, up to its end; those read already are given
latest first. -/
def readBlockFields (s : Scope) (read : List (Yaml × Yaml)) (ts : List YamlToken) :
    Option (List (Yaml × Yaml) × Scope × NoMore ts) :=
  match ts with
  | .name :: rest =>
    match readField s true rest with
    | none => none
    | some (field, s, ⟨r, h⟩) =>
      match readBlockFields s (field :: read) r with
      | none => none
      | some (fields, s, ⟨q, hq⟩) =>
        some (fields, s, ⟨q, Nat.le_succ_of_le (Nat.le_trans hq h)⟩)
  | .blockEnd :: rest => some (read.reverse, s, ⟨rest, Nat.le_succ _⟩)
  | _ => none
termination_by 8 * ts.length + 5
decreasing_by
  · simp only [List.length_cons]
    omega
  · simp only [List.length_cons]
    omega

/-- Reads the elements of a list behind hyphens on; those read already are given latest first. -/
def readBlockElements (s : Scope) (read : List Yaml) (ts : List YamlToken) :
    Option (List Yaml × Scope × NoMore ts) :=
  match ts with
  | .hyphen :: rest =>
    match readOptional s false rest with
    | none => none
    | some (element, s, ⟨r, h⟩) =>
      match readBlockElements s (element :: read) r with
      | none => none
      | some (elements, s, ⟨q, hq⟩) =>
        some (elements, s, ⟨q, Nat.le_succ_of_le (Nat.le_trans hq h)⟩)
  | ts => some (read.reverse, s, ⟨ts, Nat.le_refl _⟩)
termination_by 8 * ts.length + 4
decreasing_by
  · simp only [List.length_cons]
    omega
  · simp only [List.length_cons]
    omega

/-- Reads a field of a mapping in braces, whose name is marked if it has a value. -/
def readFlowField (s : Scope) (ts : List YamlToken) :
    Option ((Yaml × Yaml) × Scope × NoMore ts) :=
  match ts with
  | .name :: rest =>
    match readField s false rest with
    | none => none
    | some (field, s, ⟨r, h⟩) => some (field, s, ⟨r, Nat.le_succ_of_le h⟩)
  | ts =>
    match readNode s false ts with
    | none => none
    | some (name, s, ⟨r, h⟩) => some ((name, omitted), s.count 1, ⟨r, Nat.le_of_lt h⟩)
termination_by 8 * ts.length + 5

/-- Reads the fields of a mapping in braces on, up to its end; those read already are given latest
first. -/
def readFlowFields (s : Scope) (read : List (Yaml × Yaml)) (ts : List YamlToken) :
    Option (List (Yaml × Yaml) × Scope × NoMore ts) :=
  match ts with
  | .closeMapping :: rest => some (read.reverse, s, ⟨rest, Nat.le_succ _⟩)
  | ts =>
    match readFlowField s ts with
    | some (field, s, ⟨.comma :: r, h⟩) =>
      match readFlowFields s (field :: read) r with
      | none => none
      | some (fields, s, ⟨q, hq⟩) => some (fields, s, ⟨q, Nat.le_trans hq (Nat.le_of_succ_le h)⟩)
    | some (field, s, ⟨.closeMapping :: r, h⟩) =>
      some ((field :: read).reverse, s, ⟨r, Nat.le_of_succ_le h⟩)
    | _ => none
termination_by 8 * ts.length + 6

/-- Reads the elements of a list in brackets on, up to its end; those read already are given latest
first. -/
def readFlowElements (s : Scope) (read : List Yaml) (ts : List YamlToken) :
    Option (List Yaml × Scope × NoMore ts) :=
  match ts with
  | .closeSequence :: rest => some (read.reverse, s, ⟨rest, Nat.le_succ _⟩)
  | ts =>
    match readFlowElement s ts with
    | some (element, s, ⟨.comma :: r, h⟩) =>
      match readFlowElements s (element :: read) r with
      | none => none
      | some (elements, s, ⟨q, hq⟩) =>
        some (elements, s, ⟨q, Nat.le_trans hq (Nat.le_of_succ_le h)⟩)
    | some (element, s, ⟨.closeSequence :: r, h⟩) =>
      some ((element :: read).reverse, s, ⟨r, Nat.le_of_succ_le h⟩)
    | _ => none
termination_by 8 * ts.length + 6

/-- Reads an element of a list in brackets, which is a mapping if a name is marked. -/
def readFlowElement (s : Scope) (ts : List YamlToken) : Option (Yaml × Scope × NoMore ts) :=
  match ts with
  | .name :: rest =>
    match readField (s.count 2) false rest with
    | none => none
    | some (field, s, ⟨r, h⟩) => some (mapping [field], s, ⟨r, Nat.le_succ_of_le h⟩)
  | ts =>
    match readNode s false ts with
    | none => none
    | some (node, s, ⟨r, h⟩) => some (node, s, ⟨r, Nat.le_of_lt h⟩)
termination_by 8 * ts.length + 5

end

/-! ### Documents -/

/-- Reads the directives in front of a document: its handles, whether its version is said, and the
rest. A handle has one meaning, and the version is said once. -/
def readDirectives (handles : List (String × String)) (hasVersion : Bool) :
    List YamlToken → Option (List (String × String) × List YamlToken)
  | .directive .version :: rest =>
    if hasVersion then none else readDirectives handles true rest
  | .directive (.handle name text) :: rest =>
    if (handles.lookup name).isSome then none
    else readDirectives ((name, text) :: handles) hasVersion rest
  | rest => some (handles, rest)

/-- Reads a document from its tokens. Directives and the mark that starts a document stand in front
of it; without them it may not be omitted. -/
def readDocument (ts : List YamlToken) : Option (YamlDocument × List YamlToken) :=
  match readDirectives [] false ts with
  | none => none
  | some (handles, .documentStart :: rest) =>
    (readOptional (.ofHandles handles) false rest).map fun (node, s, r) => (s.document node, r.val)
  | some (_, rest) =>
    if rest.length < ts.length then none
    else if rest.isEmpty then some ((Scope.ofHandles []).document omitted, [])
    else (readNode (.ofHandles []) false rest).map fun (node, s, r) => (s.document node, r.val)

/-- Reads the document of a text. Behind it there may only be marks that end it. -/
def read (text : String) : Except YamlError YamlDocument :=
  match (YamlToken.ofChars? text.toList).bind readDocument with
  | some (document, rest) =>
    if rest.all (· == .documentEnd) then .ok document else .error .malformed
  | none => .error .malformed

end CommandTree.Yaml
