import CommandTree.Registry
import CommandTree.Settings

/-!
# Reading trees

A node is a name, for an argument followed by its type, and then either a semicolon or the nodes of
its scope between braces. A command file holds one node, which is a literal. Reading stops at the
first problem; there is no partial tree.

The children of a scope are read in a loop that looks at the next token before it reads a node, so
that a repeated name is reported before the node that bears it. Every part of a node takes at least
one token, so what is left of the stream has become smaller and the loop ends.
-/

set_option autoImplicit false

namespace CommandTree.Tree

/-- A problem together with the stream as it was left. -/
structure Stopped where
  /-- The problem. -/
  diagnostic : Diagnostic
  /-- The stream, which tells how much of the source was loaded. -/
  stream : TokenStream

/-- A stream with less to come than a bound. -/
abbrev Left (bound : Nat) : Type := { s : TokenStream // s.size < bound }

/-- Reads a name; any other token is the given problem. -/
def readName (problem : Token → Problem) (s : TokenStream) :
    Except Stopped (Located String × Left s.size) :=
  match h : s.next with
  | (.error d, s') => .error ⟨d, s'⟩
  | (.ok ⟨.word text, span⟩, s') =>
    .ok (⟨text, span⟩, ⟨s', TokenStream.size_next_lt h (by simp)⟩)
  | (.ok t, s') => .error ⟨.atSpan (problem t.value) t.span, s'⟩

/-- Reads a type if a word is next; otherwise the node is a literal. -/
def readType (registry : Registry) (settings : Settings) {bound : Nat} (s : Left bound) :
    Except Stopped (Option ArgType × Left bound) :=
  match h : s.val.nextWord? with
  | (.error d, s') => .error ⟨d, s'⟩
  | (.ok none, s') =>
    have hle := TokenStream.size_le_of_reaches (TokenStream.Reaches.nextWord?_of_eq h)
    .ok (none, ⟨s', Nat.lt_of_le_of_lt hle s.property⟩)
  | (.ok (some word), s') =>
    match hr : registry.resolve settings.defaultSpace word s' with
    | (.error d, s'') => .error ⟨d, s''⟩
    | (.ok type, s'') =>
      have hle := TokenStream.size_le_of_reaches (TokenStream.Reaches.nextWord?_of_eq h)
      have hle' : s''.size ≤ s'.size := by
        have hf := registry.forward_resolve settings.defaultSpace word s'
        rw [hr] at hf
        exact TokenStream.size_le_of_reaches hf
      .ok (some type, ⟨s'', Nat.lt_of_le_of_lt (Nat.le_trans hle' hle) s.property⟩)

/-- The name of a node and its type, if it has one. -/
structure Head where
  /-- The name. -/
  name : Located String
  /-- The type of an argument. -/
  type : Option ArgType

/-- Reads the head of a node below the root. -/
def readHead (registry : Registry) (settings : Settings) (s : TokenStream) :
    Except Stopped (Head × Left s.size) :=
  match readName .missingNodeName s with
  | .error e => .error e
  | .ok (name, s') =>
    match readType registry settings s' with
    | .error e => .error e
    | .ok (type, s'') => .ok (⟨name, type⟩, s'')

/-- The names of the children of a scope that were read, with the places of the names. -/
abbrev Seen : Type := List (String × Span)

/-- The problem with a token that is next in the scope of `parent`, if there is one that shows
before a node is read. -/
def childProblem (parent : String) (opening : Span) (seen : Seen) : Token → Option Problem
  | .endOfInput => some (.unclosedScope parent opening)
  | .word name => (seen.lookup name).map fun first => .duplicateChild ⟨parent, name⟩ first
  | _ => none

/-- The names that were seen once a token is read as the start of a child. -/
def noteChild (seen : Seen) (token : Located Token) : Seen :=
  match token.value with
  | .word name => (name, token.span) :: seen
  | _ => seen

mutual

/-- Reads what follows the head of a node on a level. -/
def readBody (registry : Registry) (settings : Settings) (level : Nat) (head : Head)
    (s : TokenStream) : Except Stopped (Tree × Left s.size) :=
  match settings.maxDepth.filter (· < level) with
  | some limit => .error ⟨.atSpan (.tooDeep limit head.name.value) head.name.span, s⟩
  | none =>
    match h : s.next with
    | (.error d, s') => .error ⟨d, s'⟩
    | (.ok ⟨.terminator, _⟩, s') =>
      .ok (node head.name.value head.type [], ⟨s', TokenStream.size_next_lt h (by simp)⟩)
    | (.ok ⟨.openScope, opening⟩, s') =>
      match readChildren registry settings level head.name.value opening [] []
          (⟨s', TokenStream.size_next_lt h (by simp)⟩ : Left s.size) with
      | .error e => .error e
      | .ok (children, s'') => .ok (node head.name.value head.type children, s'')
    | (.ok t, s') => .error ⟨.atSpan (.missingBody head.name.value t.value) t.span, s'⟩
termination_by s.size
decreasing_by exact TokenStream.size_next_lt h (by simp)

/-- Reads the children of `parent`, whose scope was opened at `opening`, through the closing brace;
those before are `read`, latest first. -/
def readChildren (registry : Registry) (settings : Settings) (level : Nat) (parent : String)
    (opening : Span) (seen : Seen) (read : List Tree) {bound : Nat} (s : Left bound) :
    Except Stopped (List Tree × Left bound) :=
  match h : s.val.peek with
  | (.error d, s') => .error ⟨d, s'⟩
  | (.ok t, s') =>
    have hle : s'.size ≤ s.val.size :=
      TokenStream.size_le_of_reaches (TokenStream.Reaches.peek_of_eq h)
    if t.value = .closeScope then
      .ok (read.reverse, ⟨s'.next.2,
        Nat.lt_of_le_of_lt (Nat.le_trans (TokenStream.size_next_le s') hle) s.property⟩)
    else
      match childProblem parent opening seen t.value with
      | some problem => .error ⟨.atSpan problem t.span, s'⟩
      | none =>
        match readHead registry settings s' with
        | .error e => .error e
        | .ok (head, ⟨s₁, h₁⟩) =>
          match readBody registry settings (level + 1) head s₁ with
          | .error e => .error e
          | .ok (child, ⟨s₂, h₂⟩) =>
            have hlt : s₂.size < s.val.size := by omega
            readChildren registry settings level parent opening (noteChild seen t)
              (child :: read) (⟨s₂, Nat.lt_trans hlt s.property⟩ : Left bound)
termination_by s.val.size
decreasing_by
  · exact Nat.lt_of_lt_of_le h₁ hle
  · exact hlt

end

/-- Reads the root of a tree, which must be a literal. -/
def readRoot (registry : Registry) (settings : Settings) (s : TokenStream) :
    Except Stopped (Tree × TokenStream) :=
  match readName .missingRootName s with
  | .error e => .error e
  | .ok (name, ⟨s', _⟩) =>
    match s'.peek with
    | (.error d, s'') => .error ⟨d, s''⟩
    | (.ok t, s'') =>
      if t.value.isWord then .error ⟨.atSpan (.argumentAtRoot name.value) name.span, s''⟩
      else
        match readBody registry settings 1 ⟨name, none⟩ s'' with
        | .error e => .error e
        | .ok (root, after) => .ok (root, after.val)

/-- Reads a tree and makes sure that nothing follows it. -/
def readWhole (registry : Registry) (settings : Settings) (s : TokenStream) :
    Except Stopped (Tree × TokenStream) :=
  match readRoot registry settings s with
  | .error e => .error e
  | .ok (root, s') =>
    match s'.next with
    | (.error d, s'') => .error ⟨d, s''⟩
    | (.ok t, s'') =>
      if t.value = .endOfInput then .ok (root, s'')
      else .error ⟨.atSpan (.trailingInput t.value) t.span, s''⟩

/-- Reads the tree of a command file. A diagnostic carries the text that was loaded until then. -/
def parse (registry : Registry) (settings : Settings) (source : Source) :
    Except Diagnostic Tree :=
  match readWhole registry settings (TokenStream.ofSource source) with
  | .ok (root, _) => .ok root
  | .error stopped =>
    .error (stopped.diagnostic.withSource settings.sourceName stopped.stream.loadedText)

end CommandTree.Tree
