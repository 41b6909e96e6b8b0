import CommandTree.Proofs.Grammar.Phrase
import CommandTree.Proofs.Stream.Sequence

/-!
# The nodes that tokens name

The tokens of a command file name its nodes in pre-order. A word is a name unless it stands behind
another word, where it belongs to a type, and the level of the node is one more than the number of
scopes that are open there. That can be said of any list of tokens, whether it is the start of a
command file or not. `Nesting` keeps track of the two things, and `Nesting.nodes` lists the nodes
with their levels.

For the tokens of a phrase this list is the one that `Tree.walk` gives for the tree: there the level
of a node is the length of its path.
-/

set_option autoImplicit false

namespace CommandTree

/-- Where a list of tokens leads to. -/
structure Nesting where
  /-- The level of a node that is named next. -/
  level : Nat
  /-- Whether a word would belong to a type. -/
  behindWord : Bool

namespace Nesting

/-- In front of a command file. -/
def start : Nesting := ⟨1, false⟩

/-- Where one more token leads to. -/
def step (n : Nesting) : Token → Nesting
  | .word _ => ⟨n.level, true⟩
  | .openScope => ⟨n.level + 1, false⟩
  | .closeScope => ⟨n.level - 1, false⟩
  | .terminator | .endOfInput => ⟨n.level, false⟩

/-- The node that a token names. -/
def node? (n : Nesting) : Token → Option (Nat × String)
  | .word text => if n.behindWord then none else some (n.level, text)
  | _ => none

/-- Where tokens lead to. -/
def after (n : Nesting) (ts : List Token) : Nesting := ts.foldl step n

/-- The levels and the names of the nodes that tokens name. -/
def nodes (n : Nesting) : List Token → List (Nat × String)
  | [] => []
  | t :: ts => (n.node? t).toList ++ nodes (n.step t) ts

/-- Tokens lead on from where those before them lead to. -/
theorem after_append (n : Nesting) (ts us : List Token) :
    n.after (ts ++ us) = (n.after ts).after us := List.foldl_append

/-- Tokens name the nodes of their first part and, from there, those of the second part. -/
theorem nodes_append (n : Nesting) (ts us : List Token) :
    n.nodes (ts ++ us) = n.nodes ts ++ (n.after ts).nodes us := by
  induction ts generalizing n with
  | nil => rfl
  | cons t ts ih =>
    rw [List.cons_append, nodes, nodes, ih, List.append_assoc]
    rfl

/-- The words of a type name no node. -/
theorem nodes_words (level : Nat) (words : List String) :
    nodes ⟨level, true⟩ (words.map .word) = [] := by
  induction words with
  | nil => rfl
  | cons word words ih => exact ih

/-- The words of a type do not lead to another level. -/
theorem after_words (level : Nat) (words : List String) :
    after ⟨level, true⟩ (words.map .word) = ⟨level, true⟩ := by
  induction words with
  | nil => rfl
  | cons word words ih => exact ih

end Nesting

/-! ## Nodes of trees -/

namespace Tree

mutual

/-- The levels and the names of the nodes of a tree in pre-order, where its root is on a level. -/
def outline (level : Nat) : Tree → List (Nat × String)
  | node name _ children => (level, name) :: outlineAll (level + 1) children

/-- The same for the trees of a list, one behind the other. -/
def outlineAll (level : Nat) : List Tree → List (Nat × String)
  | [] => []
  | t :: ts => outline level t ++ outlineAll level ts

end

/-- The outline of trees is that of each of them. -/
theorem outlineAll_eq_flatMap (level : Nat) (ts : List Tree) :
    outlineAll level ts = ts.flatMap (outline level) := by
  induction ts with
  | nil => rfl
  | cons t ts ih => rw [outlineAll, ih, List.flatMap_cons]

/-- The level and the name of a node that is visited. -/
def levelAndName (visited : List String × Tree) : Nat × String :=
  (visited.1.length, visited.2.name)

/-- Visiting the nodes that wait visits everything below them, each in its turn. -/
theorem map_visit (waiting : List (List String × Tree)) :
    (visit waiting).map levelAndName =
      waiting.flatMap fun (path, t) => t.outline path.length := by
  fun_induction visit waiting with
  | case1 => rfl
  | case2 path t waiting ih =>
    obtain ⟨name, type, children⟩ := t
    have hchildren : (children.map fun c => (path ++ [c.name], c)).flatMap
        (fun (path, t) => t.outline path.length) = outlineAll (path.length + 1) children := by
      rw [outlineAll_eq_flatMap, List.flatMap_map]
      simp
    show (path.length, name) :: (visit _).map levelAndName = _
    rw [ih, List.flatMap_append, List.flatMap_cons]
    show _ = outline path.length (node name type children) ++ _
    rw [outline, List.cons_append, ← hchildren]
    rfl

/-- A walk visits the nodes of the outline in the same order. -/
theorem map_walk (t : Tree) : t.walk.map levelAndName = t.outline 1 := by
  rw [walk, map_visit]
  simp

end Tree

/-! ## Nodes of phrases -/

namespace Phrase

variable {registry : Registry} {defaultSpace : String}

mutual

/-- The tokens of a phrase name the nodes of its tree, and lead back to where they started. -/
theorem Denotes.nodes_tokens {p : Phrase} {t : Tree} (h : p.Denotes registry defaultSpace t)
    (level : Nat) :
    Nesting.nodes ⟨level, false⟩ p.tokens = t.outline level ∧
      Nesting.after ⟨level, false⟩ p.tokens = ⟨level, false⟩ := by
  obtain ⟨name', type, children⟩ := t
  cases p with
  | leaf name words =>
    obtain ⟨rfl, -, rfl⟩ := h
    constructor
    · show (level, name') :: Nesting.nodes ⟨level, true⟩ (words.map .word ++ [.terminator]) = _
      rw [Nesting.nodes_append, Nesting.nodes_words, Nesting.after_words]
      rfl
    · show Nesting.after ⟨level, true⟩ (words.map .word ++ [.terminator]) = _
      rw [Nesting.after_append, Nesting.after_words]
      rfl
  | scope name words inner =>
    obtain ⟨rfl, -, hinner⟩ := h
    obtain ⟨hnodes, hafter⟩ := hinner.nodes_tokensAll (level + 1)
    constructor
    · show (level, name') :: Nesting.nodes ⟨level, true⟩
        (words.map .word ++ .openScope :: (tokensAll inner ++ [.closeScope])) = _
      rw [Nesting.nodes_append, Nesting.nodes_words, Nesting.after_words]
      show (level, name') :: Nesting.nodes ⟨level + 1, false⟩ (tokensAll inner ++ [.closeScope]) = _
      rw [Nesting.nodes_append, hnodes, Tree.outline]
      simp [Nesting.nodes, Nesting.node?]
    · show Nesting.after ⟨level, true⟩
        (words.map .word ++ .openScope :: (tokensAll inner ++ [.closeScope])) = _
      rw [Nesting.after_append, Nesting.after_words]
      show Nesting.after ⟨level + 1, false⟩ (tokensAll inner ++ [.closeScope]) = _
      rw [Nesting.after_append, hafter]
      rfl

/-- The tokens of phrases name the nodes of the trees that they denote and lead back to their
level. -/
theorem DenotesAll.nodes_tokensAll {ps : List Phrase} {ts : List Tree}
    (h : DenotesAll registry defaultSpace ps ts) (level : Nat) :
    Nesting.nodes ⟨level, false⟩ (tokensAll ps) = Tree.outlineAll level ts ∧
      Nesting.after ⟨level, false⟩ (tokensAll ps) = ⟨level, false⟩ := by
  cases ps with
  | nil =>
    cases ts with
    | nil => exact ⟨rfl, rfl⟩
    | cons t ts => simp [DenotesAll] at h
  | cons p ps =>
    cases ts with
    | nil => simp [DenotesAll] at h
    | cons t ts =>
      obtain ⟨hfirst, hothers⟩ := h
      obtain ⟨hnodes, hafter⟩ := hfirst.nodes_tokens level
      obtain ⟨hnodesAll, hafterAll⟩ := hothers.nodes_tokensAll level
      rw [tokensAll, Nesting.nodes_append, Nesting.after_append, hafter, hnodes, hnodesAll]
      exact ⟨rfl, hafterAll⟩

end

/-- The tokens of a command file name the nodes of its tree in the order in which they are visited.
-/
theorem Derives.nodes_sequence {settings : Settings} {s : TokenStream} {p : Phrase} {t : Tree}
    (h : p.Derives registry settings s t) :
    Nesting.start.nodes (s.sequence.map Located.value) = t.walk.map Tree.levelAndName := by
  rw [h.lexes.sequence_eq, Tree.map_walk, Nesting.nodes_append, Nesting.start,
    (h.denotes.nodes_tokens 1).1]
  exact List.append_nil _

end Phrase

end CommandTree
