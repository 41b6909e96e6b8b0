import CommandTree.Text.Blank
import CommandTree.Text.Lowercase
import CommandTree.Tree

/-!
# Aliases

A command is reachable under its label, its aliases and, with a fallback, under each of these names
behind the fallback and a colon. A label that comes up twice counts where it comes up first.
-/

set_option autoImplicit false

namespace CommandTree.Alias

/-- The first occurrences in a list, apart from what was `seen` before. -/
def firstSeen (seen : List String) : List String → List String
  | [] => []
  | s :: ss => if s ∈ seen then firstSeen seen ss else s :: firstSeen (s :: seen) ss

/-- A fallback without the blanks around it and in lower case, unless that is empty. -/
def fallback? (text : String) : Option String :=
  let cleaned := Lowercase.ofString (String.ofList (Blank.trim text.toList))
  if cleaned.isEmpty then none else some cleaned

/-- A name, followed by its form behind the fallback if there is one. -/
def forms (fallback : Option String) (name : String) : List String :=
  name :: (fallback.map (· ++ ":" ++ name)).toList

/-- All labels of a command in order. -/
def labels (label : String) (aliases : List String) (fallback : Option String) : List String :=
  firstSeen [] ((label :: aliases).flatMap (forms (fallback.bind fallback?)))

/-- A copy of a tree for each label of a command. -/
def expand (t : Tree) (label : String) (aliases : List String) (fallback : Option String) :
    List Tree :=
  (labels label aliases fallback).map t.renamed

end CommandTree.Alias
