import CommandTree.ArgType

/-!
# Selections of entities

A `minecraft:entity` argument says in one word which entities it may select.
-/

set_option autoImplicit false

namespace CommandTree

/-- Which entities an argument may select. -/
inductive Selection where
  /-- One entity. -/
  | entity
  /-- Any number of entities. -/
  | entities
  /-- One player. -/
  | player
  /-- Any number of players. -/
  | players
deriving DecidableEq, Repr

namespace Selection

/-- All selections. -/
def all : List Selection := [entity, entities, player, players]

/-- The word for a selection. -/
def keyword : Selection → String
  | entity => "entity"
  | entities => "entities"
  | player => "player"
  | players => "players"

/-- The selection of a word. -/
def ofKeyword? (word : String) : Option Selection := all.find? (·.keyword == word)

/-- Whether at most one entity is selected. -/
def isSingle : Selection → Bool
  | entity | player => true
  | _ => false

/-- Whether only players are selected. -/
def isPlayersOnly : Selection → Bool
  | player | players => true
  | _ => false

/-- The namespace of the types that select entities. -/
def space : String := "minecraft"

/-- The name of the type that selects entities. -/
def entityName : String := "entity"

/-- The name of the type that selects holders of scores. -/
def scoreHolderName : String := "score_holder"

/-- The selection that a type records. -/
def ofType? : ArgType → Option Selection
  | .extension space' name (word :: _) =>
    if space' = space ∧ name = entityName then ofKeyword? word else none
  | _ => none

/-- Every selection is selected by its keyword. -/
theorem ofKeyword?_keyword (s : Selection) : ofKeyword? s.keyword = some s := by
  cases s <;> decide

end Selection

end CommandTree
