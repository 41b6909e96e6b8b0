import CommandTree.ArgType.Parameters
import CommandTree.ParamRule
import CommandTree.Selection
import CommandTree.SortedTable

/-!
# Resolvers

A resolver gives a meaning to the keys of extension types: it says which keys it claims, and reads
the parameters that follow the name of a type. Three resolvers are ready-made, and any other can
be put together from a label, a predicate on keys and a function that reads tokens. Such a
function may do with the tokens what it likes, but it moves the stream only by taking tokens and
looking at them.
-/

set_option autoImplicit false

namespace CommandTree

/-- Why a resolver fails. -/
inductive ResolveError where
  /-- A diagnostic, which is passed on as it is. -/
  | diagnosed (diagnostic : Diagnostic)
  /-- A failure of the resolver itself. -/
  | failed (reason : String)

/-- A resolver made of functions. -/
structure CustomResolver where
  /-- The name of the resolver in messages. -/
  label : String
  /-- Which keys it claims. -/
  claims : Key → Bool
  /-- How it reads the parameters of a type. -/
  read : Key → (s : TokenStream) →
    Except ResolveError ArgType × { s' : TokenStream // s.Reaches s' }

/-- The resolver of a label, a predicate on keys and a reading. -/
def CustomResolver.ofReading (label : String) (claims : Key → Bool)
    (read : Key → Reading ResolveError ArgType) (forward : ∀ key, (read key).Forward) :
    CustomResolver :=
  ⟨label, claims, fun key s => ((read key s).1, ⟨(read key s).2, forward key s⟩)⟩

/-- What gives a meaning to the keys of extension types. -/
inductive Resolver where
  /-- The types declared in one namespace, each with the rule for its parameters. -/
  | declared (space : String) (types : SortedTable ParamRule)
  /-- The two types of the game that check their parameters. -/
  | minecraft
  /-- The built-in types under a namespace of their own. -/
  | brigadier
  /-- Anything else. -/
  | custom (resolver : CustomResolver)

namespace Resolver

/-- The namespace of the other names of the built-in types. -/
def brigadierSpace : String := "brigadier"

/-- The name of a resolver in messages. -/
def label : Resolver → String
  | declared space _ => "namespace:" ++ space
  | minecraft => "minecraft"
  | brigadier => "brigadier"
  | custom resolver => resolver.label

/-- Whether a resolver claims a key. -/
def claims : Resolver → Key → Bool
  | declared space types, key => key.space == space && (types.lookup key.name).isSome
  | minecraft, key =>
    key.space == Selection.space &&
      (key.name == Selection.entityName || key.name == Selection.scoreHolderName)
  | brigadier, key => key.space == brigadierSpace && (Builtin.ofName? key.name).isSome
  | custom resolver, key => resolver.claims key

/-- Reads the selection of an entity type. -/
def readEntity (key : Key) : Reading Diagnostic ArgType := do
  let token ← Reading.next
  match token.value.word? with
  | none => Reading.fail (.atSpan (.missingSelection key token.value) token.span)
  | some word =>
    match Selection.ofKeyword? word with
    | some selection => pure (.ofKey key [selection.keyword])
    | none => Reading.fail (.atSpan (.unknownSelection word) token.span)

/-- Reads the flag of a type that selects holders of scores. -/
def readScoreHolder (key : Key) : Reading Diagnostic ArgType := do
  match ← Reading.nextWord? with
  | none => pure (.ofKey key [])
  | some word =>
    if word.value = "true" ∨ word.value = "false" then pure (.ofKey key [word.value])
    else Reading.fail (.atSpan (.notAFlag key word.value) word.span)

/-- Reads the parameters of a declared type. -/
def readDeclared (types : SortedTable ParamRule) (key : Key) : Reading ResolveError ArgType :=
  match types.lookup key.name with
  | none => Reading.fail (.failed ("'" ++ key.text ++ "' is not declared"))
  | some rule => Reading.mapError .diagnosed do
    let payload ← rule.consume key
    pure (.ofKey key payload)

/-- Reads the parameters of a type of the game. -/
def readMinecraft (key : Key) : Reading ResolveError ArgType :=
  if key.name = Selection.entityName then Reading.mapError .diagnosed (readEntity key)
  else if key.name = Selection.scoreHolderName then
    Reading.mapError .diagnosed (readScoreHolder key)
  else Reading.fail (.failed ("'" ++ key.text ++ "' is not handled here"))

/-- Reads the parameters of a built-in type under its other name. -/
def readBrigadier (key : Key) : Reading ResolveError ArgType :=
  match Builtin.ofName? key.name with
  | none => Reading.fail (.failed ("'" ++ key.text ++ "' is not a brigadier type"))
  | some builtin => Reading.mapError .diagnosed builtin.read

/-- Reads the parameters of the type of a key, whether or not the resolver claims it. -/
def read : Resolver → Key → Reading ResolveError ArgType
  | declared _ types, key => readDeclared types key
  | minecraft, key => readMinecraft key
  | brigadier, key => readBrigadier key
  | custom resolver, key => fun s =>
    match resolver.read key s with
    | (result, s') => (result, s'.val)

/-- Reading the words of an entity only takes tokens and looks at them. -/
theorem forward_readEntity (key : Key) : (readEntity key).Forward := by
  refine Reading.Forward.next.bind fun token => ?_
  split
  · exact .fail _
  · split
    · exact .pure _
    · exact .fail _

/-- Reading the words of a score holder only takes tokens and looks at them. -/
theorem forward_readScoreHolder (key : Key) : (readScoreHolder key).Forward := by
  refine Reading.Forward.nextWord?.bind fun word => ?_
  cases word with
  | none => exact .pure _
  | some word =>
    dsimp only
    split
    · exact .pure _
    · exact .fail _

/-- Reading the words of a declared type only takes tokens and looks at them. -/
theorem forward_readDeclared (types : SortedTable ParamRule) (key : Key) :
    (readDeclared types key).Forward := by
  unfold readDeclared
  split
  · exact .fail _
  · exact .mapError _ ((ParamRule.forward_consume key _).bind fun _ => .pure _)

/-- Reading a type of the game only takes tokens and looks at them. -/
theorem forward_readMinecraft (key : Key) : (readMinecraft key).Forward := by
  unfold readMinecraft
  split
  · exact .mapError _ (forward_readEntity key)
  · split
    · exact .mapError _ (forward_readScoreHolder key)
    · exact .fail _

/-- Reading another name of a built-in type only takes tokens and looks at them. -/
theorem forward_readBrigadier (key : Key) : (readBrigadier key).Forward := by
  unfold readBrigadier
  split
  · exact .fail _
  · exact .mapError _ (Builtin.forward_read _)

/-- Every resolver only takes tokens and looks at them, also one that is made of functions. -/
theorem forward_read (r : Resolver) (key : Key) : (r.read key).Forward := by
  cases r with
  | declared space types => exact forward_readDeclared types key
  | minecraft => exact forward_readMinecraft key
  | brigadier => exact forward_readBrigadier key
  | custom resolver => exact fun s => (resolver.read key s).2.property

end Resolver

end CommandTree
