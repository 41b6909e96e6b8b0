import CommandTree.Resolver

/-!
# Registries

A registry is a list of resolvers, of which the first that claims a key gives it its meaning. The
names of the built-in types are never offered to a resolver. `Registry.resolve` turns the word
that names a type, and the parameters behind it, into the type.
-/

set_option autoImplicit false

namespace CommandTree

/-- Resolvers in the order in which they are asked. -/
structure Registry where
  /-- The resolvers, the first one to be asked first. -/
  resolvers : List Resolver

namespace Registry

/-- The registry without resolvers. -/
def empty : Registry := ⟨[]⟩

/-- Adds a resolver that is asked after all others. -/
def register (r : Registry) (resolver : Resolver) : Registry := ⟨r.resolvers ++ [resolver]⟩

/-- The first resolver that claims a key. -/
def find? (r : Registry) (key : Key) : Option Resolver := r.resolvers.find? (·.claims key)

/-- The names of the resolvers in messages. -/
def labels (r : Registry) : List String := r.resolvers.map Resolver.label

/-- The diagnostic for a failure of the resolver that claims the key named by a word. -/
def diagnose (word : Located String) (key : Key) (resolver : Resolver) :
    ResolveError → Diagnostic
  | .diagnosed diagnostic => diagnostic
  | .failed reason => .atSpan (.unresolved key resolver.label reason) word.span

/-- Reads the type that a word names, with its parameters. -/
def resolve (r : Registry) (defaultSpace : String) (word : Located String) :
    Reading Diagnostic ArgType :=
  match Builtin.ofName? word.value with
  | some builtin => builtin.read
  | none =>
    match Key.parse word.value defaultSpace with
    | .error e => Reading.fail (.atSpan (.invalidKey word.value e) word.span)
    | .ok key =>
      match r.find? key with
      | none => Reading.fail (.atSpan (.unknownType key) word.span)
      | some resolver => Reading.mapError (diagnose word key resolver) (resolver.read key)

/-- Resolving a word only takes tokens and looks at them. -/
theorem forward_resolve (r : Registry) (defaultSpace : String) (word : Located String) :
    (r.resolve defaultSpace word).Forward := by
  unfold resolve
  split
  · exact Builtin.forward_read _
  · split
    · exact .fail _
    · split
      · exact .fail _
      · exact .mapError _ (Resolver.forward_read _ _)

end Registry

end CommandTree
