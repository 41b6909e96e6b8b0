/-!
# Settings of a parse

The settings say how deep nodes may nest, which namespace a type without one belongs to, and under
which name diagnostics show the source.
-/

set_option autoImplicit false

namespace CommandTree

/-- What a parse depends on besides the source and the resolvers. -/
structure Settings where
  /-- The greatest number of levels, if there is one; the root is on the first level. -/
  maxDepth : Option Nat
  /-- The namespace of types that are written without one. -/
  defaultSpace : String
  /-- The name of the source in diagnostics. -/
  sourceName : String
deriving DecidableEq, Repr

namespace Settings

/-- The settings that hold where nothing else is said. -/
def standard : Settings := ⟨some 128, "minecraft", "<input>"⟩

/-- The same settings for a source of another name. -/
def named (s : Settings) (sourceName : String) : Settings := { s with sourceName := sourceName }

/-- Whether the settings allow a node on a level. -/
def allows (s : Settings) (level : Nat) : Bool := s.maxDepth.all (level ≤ ·)

end Settings

end CommandTree
