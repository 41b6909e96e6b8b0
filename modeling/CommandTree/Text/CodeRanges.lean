/-!
# Sets of characters as ranges of code points

The character properties of Unicode are given as ascending lists of closed ranges.
-/

set_option autoImplicit false

namespace CommandTree

/-- A set of code points as a list of closed ranges. -/
abbrev CodeRanges := List (Nat × Nat)

/-- Whether the code point of a character lies in one of the ranges. -/
def CodeRanges.holds (ranges : CodeRanges) (c : Char) : Bool :=
  ranges.any fun range => range.1 ≤ c.toNat && c.toNat ≤ range.2

end CommandTree
