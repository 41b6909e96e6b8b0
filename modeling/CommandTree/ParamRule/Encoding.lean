import CommandTree.Json
import CommandTree.ParamRule

/-!
# Parameter rules as JSON

A serialized rule is a count or a keyword.
-/

set_option autoImplicit false

namespace CommandTree.ParamRule

/-- Why a value is not a serialized rule. -/
inductive DecodeError where
  /-- The value is neither a count nor a text. -/
  | shape
  /-- The text is not a keyword. -/
  | keyword (word : String)
deriving DecidableEq, Repr

/-- The rule that a word stands for. -/
def ofKeyword (word : String) : Except DecodeError ParamRule :=
  match ofKeyword? word with
  | some rule => .ok rule
  | Option.none => .error (.keyword word)

/-- Reads a rule. -/
def ofJson : Json → Except DecodeError ParamRule
  | .number (.integer value) => if value < 0 then .error .shape else .ok (ofCount value.toNat)
  | .string word => ofKeyword word
  | _ => .error .shape

/-- A rule as JSON. -/
def toJson : ParamRule → Json
  | none => .number (.integer 0)
  | exactly count => .number (.integer count)
  | optional => .string "optional"
  | trailing => .string "trailing"

end CommandTree.ParamRule
