/-!
# Failures of types files

A types file is refused when its text is not YAML, when it does not say what types files say, or
when it refers to itself so often that it is not worth reading.
-/

set_option autoImplicit false

namespace CommandTree

/-- Why a text is not a types file. -/
inductive YamlError where
  /-- The text is not YAML, or it holds several documents. -/
  | malformed
  /-- Something else stands where `wanted` should be. -/
  | mismatch (wanted : String)
  /-- A mapping has a field that it should not have. -/
  | unknownField (name : String)
  /-- A mapping has a field twice. -/
  | repeatedField (name : String)
  /-- A value is refused, in the words of the type that refuses it. -/
  | refused (reason : String)
  /-- Too many references have to be followed. -/
  | excessive
deriving DecidableEq, Repr

namespace YamlError

/-- The wording of a failure. -/
def message : YamlError → String
  | malformed => "the text is not understood"
  | mismatch wanted => "expected " ++ wanted
  | unknownField name => "unknown field '" ++ name ++ "'"
  | repeatedField name => "repeated field '" ++ name ++ "'"
  | refused reason => reason
  | excessive => "there are too many references"

end YamlError

end CommandTree
