import CommandTree.TokenStream.Reading

/-!
# Parameters of extension types

A rule says how many of the words after the name of an extension type are its parameters. In a
types file a rule is a count or one of three keywords, where the count zero and the keyword `none`
mean the same.
-/

set_option autoImplicit false

namespace CommandTree

/-- How many words an extension type takes. -/
inductive ParamRule where
  /-- No word. -/
  | none
  /-- Exactly so many words. -/
  | exactly (count : Nat)
  /-- One word, if there is one. -/
  | optional
  /-- All words up to the first token that is not a word. -/
  | trailing
deriving DecidableEq, Repr

namespace ParamRule

/-- The rule of a count. -/
def ofCount : Nat → ParamRule
  | 0 => none
  | count => exactly count

/-- The rule of a keyword. -/
def ofKeyword? : String → Option ParamRule
  | "none" => some none
  | "optional" => some optional
  | "trailing" => some trailing
  | _ => Option.none

/-- What is said about a word that is no keyword. -/
def unknownKeyword (word : String) : String :=
  "unknown params rule '" ++ word ++ "', expected a count, 'none', 'optional' or 'trailing'"

/-- Reads `left` more words of the `count` words that the type of `key` takes; `read` are those
before, latest first. -/
def readExactly (key : Key) (count : Nat) :
    (left : Nat) → (read : List String) → Reading Diagnostic (List String)
  | 0, read => pure read.reverse
  | left + 1, read => do
    match ← Reading.nextWord? with
    | some word => readExactly key count left (word.value :: read)
    | Option.none =>
      let token ← Reading.peek
      Reading.fail (.atSpan (.missingParameters key count read.length token.value) token.span)

/-- Reads all words that follow; `read` are those before, latest first. -/
def readTrailing (read : List String) (s : TokenStream) :
    Except Diagnostic (List String) × TokenStream :=
  match _h : s.nextWord? with
  | (.error e, s') => (.error e, s')
  | (.ok Option.none, s') => (.ok read.reverse, s')
  | (.ok (some word), s') => readTrailing (word.value :: read) s'
termination_by s.size
decreasing_by exact TokenStream.size_nextWord?_lt _h

/-- Reads the parameters of the type of `key`. -/
def consume (key : Key) : ParamRule → Reading Diagnostic (List String)
  | none => pure []
  | exactly count => readExactly key count count []
  | optional => do
    let word ← Reading.nextWord?
    pure (word.toList.map Located.value)
  | trailing => readTrailing []

/-- Reading a fixed number of words only takes tokens and looks at them. -/
theorem forward_readExactly (key : Key) (count left : Nat) (read : List String) :
    (readExactly key count left read).Forward := by
  induction left generalizing read with
  | zero => exact .pure _
  | succ left ih =>
    refine Reading.Forward.nextWord?.bind fun word => ?_
    cases word with
    | some word => exact ih _
    | none => exact Reading.Forward.peek.bind fun _ => .fail _

/-- Reading all words that are left only takes tokens and looks at them. -/
theorem forward_readTrailing (read : List String) :
    Reading.Forward (ε := Diagnostic) (readTrailing read) := by
  intro s
  fun_induction readTrailing read s with
  | case1 _ s e s' h => exact TokenStream.Reaches.nextWord?_of_eq h
  | case2 _ s s' h => exact TokenStream.Reaches.nextWord?_of_eq h
  | case3 _ s word s' h ih => exact (TokenStream.Reaches.nextWord?_of_eq h).trans ih

/-- Taking the words of any rule only takes tokens and looks at them. -/
theorem forward_consume (key : Key) (rule : ParamRule) : (rule.consume key).Forward := by
  cases rule with
  | none => exact .pure _
  | exactly count => exact forward_readExactly key count count []
  | optional => exact Reading.Forward.nextWord?.bind fun _ => .pure _
  | trailing => exact forward_readTrailing []

end ParamRule

end CommandTree
