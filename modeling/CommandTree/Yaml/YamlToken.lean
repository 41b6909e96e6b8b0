import CommandTree.Yaml.YamlScalar
import CommandTree.Yaml.YamlTag

/-!
# Tokens of YAML text

A YAML text is taken apart into scalars, indicators and marks of the structure that its indentation
gives it. A block is a mapping or a list whose names or hyphens stand in one column; it starts with
its first name or hyphen and ends where a token stands further to the left. Within brackets the
indentation does not matter.

That something is a name shows only at the colon behind it, and then the mark of the name, and
perhaps that of a block that it starts, go in front of tokens that were read already. So a layout
remembers for each open bracket where a name may have started. The name has to be on one line with
its colon and at most `nameLimit` bytes in front of it. Where a block can only go on with a name,
the lack of a colon is an error.
-/

set_option autoImplicit false

namespace CommandTree

open YamlText

/-- A scalar, an indicator or a mark of the structure. -/
inductive YamlToken where
  /-- A scalar. -/
  | scalar (style : ScalarStyle) (text : String)
  /-- The start of a name. -/
  | name
  /-- The colon between a name and a value. -/
  | colon
  /-- The hyphen before an element of a list. -/
  | hyphen
  /-- A comma. -/
  | comma
  /-- The start of a mapping in braces. -/
  | openMapping
  /-- The end of a mapping in braces. -/
  | closeMapping
  /-- The start of a list in brackets. -/
  | openSequence
  /-- The end of a list in brackets. -/
  | closeSequence
  /-- The start of a mapping by indentation. -/
  | blockMapping
  /-- The start of a list by indentation. -/
  | blockSequence
  /-- The end of a mapping or list by indentation. -/
  | blockEnd
  /-- The name under which the next node is known. -/
  | anchor (name : String)
  /-- A node that is known under a name. -/
  | reference (name : String)
  /-- What kind of value the next node is. -/
  | tag (handle suffix : String)
  /-- A line in front of a document. -/
  | directive (directive : YamlDirective)
  /-- Three hyphens, which start a document. -/
  | documentStart
  /-- Three dots, which end a document. -/
  | documentEnd
deriving DecidableEq, Repr

/-- A token that may be the start of a name. -/
structure NameStart where
  /-- The number of tokens before it. -/
  index : Nat
  /-- Its place. -/
  place : Place
  /-- Whether it has to be one. -/
  isRequired : Bool

namespace NameStart

/-- The number of bytes that may be between the start of a name and its colon. -/
def nameLimit : Nat := 1024

/-- Whether a colon at some place is too far away. -/
def isStale (n : NameStart) (p : Place) : Bool :=
  n.place.line < p.line || n.place.offset + nameLimit < p.offset

end NameStart

/-- The tokens up to some place and what the tokens behind it depend on. -/
structure YamlLayout where
  /-- The tokens. -/
  tokens : Array YamlToken
  /-- Where a name may have started since the innermost bracket that is open. -/
  start : Option NameStart
  /-- Where a name may have started before each of the open brackets, innermost first. -/
  outer : List (Option NameStart)
  /-- The columns of the open blocks, innermost first. -/
  columns : List Nat
  /-- Whether a name may start at the next token. -/
  nameAllowed : Bool

namespace YamlLayout

/-- The layout at the start of a text. -/
def empty : YamlLayout := ⟨#[], none, [], [], true⟩

/-- Whether a bracket is open. -/
def inFlow (l : YamlLayout) : Bool := !l.outer.isEmpty

/-- The first column that is inside the innermost open block. -/
def margin (l : YamlLayout) : Nat :=
  match l.columns with
  | [] => 0
  | column :: _ => column + 1

/-- Adds a token, behind which a name may start or not. -/
def push (l : YamlLayout) (token : YamlToken) (nameAllowed : Bool) : YamlLayout :=
  { l with tokens := l.tokens.push token, nameAllowed := nameAllowed }

/-! ### Names -/

/-- Gives up that a name has started, which fails if one had to. -/
def withoutStart (l : YamlLayout) : Option YamlLayout :=
  if l.start.any (·.isRequired) then none else some { l with start := none }

/-- Lets a name start at some place if one may. It has to if the place is in the column of the
innermost open block. -/
def withStart (l : YamlLayout) (p : Place) : Option YamlLayout :=
  if l.nameAllowed then
    l.withoutStart.map fun l =>
      { l with start := some ⟨l.tokens.size, p, !l.inFlow && l.columns.head? == some p.column⟩ }
  else some l

/-! ### Blocks -/

/-- Starts a block in some column, in front of the tokens from some index on, unless one that is
open there goes on. -/
def openBlock (l : YamlLayout) (token : YamlToken) (column index : Nat) : YamlLayout :=
  if l.inFlow || column < l.margin then l
  else
    { l with
      tokens := l.tokens.insertIdxIfInBounds index token
      columns := column :: l.columns }

/-- Ends all open blocks but the given outer ones. -/
def closeBlocksBut (l : YamlLayout) (columns : List Nat) : YamlLayout :=
  if l.inFlow then l
  else
    { l with
      tokens := l.tokens ++ Array.replicate (l.columns.length - columns.length) .blockEnd
      columns := columns }

/-- Ends the blocks that do not go on in some column. -/
def closeBlocks (l : YamlLayout) (column : Nat) : YamlLayout :=
  l.closeBlocksBut (l.columns.dropWhile (column < ·))

/-! ### Tokens -/

/-- Adds a token in front of a document or at its end, where all blocks end. -/
def pushOutside (l : YamlLayout) (token : YamlToken) : Option YamlLayout :=
  (l.closeBlocksBut []).withoutStart.map (·.push token false)

/-- Adds a bracket that opens at some place. -/
def pushOpen (l : YamlLayout) (token : YamlToken) (p : Place) : Option YamlLayout :=
  (l.withStart p).map fun l =>
    { l.push token true with start := none, outer := l.start :: l.outer }

/-- Adds a bracket that closes. -/
def pushClose (l : YamlLayout) (token : YamlToken) : Option YamlLayout :=
  l.withoutStart.map fun l =>
    match l.outer with
    | [] => l.push token false
    | start :: outer => { l.push token false with start := start, outer := outer }

/-- Adds a comma. -/
def pushComma (l : YamlLayout) : Option YamlLayout := l.withoutStart.map (·.push .comma true)

/-- Adds a hyphen at some place. -/
def pushHyphen (l : YamlLayout) (p : Place) : Option YamlLayout :=
  if !l.inFlow && !l.nameAllowed then none
  else
    (l.openBlock .blockSequence p.column l.tokens.size).withoutStart.map (·.push .hyphen true)

/-- Adds a mark at some place that says that a name starts. -/
def pushName (l : YamlLayout) (p : Place) : Option YamlLayout :=
  if !l.inFlow && !l.nameAllowed then none
  else
    (l.openBlock .blockMapping p.column l.tokens.size).withoutStart.map fun l =>
      l.push .name (!l.inFlow)

/-- Adds a colon at some place. If a name may have started and is not too far away, it has. -/
def pushColon (l : YamlLayout) (p : Place) : Option YamlLayout :=
  match l.start.filter (!·.isStale p) with
  | some start =>
    let named := { l with
      tokens := l.tokens.insertIdxIfInBounds start.index .name
      start := none }
    some ((named.openBlock .blockMapping start.place.column start.index).push .colon false)
  | none =>
    if !l.inFlow && !l.nameAllowed then none
    else
      l.withoutStart.map fun l =>
        (l.openBlock .blockMapping p.column l.tokens.size).push .colon (!l.inFlow)

/-! ### Reading -/

/-- Whether the name of an anchor may end in front of a text. -/
def endsAnchor (cs : List Char) : Bool :=
  endsWord cs ||
    cs.head?.any fun c => ['?', ':', ',', ']', '\x7d', '%', '@', '\x60'].contains c

/-- Reads the name of an anchor. -/
def readAnchor (p : Place) (cs : List Char) : Option (String × Remainder cs) :=
  let name := cs.takeWhile isNameChar
  let r := skipWhile isNameChar p cs
  if name.isEmpty || !endsAnchor r.rest then none else some (String.ofList name, r)

/-- Reads the scalar in quotes that starts with a character, and adds it. -/
def readQuoted (l : YamlLayout) (p : Place) (c : Char) (rest : List Char) :
    Option (YamlLayout × Remainder rest) :=
  let p' := p.after c
  let read? : Option (List Char × Remainder rest) :=
    if c == '"' then
      match h : readDouble [] .empty p' rest with
      | some (text, c) => some (text, ⟨c, length_readDouble_le h⟩)
      | none => none
    else
      match h : readSingle [] .empty p' rest with
      | some (text, c) => some (text, ⟨c, length_readSingle_le h⟩)
      | none => none
  match l.withStart p, read? with
  | some l, some (text, r) => some (l.push (.scalar .quoted (String.ofList text)) false, r)
  | _, _ => none

/-- Reads the plain scalar that starts with a character, and adds it. If line breaks follow it, a
name may start behind them. -/
def readUnquoted (l : YamlLayout) (p : Place) (c : Char) (rest : List Char) :
    Option (YamlLayout × Remainder rest) :=
  match l.withStart p, h : readPlain l.inFlow l.margin [c] .empty (p.after c) rest with
  | some l, some (text, gap, c) =>
    some (l.push (.scalar .plain (String.ofList text)) gap.isBroken,
      ⟨c, length_readPlain_le h⟩)
  | _, _ => none

/-- Reads the block scalar that a character announces, and adds it. -/
def readBlockScalar (l : YamlLayout) (p : Place) (c : Char) (rest : List Char) :
    Option (YamlLayout × Remainder rest) :=
  let isFolded := c == '>'
  match l.withoutStart, readBlock isFolded l.margin (p.after c) rest with
  | some l, some (text, r) =>
    some (l.push (.scalar (if isFolded then .folded else .literal) (String.ofList text)) true, r)
  | _, _ => none

/-- Reads the anchor, reference or tag that starts with a character, and adds it. -/
def readProperty (l : YamlLayout) (p : Place) (c : Char) (rest : List Char) :
    Option (YamlLayout × Remainder rest) :=
  let read? : Option (YamlToken × Remainder rest) :=
    if c == '!' then
      (readTag l.inFlow (p.after c) rest).map fun ((handle, suffix), r) => (.tag handle suffix, r)
    else
      (readAnchor (p.after c) rest).map fun (name, r) =>
        (if c == '&' then .anchor name else .reference name, r)
  match l.withStart p, read? with
  | some l, some (token, r) => some (l.push token false, r)
  | _, _ => none

/-- How a character that the rest follows is added at some place if it is an indicator. -/
def indicator? (inFlow : Bool) (c : Char) (rest : List Char) :
    Option (YamlLayout → Place → Option YamlLayout) :=
  if c == '[' then some fun l p => l.pushOpen .openSequence p
  else if c == '\x7b' then some fun l p => l.pushOpen .openMapping p
  else if c == ']' then some fun l _ => l.pushClose .closeSequence
  else if c == '\x7d' then some fun l _ => l.pushClose .closeMapping
  else if c == ',' then some fun l _ => l.pushComma
  else if c == '-' && endsWord rest then some pushHyphen
  else if c == '?' && (inFlow || endsWord rest) then some pushName
  else if c == ':' && (inFlow || endsWord rest) then some pushColon
  else none

/-- Reads the token that starts with a character at some place, and adds it. -/
def readToken (l : YamlLayout) (p : Place) (c : Char) (rest : List Char) :
    Option (YamlLayout × Remainder rest) :=
  let markEnd : Remainder rest := ⟨⟨p.ahead 3, rest.drop 2⟩, (List.drop_sublist 2 rest).length_le⟩
  if p.column == 0 && c == '%' then
    match readDirective (p.after c) rest with
    | some (directive, r) => (l.pushOutside (.directive directive)).map fun l => (l, r)
    | none => none
  else if p.column == 0 && startsWithMark '-' (c :: rest) then
    (l.pushOutside .documentStart).map fun l => (l, markEnd)
  else if p.column == 0 && startsWithMark '.' (c :: rest) then
    (l.pushOutside .documentEnd).map fun l => (l, markEnd)
  else
    match indicator? l.inFlow c rest with
    | some add => (add l p).map fun l => (l, ⟨⟨p.after c, rest⟩, Nat.le_refl _⟩)
    | none =>
      if c == '*' || c == '&' || c == '!' then l.readProperty p c rest
      else if !l.inFlow && (c == '|' || c == '>') then l.readBlockScalar p c rest
      else if c == '"' || c == '\x27' then l.readQuoted p c rest
      else if startsPlain l.inFlow c rest then l.readUnquoted p c rest
      else none

/-- Reads the tokens from some place on, and adds them. -/
def readTokens (l : YamlLayout) (p : Place) (cs : List Char) : Option (List YamlToken) :=
  match _h : skipTrivia l.inFlow l.nameAllowed false p cs with
  | (_, ⟨_, []⟩) => (l.closeBlocksBut []).withoutStart.map (·.tokens.toList)
  | (allowed, ⟨p', c :: rest⟩) =>
    match ({ l with nameAllowed := allowed }.closeBlocks p'.column).readToken p' c rest with
    | none => none
    | some (l', ⟨⟨p'', rest'⟩, _⟩) => readTokens l' p'' rest'
termination_by cs.length
decreasing_by
  rename_i hle
  have hskip := length_skipTrivia_le l.inFlow l.nameAllowed false p cs
  rw [_h] at hskip
  exact Nat.lt_of_lt_of_le (Nat.lt_succ_of_le hle) hskip

end YamlLayout

namespace YamlToken

/-- The tokens of a text. -/
def ofChars? (cs : List Char) : Option (List YamlToken) :=
  if cs.all isAllowed then YamlLayout.empty.readTokens .start (withLineFeeds cs) else none

end YamlToken

end CommandTree
