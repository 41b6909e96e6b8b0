import CommandTree.AccessError
import CommandTree.Source.Reader
import CommandTree.Span
import CommandTree.Text.Escaped
import CommandTree.Token
import CommandTree.Tree
import CommandTree.Yaml.YamlError

/-!
# Diagnostics

Whatever is wrong with a command file, its types or a types file is a `Problem`: a cause with the
data that it is about. Everything that is said about a problem follows from it, namely which of
three kinds it is, its message, the help given with it, the failure below it and the other places
that it points at. A `Diagnostic` is a problem at a place, and may carry the text that the place
is in.
-/

set_option autoImplicit false

namespace CommandTree

/-- The three kinds of diagnostics. -/
inductive DiagnosticKind where
  /-- Characters that form no token, and sources that cannot be read. -/
  | lexical
  /-- Tokens that form no tree. -/
  | structural
  /-- Types of arguments that cannot be interpreted. -/
  | typing
deriving DecidableEq, Repr

namespace DiagnosticKind

/-- The name of a kind. -/
def name : DiagnosticKind → String
  | lexical => "Lex"
  | structural => "Parse"
  | typing => "Type"

/-- The code that identifies a kind in reports. -/
def code : DiagnosticKind → String
  | lexical => "commodore::lex"
  | structural => "commodore::parse"
  | typing => "commodore::type"

end DiagnosticKind

/-- The failure below a problem. -/
inductive Cause where
  /-- A word is not a key. -/
  | key (error : KeyError)
  /-- A word is not a number. -/
  | number (error : NumberError)
  /-- The source cannot be read on. -/
  | reading (failure : ReadFailure)
  /-- A file cannot be got at. -/
  | access (error : AccessError)
  /-- A types file is not what it should be. -/
  | yaml (error : YamlError)
  /-- A failure in the words of whoever reports it. -/
  | stated (text : String)
deriving DecidableEq

namespace Cause

/-- The wording of a cause. -/
def message : Cause → String
  | key error => error.message
  | number error => error.message
  | reading failure => failure.message
  | access error => error.message
  | yaml error => error.message
  | stated text => text

end Cause

/-- A further place that a diagnostic points at. -/
structure RelatedLabel where
  /-- The place. -/
  span : Span
  /-- What is said about it. -/
  label : String
deriving DecidableEq, Repr

/-- What can be wrong. -/
inductive Problem where
  /-- A character belongs to no token. -/
  | unknownCharacter (c : Char)
  /-- The source cannot be read on. -/
  | unreadable (failure : ReadFailure)
  /-- A command file cannot be opened. -/
  | cannotOpen (path : String) (error : AccessError)
  /-- There is no name where the root should start. -/
  | missingRootName (found : Token)
  /-- There is no name where a node should start. -/
  | missingNodeName (found : Token)
  /-- The name of the root is followed by a type. -/
  | argumentAtRoot (name : String)
  /-- A node is nested too deep. -/
  | tooDeep (limit : Nat) (name : String)
  /-- Neither a scope nor a semicolon ends a node. -/
  | missingBody (name : String) (found : Token)
  /-- The source ends inside the scope that was opened at `opening`. -/
  | unclosedScope (name : String) (opening : Span)
  /-- A child has the name of an earlier one. -/
  | duplicateChild (duplicate : DuplicateChild) (first : Span)
  /-- Something follows the root node. -/
  | trailingInput (found : Token)
  /-- The name of a type is not a key. -/
  | invalidKey (word : String) (error : KeyError)
  /-- No resolver claims a key. -/
  | unknownType (key : Key)
  /-- The resolver that claims a key fails. -/
  | unresolved (key : Key) (resolver reason : String)
  /-- A string type has no mode. -/
  | missingStringMode (found : Token)
  /-- The mode of a string type is none of the three. -/
  | unknownStringMode (word : String)
  /-- A bound is not a literal of its kind. -/
  | malformedBound (kind : NumberKind) (word : String) (error : NumberError)
  /-- A bound stands for no number. -/
  | boundNotANumber (kind : NumberKind) (word : String)
  /-- The lower bound is above the upper one. -/
  | invertedBounds (kind : NumberKind) (lower upper : kind.Value)
  /-- There are fewer parameters than a type takes. -/
  | missingParameters (key : Key) (expected found : Nat) (before : Token)
  /-- An entity type has no selection. -/
  | missingSelection (key : Key) (found : Token)
  /-- The selection of an entity type is none of the four. -/
  | unknownSelection (word : String)
  /-- A parameter is neither `true` nor `false`. -/
  | notAFlag (key : Key) (word : String)
  /-- A types file cannot be read. -/
  | typesFileUnreadable (path : String) (error : AccessError)
  /-- A types file is not a mapping of the expected form. -/
  | malformedTypesFile (error : YamlError)
  /-- The default namespace of a types file is not a namespace. -/
  | invalidDefaultSpace (space : String) (error : KeyError)
  /-- A types file declares something that is not a key. -/
  | invalidDeclaration (space name : String) (error : KeyError)
  /-- A problem in the words of whoever reports it. -/
  | stated (kind : DiagnosticKind) (message : String)
deriving DecidableEq

namespace Problem

/-- The names that messages list as built-in types. -/
def builtinNames : String := ", ".intercalate (Builtin.all.map Builtin.name)

/-- The kind of a problem. -/
def kind : Problem → DiagnosticKind
  | unknownCharacter .. | unreadable .. | cannotOpen .. => .lexical
  | missingRootName .. | missingNodeName .. | argumentAtRoot .. | tooDeep .. | missingBody ..
  | unclosedScope .. | duplicateChild .. | trailingInput .. => .structural
  | stated kind _ => kind
  | _ => .typing

/-- What is said about a problem. -/
def message : Problem → String
  | unknownCharacter c =>
    "unknown character " ++ Escaped.char c ++ " (" ++ Escaped.codePoint c ++ ")"
  | unreadable .notUtf8 => "source is not valid UTF-8"
  | unreadable (.medium _) => "failed to read source"
  | cannotOpen path _ => "cannot open " ++ path
  | missingRootName found => "expected root node name, found " ++ found.describe
  | missingNodeName found => "expected node name, found " ++ found.describe
  | argumentAtRoot name =>
    "root command node '" ++ name ++ "' must be a literal, not an argument"
  | tooDeep limit name =>
    "nesting depth exceeds " ++ toString limit ++ " at node '" ++ name ++ "'"
  | missingBody name found =>
    "expected '\x7b' or ';' to end node '" ++ name ++ "', found " ++ found.describe
  | unclosedScope name opening =>
    "expected '\x7d' to close the scope of '" ++ name ++ "' opened at line " ++
      toString opening.line ++ ", found end of input"
  | duplicateChild duplicate _ => duplicate.message
  | trailingInput found => "expected end of input after root node, found " ++ found.describe
  | invalidKey word _ => "invalid key for argument type '" ++ word ++ "'"
  | unknownType key =>
    "unknown argument type '" ++ key.text ++ "': not a built-in type and no resolver claims it"
  | unresolved key resolver _ =>
    "argument type '" ++ key.text ++ "' could not be resolved by " ++ resolver
  | missingStringMode found =>
    "expected string type (single_word, quotable_phrase or greedy_phrase), found " ++
      found.describe
  | unknownStringMode word => "unknown string type '" ++ word ++ "'"
  | malformedBound kind word _ => "expected " ++ kind.name ++ " but got '" ++ word ++ "'"
  | boundNotANumber kind word => kind.name ++ " bound '" ++ word ++ "' is not a number"
  | invertedBounds kind lower upper =>
    kind.name ++ " lower bound " ++ kind.text lower ++ " is greater than upper bound " ++
      kind.text upper
  | missingParameters key expected found before =>
    "argument type '" ++ key.text ++ "' expects " ++ toString expected ++
      " parameter(s), found " ++ toString found ++ " before " ++ before.describe
  | missingSelection key found =>
    "expected an entity selection type for '" ++ key.text ++ "', found " ++ found.describe
  | unknownSelection word => "unknown entity selection type '" ++ word ++ "'"
  | notAFlag key word =>
    "expected true or false for '" ++ key.text ++ "', found '" ++ word ++ "'"
  | typesFileUnreadable path _ => "cannot read types file " ++ path
  | malformedTypesFile _ => "invalid types file"
  | invalidDefaultSpace space _ => "invalid default_namespace '" ++ space ++ "'"
  | invalidDeclaration space name _ => "invalid type '" ++ space ++ ":" ++ name ++ "'"
  | stated _ message => message

/-- The help that goes with a problem. -/
def help : Problem → Option String
  | unknownCharacter _ =>
    some "quote words that contain characters outside printable ASCII"
  | argumentAtRoot _ => some "remove the argument type after the root name"
  | trailingInput _ => some "a command file holds exactly one root node"
  | unknownType key =>
    some ("built-in types are " ++ builtinNames ++ "; register a resolver for '" ++ key.text ++
      "'")
  | unknownStringMode _ => some "use single_word, quotable_phrase or greedy_phrase"
  | missingSelection .. | unknownSelection _ =>
    some "use one of: entity, entities, player, players"
  | _ => none

/-- The failure below a problem. -/
def cause : Problem → Option Cause
  | unreadable failure => some (.reading failure)
  | cannotOpen _ error => some (.access error)
  | invalidKey _ error => some (.key error)
  | unresolved _ _ reason => some (.stated reason)
  | malformedBound _ _ error => some (.number error)
  | typesFileUnreadable _ error => some (.access error)
  | malformedTypesFile error => some (.yaml error)
  | invalidDefaultSpace _ error => some (.key error)
  | invalidDeclaration _ _ error => some (.key error)
  | _ => none

/-- The other places that a problem points at. -/
def related : Problem → List RelatedLabel
  | unclosedScope _ opening => [⟨opening, "scope opened here"⟩]
  | duplicateChild _ first => [⟨first, "first defined here"⟩]
  | _ => []

end Problem

/-- A text with the name it is shown under. -/
structure NamedText where
  /-- The name. -/
  name : String
  /-- The text. -/
  text : String
deriving DecidableEq, Repr

/-- A problem at a place. -/
structure Diagnostic where
  /-- What is wrong. -/
  problem : Problem
  /-- The line it was noticed on, counted from one. -/
  line : Nat
  /-- The place it is at, if it is in a text. -/
  span : Option Span
  /-- The help that goes with it. -/
  help : Option String
  /-- The other places that it points at. -/
  related : List RelatedLabel
  /-- The failure below it. -/
  cause : Option Cause
  /-- The text that the places are in. -/
  source : Option NamedText

namespace Diagnostic

/-- A problem on a line, at no place in particular. -/
def onLine (problem : Problem) (line : Nat) : Diagnostic :=
  ⟨problem, line, none, problem.help, problem.related, problem.cause, none⟩

/-- A problem at a place, on the line where the place starts. -/
def atSpan (problem : Problem) (span : Span) : Diagnostic :=
  { onLine problem span.line with span := some span }

/-- The kind of a diagnostic. -/
def kind (d : Diagnostic) : DiagnosticKind := d.problem.kind

/-- What a diagnostic says. -/
def message (d : Diagnostic) : String := d.problem.message

/-- The whole diagnostic in one line. -/
def summary (d : Diagnostic) : String :=
  d.kind.name ++ " error: " ++ d.message ++ " (at line " ++ toString d.line ++ ")"

/-- Attaches the text that the places are in; a text that is already attached stays. -/
def withSource (d : Diagnostic) (name text : String) : Diagnostic :=
  { d with source := some (d.source.getD ⟨name, text⟩) }

/-- Replaces the help. -/
def withHelp (d : Diagnostic) (help : String) : Diagnostic := { d with help := some help }

/-- Adds another place. -/
def withRelated (d : Diagnostic) (span : Span) (label : String) : Diagnostic :=
  { d with related := d.related ++ [⟨span, label⟩] }

/-- Replaces the failure below. -/
def withCause (d : Diagnostic) (cause : Cause) : Diagnostic := { d with cause := some cause }

end Diagnostic

end CommandTree
