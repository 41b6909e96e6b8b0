import CommandTree.CommandLine.Request
import CommandTree.LineDiff
import CommandTree.Tree.Encoding
import CommandTree.Tree.File
import CommandTree.Tree.Listing
import CommandTree.Tree.Printer
import CommandTree.TypesFile

/-!
# The program

A run of the program depends on its arguments and on the files, and has an outcome: the text that it
writes, the reports that it makes and the code that it exits with. The code is zero on success, two
if the arguments are no request, and one if anything else is wrong.
-/

set_option autoImplicit false

namespace CommandTree.CommandLine

/-- The name of the program. -/
def programName : String := "commodore"

/-- The version of the program. -/
def version : String := "0.1.0"

/-- How the program is used. -/
def usage : String :=
  "Usage: " ++ programName ++ " [--types FILE] [-v] COMMAND\n" ++
  "Commands:\n" ++
  "  check PATH...        check command files and those in directories\n" ++
  "  tree FILE [--json]   show the tree of a command file\n" ++
  "  fmt FILE [--check]   show the canonical form of a command file\n"

/-- What a run complains about. -/
inductive Report where
  /-- Something is wrong with a command file or a types file. -/
  | diagnostic (diagnostic : Diagnostic)
  /-- A file cannot be read. -/
  | unreadable (path : String) (error : AccessError)
  /-- The arguments are no request. -/
  | usage (error : UsageError)

namespace Report

/-- The code of a report, if it has one. -/
def code? : Report → Option String
  | diagnostic d => some d.kind.code
  | unreadable .. | usage _ => none

/-- The wording of a report. -/
def message : Report → String
  | diagnostic d => d.kind.code ++ ": " ++ d.summary
  | unreadable path error => "cannot read " ++ path ++ ": " ++ error.message
  | usage error => error.message

end Report

/-- What a run of the program comes to. -/
structure Outcome where
  /-- The code that the program exits with. -/
  exitCode : UInt8
  /-- The text that the program writes. -/
  output : String
  /-- What the program complains about, in order. -/
  reports : List Report

namespace Outcome

/-- A run that writes a text and succeeds. -/
def success (output : String) : Outcome := ⟨0, output, []⟩

/-- A run that writes nothing and fails with a report. -/
def failure (report : Report) : Outcome := ⟨1, "", [report]⟩

end Outcome

/-- What the files of one run share. -/
structure Session where
  /-- The resolvers. -/
  registry : Registry
  /-- The settings of each parse, the name of the source apart. -/
  settings : Settings

namespace Session

/-- The session without a types file. -/
def standard : Session := ⟨⟨[]⟩, .standard⟩

/-- The session of a types file. -/
def ofTypesFile (file : TypesFile) : Session := ⟨file.registry, file.settings⟩

/-- Loads the session of the types file at a path, if there is a path. -/
def load (fs : FileSystem) : Option String → Except Diagnostic Session
  | none => .ok standard
  | some path => (TypesFile.load fs path).map ofTypesFile

/-- Reads the tree of the file at a path. -/
def parseFile (session : Session) (fs : FileSystem) (path : String) : Except Diagnostic Tree :=
  Tree.parseFile fs session.registry session.settings path

/-- Reads the tree of a text under the name of the file it is from. -/
def parseText (session : Session) (path text : String) : Except Diagnostic Tree :=
  Tree.parse session.registry (session.settings.named path) (Source.ofString text)

end Session

/-! ### Checking files -/

/-- The verdict on one file. -/
structure Verdict where
  /-- The path of the file. -/
  path : String
  /-- The number of nodes in its tree, or what is wrong with it. -/
  result : Except Diagnostic Nat

namespace Verdict

/-- The verdict on the file at a path. -/
def ofFile (session : Session) (fs : FileSystem) (path : String) : Verdict :=
  ⟨path, (session.parseFile fs path).map Tree.nodeCount⟩

/-- What is written about a file. -/
def line (verdict : Verdict) : String :=
  match verdict.result with
  | .ok count => "ok " ++ verdict.path ++ " (" ++ toString count ++ " nodes)\n"
  | .error _ => ""

/-- What is complained about in a file. -/
def report? (verdict : Verdict) : Option Report :=
  match verdict.result with
  | .ok _ => none
  | .error d => some (.diagnostic d)

end Verdict

/-- The last line of a check. -/
def summary (checked failed : Nat) : String :=
  toString checked ++ " file(s) checked, " ++ toString failed ++ " failed\n"

/-- The outcome of a check with given verdicts. -/
def concludeCheck (verdicts : List Verdict) : Outcome :=
  let reports := verdicts.filterMap Verdict.report?
  let lines := String.join (verdicts.map Verdict.line)
  ⟨if reports.isEmpty then 0 else 1, lines ++ summary verdicts.length reports.length, reports⟩

/-- Checks all files that paths stand for, each by itself. -/
def check (session : Session) (fs : FileSystem) (paths : List String) : Outcome :=
  concludeCheck ((paths.flatMap fs.collect).map (Verdict.ofFile session fs))

/-! ### Showing files -/

/-- Shows the tree of the file at a path. -/
def showTree (session : Session) (fs : FileSystem) (path : String) (asJson : Bool) : Outcome :=
  match session.parseFile fs path with
  | .error d => .failure (.diagnostic d)
  | .ok tree => .success (if asJson then tree.toJson.indented ++ "\n" else tree.listing)

/-- The outcome of comparing the text of a file with its canonical form. -/
def compare (path text canonical : String) : Outcome :=
  if canonical = text then .success (path ++ " is canonical\n")
  else
    let marked := (LineDiff.marked text canonical).map (· ++ "\n")
    ⟨1, "--- " ++ path ++ "\n+++ " ++ path ++ " (canonical)\n" ++ String.join marked, []⟩

/-- Shows the canonical form of the file at a path, or compares the file with it. -/
def format (session : Session) (fs : FileSystem) (path : String) (comparing : Bool) : Outcome :=
  match fs.text path with
  | .error e => .failure (.unreadable path e)
  | .ok text =>
    match session.parseText path text with
    | .error d => .failure (.diagnostic d)
    | .ok tree =>
      if comparing then compare path text tree.source else .success tree.source

/-! ### Runs -/

/-- Runs a command. -/
def perform (session : Session) (fs : FileSystem) : Command → Outcome
  | .check path others => check session fs (path :: others)
  | .tree path asJson => showTree session fs path asJson
  | .format path comparing => format session fs path comparing

/-- Answers a request. -/
def answer (fs : FileSystem) : Request → Outcome
  | .version => .success (programName ++ " " ++ version ++ "\n")
  | .help => .success usage
  | .run types command =>
    match Session.load fs types with
    | .error d => .failure (.diagnostic d)
    | .ok session => perform session fs command

/-- Runs the program with arguments. -/
def run (fs : FileSystem) (arguments : List String) : Outcome :=
  match Request.ofArguments arguments with
  | .error error => ⟨2, "", [.usage error]⟩
  | .ok request => answer fs request

end CommandTree.CommandLine
