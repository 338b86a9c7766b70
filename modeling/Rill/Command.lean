import Rill.Execution
import Rill.Options
import Rill.Syntax.Dump

/-!
# The command line

A list of arguments is read into a command, and a command is performed on a view of the files. The
result is all that the outside sees of it: an exit status and what goes to the two outputs.
-/

set_option autoImplicit false

namespace Rill

inductive Command where
  | help
  | version
  | run (path : String) (limits : Limits)
  | lex (path : String)
  | parse (path : String)
  | unknown (name : String)
  | pathMissing
  | badOption (error : OptionError)
  /-- A command that lists something was given no file to list. -/
  | nothingToList (name : String)

structure Report where
  status : Nat
  stdout : String
  stderr : String
deriving DecidableEq

namespace Command

def isSource (name : String) : Bool :=
  match Path.extension? name with
  | some extension => extension.toList.map Char.toLower = Files.sourceExtension.toList
  | none => false

def ofRunArguments (arguments : List String) : Command :=
  match arguments.find? (!Options.isOption ·) with
  | none => pathMissing
  | some path =>
      match Options.read arguments with
      | .ok limits => run path limits
      | .error error => badOption error

/-- The command that some arguments ask for. A source file by itself is run. -/
def ofArguments : List String → Command
  | [] => help
  | "run" :: rest => ofRunArguments rest
  | ["lex"] => nothingToList "lex"
  | "lex" :: path :: _ => lex path
  | ["parse"] => nothingToList "parse"
  | "parse" :: path :: _ => parse path
  | name :: _ =>
      if name = "help" ∨ name = "--help" ∨ name = "-h" then help
      else if name = "version" ∨ name = "--version" ∨ name = "-V" then version
      else if isSource name then run name .default
      else unknown name

def lines (texts : List String) : String := String.join (texts.map (· ++ "\n"))

def versionText : String := lines ["Rill 0.1.0-alpha.1"]

def usage : String := lines [
  "Rill scripting language",
  "",
  "Usage: rill <command> [options]",
  "",
  "Commands:",
  "  run <file.rl>      Run a Rill program",
  "  lex <file.rl>      Tokenize and display tokens",
  "  parse <file.rl>    Parse and print the syntax tree",
  "  help               Show this help message",
  "  version            Show version information",
  "",
  "Environment:",
  "  RILL_LOG           Tracing filter, e.g. rill_eval=debug",
  "  RILL_LOG_TREE      Render spans as an indented tree"]

def runUsage : String := lines [
  "Usage: rill run <file.rl> [options]",
  "",
  "Options:",
  "  --max-iterations=N   Loop iterations allowed per run (default 1000000)",
  "  --max-depth=N        Maximum call depth (default 1000)",
  "  --timeout=SECS       Wall-clock budget in seconds (default 30)",
  "  --no-limits          Disable the execution limiter"]

def success (stdout : String) : Report := ⟨0, stdout, ""⟩

def failure (stdout stderr : String) : Report := ⟨1, stdout, stderr⟩

/-- Report on the text of a file, or on why there is none. -/
def withFile (files : Files) (path : String) (report : String → Report) : Report :=
  match files.read path with
  | .ok source => report source
  | .error error => failure "" ("error: " ++ error.message path ++ "\n")

/-- Run a source text. A result of `main` that is not nil is printed last. -/
def runReport (files : Files) (path : String) (limits : Limits) (source : String) : Report :=
  let ⟨result, state⟩ := Execution.run files limits path source
  let printed := state.output.text
  match result with
  | .error error => failure printed (error.lines path)
  | .ok none | .ok (some .nil) => success printed
  | .ok (some value) => success (printed ++ state.heap.display value ++ "\n")

def lexReport (path source : String) : Report :=
  match tokenize source with
  | .error error => failure "" (ParseError.lexical error).line
  | .ok tokens =>
      success (lines (("Tokens for '" ++ path ++ "' (" ++ tokens.length.repr ++ " tokens):")
        :: tokens.map fun token => "  " ++ token.listing))

def parseReport (path source : String) : Report :=
  match Program.parse source "." with
  | .error error => failure "" error.line
  | .ok program =>
      success (lines ["Parse result for '" ++ path ++ "' (" ++ program.body.length.repr
        ++ " statements):", program.dump])

def perform (files : Files) : Command → Report
  | help => success usage
  | version => success versionText
  | run path limits => withFile files path (runReport files path limits)
  | lex path => withFile files path (lexReport path)
  | parse path => withFile files path (parseReport path)
  | unknown name => failure usage ("Unknown command: " ++ name ++ "\n\n")
  | pathMissing => failure "" ("error: missing file path\n" ++ runUsage)
  | badOption error => failure "" ("error: " ++ error.message ++ "\n" ++ runUsage)
  | nothingToList name => failure "" ("Usage: rill " ++ name ++ " <file.rl>\n")

end Command

end Rill
