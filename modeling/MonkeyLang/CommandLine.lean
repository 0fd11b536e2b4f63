import MonkeyLang.CommandLine.RunOptions
import MonkeyLang.CommandLine.SourceFile
import MonkeyLang.Listing
import MonkeyLang.Session

/-!
# The command line

The commands of the program, what each of them needs, and what it writes.

## Main definitions

* `Command.ofArgs` : the command that the arguments give.
* `Command.report` : what the command writes, from what it reads.
-/

namespace MonkeyLang

/-- What a command has written, and the exit code. -/
structure CommandReport where
  /-- The exit code. -/
  code : Nat
  /-- What is written on the output channel. -/
  stdout : String
  /-- What is written on the error channel. -/
  stderr : String
  deriving DecidableEq

/-- The commands of the program. -/
inductive Command where
  /-- Runs the script in a file. -/
  | run (path : String) (options : Options)
  /-- Holds an interactive session. -/
  | converse (options : Options)
  /-- Lists the program in a file. -/
  | listProgram (path : String)
  /-- Lists the tokens of a file. -/
  | listTokens (path : String)
  /-- Tells how the program is used. -/
  | usage
  /-- Tells the version. -/
  | version
  /-- Refuses the arguments, in the given words. -/
  | refuse (words : String)
  /-- Refuses a command that there is not. -/
  | unknown (name : String)
  deriving DecidableEq

namespace Command

/-- How the program is used. -/
def usageText : String :=
  "Monkey - a small dynamically typed language\n\n" ++
  "Usage: monkey [command] [options]\n\n" ++
  "Commands:\n" ++
  "  run <file.mk>        Run a Monkey program\n" ++
  "  -f <file.mk>         Same as run\n" ++
  "  repl                 Start the interactive REPL (default)\n" ++
  "  parse <file.mk>      Parse and display the program\n" ++
  "  lex <file.mk>        Tokenize and display tokens\n" ++
  "  help                 Show this help message\n" ++
  "  version              Show version information\n\n" ++
  "Options:\n" ++
  "  --assign=<mode>      Reassignment: local (default) or enclosing\n" ++
  "  --max-depth=<n>      Fail with an error past n nested calls\n\n" ++
  "Environment:\n" ++
  "  RUST_LOG             Enable tracing (e.g. RUST_LOG=monkey_eval=debug)\n" ++
  "  MONKEY_LOG_TREE      Render traces as an indented tree\n"

/-- The version of the program. -/
def versionText : String := "Monkey 0.1.0\n"

/-- The command `next` with the options among `args`, and the other arguments. -/
def withOptions (args : List String) (next : Options → List String → Command) : Command :=
  match RunOptions.read args with
  | .ok (o, others) => next o others
  | .error e => .refuse s!"error: {e.message}\n"

/-- The command that runs the first file named among `args`. -/
def ofRunArgs (args : List String) : Command :=
  withOptions args fun o others =>
    match others with
    | path :: _ => .run path o
    | [] => .refuse
      ("error: missing file path\n" ++
        "Usage: monkey run <file.mk> [--assign=local|enclosing]\n")

/-- The command that the arguments of the program give. -/
def ofArgs : List String → Command
  | [] => .converse {}
  | name :: args =>
    match name, args with
    | "run", args | "-f", args => ofRunArgs args
    | "repl", args => withOptions args fun o _ => .converse o
    | "parse", [] => .refuse "Usage: monkey parse <file.mk>\n"
    | "parse", path :: _ => .listProgram path
    | "lex", [] => .refuse "Usage: monkey lex <file.mk>\n"
    | "lex", path :: _ => .listTokens path
    | "help", _ | "--help", _ | "-h", _ => .usage
    | "version", _ | "--version", _ | "-v", _ => .version
    | name, args =>
      if "--".toList.isPrefixOf name.toList then withOptions (name :: args) fun o _ => .converse o
      else if FilePath.isSource name then withOptions args fun o _ => .run name o
      else .unknown name

/-- The path of the file that the command reads. -/
def path? : Command → Option String
  | .run path _ | .listProgram path | .listTokens path => some path
  | _ => none

/-- Whom an interactive session greets, given what the environment says. -/
def user (env : String → Option String) : String :=
  (env "USER" <|> env "USERNAME").getD "there"

/-- The report on a script that has been run. -/
def reportScript (r : Script.Report) : CommandReport :=
  ⟨r.status.exitCode, r.printed ++ r.out, r.err⟩

/-- The words in which it is said that the input of a session is no text. -/
def unreadableInput : String := "error: stream did not contain valid UTF-8\n"

/-- The report on a session that has been held, after the banner. -/
def reportConversation (banner : String) (c : Session.Conversation) : CommandReport :=
  match c.closing with
  | .code code => ⟨code, banner ++ c.all, ""⟩
  | .unreadable => ⟨1, banner ++ c.all, unreadableInput⟩

/-- The report of a command that reads the text of a file. -/
def withSource (path : String) (contents : FileContents)
    (next : String → Option CommandReport) : Option CommandReport :=
  match contents.source path with
  | .ok text => next text
  | .error words => some ⟨1, "", s!"error: {words}\n"⟩

/-- What the command writes, with the given number of steps for every evaluation. It reads files
through `files`, the environment through `env` and the bytes of the input. -/
def report (fuel : Nat) (files : String → FileContents) (env : String → Option String)
    (input : List UInt8) : Command → Option CommandReport
  | .run path o =>
    withSource path (files path) fun text => (Script.run o fuel path text).map reportScript
  | .converse o =>
    ((Session.start o).converse fuel (Session.inputLines input)).map
      (reportConversation (Session.greeting (user env)))
  | .listProgram path =>
    withSource path (files path) fun text => some ⟨0, Listing.program path text, ""⟩
  | .listTokens path =>
    withSource path (files path) fun text => some ⟨0, Listing.tokens path text, ""⟩
  | .usage => some ⟨0, usageText, ""⟩
  | .version => some ⟨0, versionText, ""⟩
  | .refuse words => some ⟨1, "", words⟩
  | .unknown name => some ⟨1, usageText, s!"Unknown command: {name}\n\n"⟩

end Command

end MonkeyLang
