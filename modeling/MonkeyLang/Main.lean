import MonkeyLang.CommandLine

/-!
# The program

The command line program: it reads arguments, files, the environment and input, and writes what
`Command.report` says. An interactive session is held line by line, so that an answer appears before
the next line is read.
-/

open MonkeyLang

/-- What an error of the system tells about the path of a file. The code of an error may come with
its sign reversed. -/
def contentsOfError : IO.Error → FileContents
  | .noFileOrDirectory .. => .missing
  | .permissionDenied .. => .forbidden
  | .inappropriateType _ code details | .invalidArgument _ code details
  | .otherError code details =>
    match min code (0 - code) with
    | 20 => .insideFile
    | 21 => .directory
    | 36 => .nameTooLong
    | n => .unreadable s!"{details} (os error {n})"
  | e => .unreadable (toString e)

/-- What is found under the path of a file. -/
def readContents (path : String) : IO FileContents := do
  try return .bytes (← IO.FS.readBinFile path)
  catch e => return contentsOfError e

/-- The bytes of the input up to and with the next line feed, after the bytes `line`. -/
partial def readLine (input : IO.FS.Stream) (line : ByteArray) : IO ByteArray := do
  let next ← input.read 1
  if next.isEmpty || next == ⟨#[10]⟩ then return line ++ next else readLine input (line ++ next)

/-- Writes a text at once. -/
def write (text : String) : IO Unit := do
  let output ← IO.getStdout
  output.putStr text
  output.flush

/-- Holds the rest of an interactive session and answers the exit code. -/
partial def holdSession (s : Session) : IO UInt32 := do
  write Session.prompt
  match Session.inputLines (← readLine (← IO.getStdin) .empty).toList with
  | [] =>
    write "\n"
    return 0
  | none :: _ =>
    IO.eprint Command.unreadableInput
    return 1
  | some text :: _ =>
    if Blank.isBlankText text then holdSession s
    else
      match s.line ampleFuel text with
      | none => return 1
      | some (report, s) =>
        write (report.printed ++ report.shown)
        match report.exit with
        | some code => return code.toUInt32
        | none => holdSession s

/-- The program. -/
def main (args : List String) : IO UInt32 := do
  match Command.ofArgs args with
  | .converse o =>
    let user ← IO.getEnv "USER"
    let username ← IO.getEnv "USERNAME"
    let env (name : String) := if name == "USER" then user else username
    write (Session.greeting (Command.user env))
    holdSession (.start o)
  | command =>
    let contents ← match command.path? with
      | some path => readContents path
      | none => pure .missing
    match command.report ampleFuel (fun _ => contents) (fun _ => none) [] with
    | none => return 1
    | some report =>
      IO.eprint report.stderr
      write report.stdout
      return report.code.toUInt32
