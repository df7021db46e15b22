import BlockScript.Session
import BlockScript.Text.Lines

/-!
# The command line

The program runs a script, or prompts for lines and runs each of them in one session. Instead of
running a source it may write its tokens or its syntax trees. What a script prints goes to standard
output and diagnostics go to standard error. A script with a static fault ends with exit code 65
and one that fails with 70; at the prompt, faults do not end the session.
-/

namespace BlockScript

/-- What is done with a source. -/
inductive Console.Mode where
  /-- It is run. -/
  | run
  /-- The tree of each statement is written. -/
  | trees
  /-- Each token is written. -/
  | tokens
deriving DecidableEq, Repr

/-- What kept a source from running to its end. -/
inductive Console.Failure where
  | static
  | runtime
deriving DecidableEq, Repr

/-- Why there is no source to run. -/
inductive Console.ReadFault where
  | notFound
  | notText
deriving DecidableEq, Repr

/-- What the arguments ask for: the mode, and the script, or a prompt where there is none. -/
structure Console.Command where
  mode : Console.Mode
  script? : Option String
deriving DecidableEq, Repr

/-- What a process leaves behind. -/
structure Console.Transcript where
  stdout : String
  stderr : String
  exitCode : UInt32
deriving DecidableEq, Repr

/-- The state of a process: the session, whose output is standard output, and standard error. -/
structure Console where
  machine : Machine
  stderr : String

namespace Console

/-- The exit code of a script that failed. -/
def Failure.exitCode : Failure → UInt32
  | static => 65
  | runtime => 70

/-- The report of a source that cannot be read. -/
def ReadFault.report : ReadFault → String
  | notFound =>
    "Error: Os \x7b code: 2, kind: NotFound, message: \"No such file or directory\" \x7d"
  | notText =>
    "Error: Error \x7b kind: InvalidData, " ++
      "message: \"stream did not contain valid UTF-8\" \x7d"

/-- The exit code where a source cannot be read. -/
def ReadFault.exitCode : ReadFault → UInt32
  | notFound | notText => 1

/-- Takes a path for that of the script. There is only one script, and its path is not empty. -/
def Command.withScript? (command : Command) (path : String) : Option Command := do
  guard (command.script?.isNone && !path.isEmpty)
  return { command with script? := some path }

/-- Reads the arguments: at most one of the two flags, and at most one script. A lone dash is a
    path, and so is whatever comes after two dashes. -/
def Command.ofArgs? : List String → Option Command
  | [] => some ⟨.run, none⟩
  | "--" :: paths => paths.foldlM withScript? ⟨.run, none⟩
  | arg :: rest => do
    let command ← ofArgs? rest
    if arg = "--tokens" || arg = "--ast" then
      guard (command.mode = .run)
      return { command with mode := if arg = "--tokens" then .tokens else .trees }
    else
      guard (arg = "-" || !arg.startsWith "-")
      command.withScript? arg

/-- A process that has done nothing. -/
def new : Console := ⟨.new none, ""⟩

/-- Writes to standard output. -/
def write (c : Console) (text : String) : Console :=
  { c with machine := { c.machine with output := (c.machine.output.write text).2 } }

/-- Writes lines to standard output. -/
def writeLines (c : Console) (lines : List String) : Console :=
  lines.foldl (fun c line => c.write (line ++ "\n")) c

/-- Writes a line to standard error. -/
def writeError (c : Console) (line : String) : Console :=
  { c with stderr := c.stderr ++ (line ++ "\n") }

/-- Reports the diagnostics, each on a line, as a failure if there are any. -/
def report (c : Console) (failure : Failure) (diagnostics : List Diagnostic) :
    Option Failure × Console :=
  if diagnostics.isEmpty then (none, c)
  else (some failure, diagnostics.foldl (fun c d => c.writeError d.report) c)

/-- Does with a source what the mode says. -/
def feed (c : Console) (mode : Mode) (source : String) : Option Failure × Console :=
  match mode with
  | .tokens =>
    let scan := Scan.ofSource source
    (c.writeLines (scan.tokens.map Token.dump)).report .static scan.diagnostics
  | .trees =>
    match Program.ofSource source with
    | .error diagnostics => c.report .static diagnostics
    | .ok program => (none, c.writeLines (program.map Stmt.text))
  | .run =>
    match Session.run c.machine source with
    | (.rejected diagnostics, m) => { c with machine := m }.report .static diagnostics
    | (.failed d, m) => { c with machine := m }.report .runtime [d]
    | (.finished, m) => (none, { c with machine := m })

/-- What is left behind at the end of a process. -/
def transcript (c : Console) (exitCode : UInt32) : Transcript :=
  ⟨c.machine.output.text, c.stderr, exitCode⟩

/-- The end of a process that cannot read a source. -/
def abort (c : Console) (fault : ReadFault) : Console := c.writeError fault.report

/-- The source that the bytes of a script spell. -/
def decode (bytes : ByteArray) : Except ReadFault String :=
  match String.fromUTF8? bytes with
  | some source => .ok source
  | none => .error .notText

/-- Runs a script. -/
def runScript (mode : Mode) (source : Except ReadFault String) : Transcript :=
  match source with
  | .error fault => (new.abort fault).transcript fault.exitCode
  | .ok source =>
    match new.feed mode source with
    | (none, c) => c.transcript 0
    | (some failure, c) => c.transcript failure.exitCode

/-- Asks for a line. -/
def ask (c : Console) : Console := c.write "> "

/-- Prompts for lines and runs each in the same session, up to the end of the input or a line that
    is not text. -/
def promptFrom (c : Console) (mode : Mode) : List (Except ReadFault String) → Transcript
  | [] => c.ask.transcript 0
  | .error fault :: _ => (c.ask.abort fault).transcript fault.exitCode
  | .ok line :: rest => (c.ask.feed mode line).2.promptFrom mode rest

/-- Prompts for the lines of the input. -/
def runPrompt (mode : Mode) (input : ByteArray) : Transcript :=
  new.promptFrom mode ((Text.splitLines input.toList).map fun line => decode ⟨line.toArray⟩)

end Console

end BlockScript
