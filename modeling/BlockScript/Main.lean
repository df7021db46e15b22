import BlockScript.Console

/-!
# The program

Reads the arguments, and then a script or the lines that are typed at the prompt.
-/

open BlockScript

/-- Writes what is new on the standard streams since the output held `shown` bytes. -/
def showProgress (c : Console) (shown : Nat) : IO Console := do
  let out ← IO.getStdout
  let written := c.machine.output.written
  out.write (written.extract shown written.size)
  out.flush
  (← IO.getStderr).putStr c.stderr
  return { c with stderr := "" }

/-- The contents of the script at `path`. -/
def readScript (path : String) : IO (Except Console.ReadFault String) := do
  match ← (IO.FS.readBinFile path).toBaseIO with
  | .ok bytes => return Console.decode bytes
  | .error (.noFileOrDirectory ..) => return .error .notFound
  | .error e => throw e

/-- The bytes of the next line with its line feed, and none at the end of the input. -/
def readLine (input : IO.FS.Stream) : IO ByteArray := do
  let mut line := ByteArray.empty
  repeat
    let next ← input.read 1
    line := line ++ next
    if next.isEmpty || next.data.back? = some 10 then break
  return line

/-- Prompts until the input ends, or a line is not text. -/
def prompt (mode : Console.Mode) : IO UInt32 := do
  let input ← IO.getStdin
  let mut c := Console.new
  let mut shown := 0
  repeat
    c ← showProgress c.ask shown
    shown := c.machine.output.written.size
    let line ← readLine input
    if line.isEmpty then break
    match Console.decode line with
    | .ok source => c := (c.feed mode source).2
    | .error fault =>
      discard <| showProgress (c.abort fault) shown
      return fault.exitCode
  return 0

/-- The program. -/
def main (args : List String) : IO UInt32 := do
  match Console.Command.ofArgs? args with
  | none =>
    IO.eprintln "usage: blockscript [--tokens | --ast] [SCRIPT]"
    return 2
  | some ⟨mode, none⟩ => prompt mode
  | some ⟨mode, some path⟩ =>
    let transcript := Console.runScript mode (← readScript path)
    IO.print transcript.stdout
    IO.eprint transcript.stderr
    return transcript.exitCode
