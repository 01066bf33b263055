import Std.Time
import WordAssembler.Command.Run

/-!
The command: assembles a source file to an object file.
-/

set_option autoImplicit false

namespace WordAssembler.Command

/-- The text of bytes, for names of files. -/
def nameOf (text : Bytes) : String := String.ofList (Utf8.shown text)

/-- The files of a list that can be read. -/
def readInputs (paths : List Bytes) : IO Files := do
  let mut files : Files := []
  for path in paths do
    try
      let content ← IO.FS.readBinFile (nameOf path)
      files := (path, content.toList) :: files
    catch _ => pure ()
  return files

/-- Date and time as a header shows them. -/
def dateOf (now : Std.Time.PlainDateTime) : Date :=
  ⟨now.year.toInt, now.month.toNat, now.day.toNat, now.hour.toNat, now.minute.toNat,
    now.second.toNat⟩

/-- The stamp of a log line. -/
def stamp (date : Date) : Bytes :=
  Numeral.padded 4 date.year ++ [byte '/'] ++ Numeral.padded 2 date.month ++ [byte '/'] ++
    Numeral.padded 2 date.day ++ [byte ' '] ++ Numeral.padded 2 date.hour ++ [byte ':'] ++
    Numeral.padded 2 date.minute ++ [byte ':'] ++ Numeral.padded 2 date.second ++ [byte ' ']

/-- Does the steps of a plan; a file that cannot be created ends the run. -/
def performSteps (date : Date) (exit : Nat) : List Step → IO Nat
  | [] => return exit
  | step :: rest => do
    let stderr ← IO.getStderr
    let log (line : Bytes) : IO Unit :=
      stderr.write (ByteArray.mk (stamp date ++ line ++ [byte '\n']).toArray)
    match step with
    | .log line => log line
    | .complain text => stderr.write (ByteArray.mk text.toArray)
    | .print text => (← IO.getStdout).write (ByteArray.mk text.toArray)
    | .write path text =>
      try IO.FS.writeBinFile (nameOf path) (ByteArray.mk text.toArray)
      catch _ =>
        log (noFileMessage path)
        return 1
    performSteps date exit rest

/-- Runs the command with its arguments; the result is its exit code. -/
def runArguments (arguments : List Bytes) : IO Nat := do
  let date := dateOf (← Std.Time.PlainDateTime.now)
  let files ← readInputs (inputs arguments)
  let plan := plan arguments files date
  performSteps date plan.exit plan.steps

end WordAssembler.Command

def main (arguments : List String) : IO UInt32 := do
  let exit ← WordAssembler.Command.runArguments (arguments.map fun text => text.toUTF8.toList)
  return exit.toUInt32
