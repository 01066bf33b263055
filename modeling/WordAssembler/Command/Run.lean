import WordAssembler.Assembly.Emission
import WordAssembler.Command.Options
import WordAssembler.Profile.Basic

/-!
Runs of the command. A run is planned from its arguments and the files it reads: what it writes, in
order, and its exit code. A plan stops at a file that cannot be created.
-/

set_option autoImplicit false

namespace WordAssembler.Command

/-- A step of a run: a log line, text on standard error, text on standard output, or a file. -/
inductive Step where
  | log (line : Bytes)
  | complain (text : Bytes)
  | print (text : Bytes)
  | write (path text : Bytes)
deriving DecidableEq, Repr

/-- The steps of a run, and its exit code if all can be done. -/
structure Plan where
  steps : List Step
  exit : Nat
deriving DecidableEq, Repr

abbrev Files := List (Bytes × Bytes)

def Files.get? (files : Files) (path : Bytes) : Option Bytes :=
  (files.find? (·.1 == path)).map (·.2)

/-- What is said of a file that cannot be opened or created. -/
def noFileMessage (path : Bytes) : Bytes :=
  path ++ ascii ": open " ++ path ++ ascii ": no such file or directory"

/-- Writes to a path; a dash stands for standard output. -/
def output (path text : Bytes) : Step :=
  if path = [byte '-'] then .print text else .write path text

/-- A plan that ends with a log line and an exit code of 1. -/
def stopping (steps : List Step) (line : Bytes) : Plan := ⟨steps ++ [.log line], 1⟩

/-- The path without its extension: what follows the last dot of its last part. -/
def withoutExtension (path : Bytes) : Bytes :=
  let last := (path.reverse.takeWhile (· != byte '/'))
  if last.contains (byte '.') then (path.reverse.dropWhile (· != byte '.')).tail.reverse else path

def objectPath (options : Options) (source : Bytes) : Bytes :=
  if options.object.isEmpty then withoutExtension source ++ ascii ".obj" else options.object

/-- The last line of a verbose run. -/
def summary (source : Bytes) (context : Context) : Bytes :=
  source ++ ascii ": " ++ Numeral.decimal context.errors ++ ascii " errors, " ++
    Numeral.decimal context.warnings ++ ascii " warnings, " ++ Numeral.decimal context.length ++
    ascii " words"

/-- The steps after an assembly: the listing, then the object file or why there is none. -/
def report (options : Options) (source : Bytes) (assembled : Assembled) : Plan :=
  let logged := assembled.log.map Step.log
  let listing :=
    if options.listing.isEmpty then []
    else [output options.listing (assembled.program.listing 0).render]
  match assembled.outcome with
  | .error fault => stopping (logged ++ listing) (source ++ ascii ": " ++ fault.message)
  | .ok file =>
    let context := assembled.program.context
    ⟨logged ++ listing ++ [output (objectPath options source) file.render] ++
      (if options.verbose then [.log (summary source context)] else []),
      if 0 < context.errors then 1 else 0⟩

/-- The steps with an assembler. -/
def assembleSource (options : Options) (source : Bytes) (files : Files) (date : Date)
    (assembler : Assembler) : Plan :=
  match files.get? source with
  | none => stopping [] (noFileMessage source)
  | some text =>
    report options source ({ assembler with verbose := options.verbose }.assemble text date)

def withProfile (options : Options) (source : Bytes) (files : Files) (date : Date)
    (profile : Profile) : Plan :=
  let (built, notes) := profile.build
  let logged := notes.map Step.log
  match built with
  | .error fault => stopping logged (options.profile ++ ascii ": " ++ fault.message)
  | .ok assembler =>
    let plan := assembleSource options source files date assembler
    { plan with steps := logged ++ plan.steps }

/-- The steps for one source file. -/
def withSource (options : Options) (source : Bytes) (files : Files) (date : Date) : Plan :=
  if options.profile.isEmpty then withProfile options source files date Profile.standard
  else
    match files.get? options.profile with
    | none => stopping [] (noFileMessage options.profile)
    | some script =>
      match Profile.ofScript script with
      | .error fault => stopping [] (options.profile ++ ascii ": " ++ fault.message)
      | .ok profile => withProfile options source files date profile

/-- What is said of a number of source files other than one. -/
def argumentsMessage (arguments : List Bytes) : Bytes :=
  commandName ++ ascii ": Expected one source file: [" ++ [byte ' '].intercalate arguments ++
    ascii "]"

/-- Plans a run from its arguments, the files it may read, and the date. -/
def plan (arguments : List Bytes) (files : Files) (date : Date) : Plan :=
  match Options.read arguments with
  | .error fault =>
    match fault.message? with
    | none => ⟨[.complain usage], 0⟩
    | some message => ⟨[.complain (message ++ [byte '\n']), .complain usage], 2⟩
  | .ok options =>
    match options.arguments with
    | [source] => withSource options source files date
    | arguments => stopping [] (argumentsMessage arguments)

/-- The files that a run reads. -/
def inputs (arguments : List Bytes) : List Bytes :=
  match Options.read arguments with
  | .error _ => []
  | .ok options => options.profile :: options.arguments

/-- What a run left behind: its exit code, its two outputs, and the files written, last first. -/
structure Outcome where
  exit : Nat
  output : Bytes
  errors : Bytes
  written : Files
deriving DecidableEq, Repr

/-- Does the steps of a plan where only some paths can be created. -/
def perform (creatable : Bytes → Bool) (exit : Nat) (done : Outcome) : List Step → Outcome
  | [] => { done with exit := exit }
  | .log line :: rest =>
    perform creatable exit { done with errors := done.errors ++ line ++ [byte '\n'] } rest
  | .complain text :: rest =>
    perform creatable exit { done with errors := done.errors ++ text } rest
  | .print text :: rest => perform creatable exit { done with output := done.output ++ text } rest
  | .write path text :: rest =>
    if creatable path then
      perform creatable exit { done with written := (path, text) :: done.written } rest
    else { done with exit := 1, errors := done.errors ++ noFileMessage path ++ [byte '\n'] }

/-- What a run leaves behind in a directory without subdirectories, where only a path without a
slash can be created. -/
def run (arguments : List Bytes) (files : Files) (date : Date) : Outcome :=
  let plan := plan arguments files date
  perform (fun path => !path.contains (byte '/')) plan.exit ⟨0, [], [], []⟩ plan.steps

end WordAssembler.Command
