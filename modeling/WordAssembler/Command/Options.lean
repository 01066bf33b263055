import WordAssembler.Text.Quoted

/-!
Options of the command. An option is a name after one or two dashes, with its value after an equals
sign or in the next argument; the switch takes a value only after an equals sign. Options end at the
first argument that is none, or after two dashes by themselves.
-/

set_option autoImplicit false

namespace WordAssembler.Command

/-- The options of a run, empty if not given, and the other arguments. -/
structure Options where
  object : Bytes := []
  listing : Bytes := []
  profile : Bytes := []
  language : Bytes := []
  verbose : Bool := false
  arguments : List Bytes := []
deriving DecidableEq, Repr

/-- Why options cannot be read; help is asked for in the same place. -/
inductive OptionFault where
  | help
  | form (argument : Bytes)
  | unknown (name : Bytes)
  | noValue (name : Bytes)
  | truth (value name : Bytes)
deriving DecidableEq, Repr

def OptionFault.message? : OptionFault → Option Bytes
  | .help => none
  | .form argument => some (ascii "bad flag syntax: " ++ argument)
  | .unknown name => some (ascii "flag provided but not defined: -" ++ name)
  | .noValue name => some (ascii "flag needs an argument: -" ++ name)
  | .truth value name =>
    some (ascii "invalid boolean value " ++ Quoted.quote value ++ ascii " for -" ++ name ++
      ascii ": parse error")

def commandName : Bytes := ascii "ffasm"

def usage : Bytes :=
  ofLines [ascii "Usage of " ++ commandName ++ ascii ":",
    ascii "  -l string", ascii "    \tListing file (- for stdout)",
    ascii "  -lang string", ascii "    \tMessage language",
    ascii "  -o string",
    ascii "    \tObject file (default: source with .obj suffix, - for stdout)",
    ascii "  -p string", ascii "    \tAssembler profile (.star)",
    ascii "  -v\tVerbose mode"]

/-- The words for true and false. -/
def truth? (word : Bytes) : Option Bool :=
  if (["1", "t", "T", "TRUE", "true", "True"].map ascii).contains word then some true
  else if (["0", "f", "F", "FALSE", "false", "False"].map ascii).contains word then some false
  else none

/-- Sets an option that has a text as its value. -/
def Options.setText? (options : Options) (name value : Bytes) : Option Options :=
  if name = ascii "o" then some { options with object := value }
  else if name = ascii "l" then some { options with listing := value }
  else if name = ascii "p" then some { options with profile := value }
  else if name = ascii "lang" then some { options with language := value }
  else none

def Options.setSwitch (options : Options) (name : Bytes) (value? : Option Bytes) :
    Except OptionFault Options :=
  match truth? (value?.getD (ascii "true")) with
  | some verbose => .ok { options with verbose := verbose }
  | none => .error (.truth (value?.getD []) name)

/-- What an argument is. -/
inductive Argument where
  | plain
  | endOfOptions
  | badForm
  | option (name : Bytes) (value : Option Bytes)
deriving DecidableEq, Repr

/-- The name of an option, and its value after an equals sign; the name has at least one byte. -/
def nameAndValue : Bytes → Bytes × Option Bytes
  | [] => ([], none)
  | first :: rest =>
    match Bytes.cut? (byte '=') rest with
    | some (before, value) => (first :: before, some value)
    | none => (first :: rest, none)

/-- Classifies the text of an option after its dashes. -/
def classifyOption (text : Bytes) : Argument :=
  match text with
  | [] => .badForm
  | first :: _ =>
    if first = byte '-' ∨ first = byte '=' then .badForm
    else .option (nameAndValue text).1 (nameAndValue text).2

def classify : Bytes → Argument
  | [] | [_] => .plain
  | first :: second :: rest =>
    if first ≠ byte '-' then .plain
    else if second = byte '-' then
      if rest.isEmpty then .endOfOptions else classifyOption rest
    else classifyOption (second :: rest)

/-- Reads arguments after those that set `options`. -/
def Options.readFrom (options : Options) : List Bytes → Except OptionFault Options
  | [] => .ok options
  | argument :: rest =>
    match classify argument with
    | .plain => .ok { options with arguments := argument :: rest }
    | .endOfOptions => .ok { options with arguments := rest }
    | .badForm => .error (.form argument)
    | .option name value? =>
      if name = ascii "v" then
        match options.setSwitch name value? with
        | .ok options => options.readFrom rest
        | .error fault => .error fault
      else if (options.setText? name []).isNone then
        if name = ascii "help" ∨ name = ascii "h" then .error .help else .error (.unknown name)
      else
        match value? with
        | some value => ((options.setText? name value).getD options).readFrom rest
        | none =>
          match rest with
          | value :: later => ((options.setText? name value).getD options).readFrom later
          | [] => .error (.noValue name)

def Options.read (arguments : List Bytes) : Except OptionFault Options :=
  Options.readFrom {} arguments

end WordAssembler.Command
