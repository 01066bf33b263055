import WordAssembler.Assembly.Program
import WordAssembler.Profile.Script.Value

/-!
Profiles: the texts of the tables of an assembler, and what it writes in headers. A profile can be
given by a script that assigns some of its parts; the standard texts are at the script's hand.
-/

set_option autoImplicit false

namespace WordAssembler

/-- What makes an assembler. -/
structure Profile where
  opcodes : Bytes
  directives : Bytes
  errors : Bytes
  version : Int
  assembler : Bytes
deriving DecidableEq, Repr

namespace Profile

def standard : Profile where
  opcodes := Opcodes.standardText
  directives := Directives.standardText
  errors := Catalog.standardText
  version := Header.standardVersion
  assembler := Header.standardAssembler

/-! ### Assemblers -/

/-- Why a profile makes no assembler. -/
inductive TableFault where
  | opcodes (fault : LineError Opcodes.Fault)
  | directives (fault : LineError Directives.Fault)
  | errorsTooLong
deriving DecidableEq, Repr

def TableFault.message : TableFault → Bytes
  | .opcodes fault => ascii "profile: opcodes: " ++ fault.message Opcodes.Fault.message
  | .directives fault => ascii "profile: directives: " ++ fault.message Directives.Fault.message
  | .errorsTooLong => ascii "profile: errors: " ++ Lines.tooLongMessage

/-- The assembler of a profile, or the first table that is wrong, and the notes on the catalog of
diagnostics. -/
def build (profile : Profile) : Except TableFault Assembler × List Bytes :=
  match Opcodes.parse profile.opcodes with
  | .error fault => (.error (.opcodes fault), [])
  | .ok opcodes =>
    match Directives.parse profile.directives with
    | .error fault => (.error (.directives fault), [])
    | .ok directives =>
      match Catalog.parse profile.errors with
      | (none, notes) => (.error .errorsTooLong, notes)
      | (some catalog, notes) =>
        (.ok { opcodes, directives, catalog, version := profile.version,
               identifier := profile.assembler }, notes)

/-! ### Scripts -/

/-- Why a script makes no profile. -/
inductive ScriptFault where
  | script
  | type (part want : String)
deriving DecidableEq, Repr

def ScriptFault.message : ScriptFault → Bytes
  | .script => ascii "profile: script failed"
  | .type part want => ascii "profile: '" ++ ascii part ++ ascii "' must be a " ++ ascii want

/-- The names given to a script. -/
def given : Script.Scope :=
  [("default_opcodes".toList, .text (Utf8.shown Opcodes.standardText)),
    ("default_directives".toList, .text (Utf8.shown Directives.standardText)),
    ("default_errors".toList, .text (Utf8.shown Catalog.standardText))]

/-- A part of a profile that a script may set to a text. -/
def textPart (scope : Script.Scope) (part : String) (standard : Bytes) :
    Except ScriptFault Bytes :=
  match scope.get? part.toList with
  | none => .ok standard
  | some (.text value) => .ok (Utf8.encode value)
  | some _ => .error (.type part "string")

/-- The version that a script may set to a number of sixteen bits. -/
def versionPart (scope : Script.Scope) (standard : Int) : Except ScriptFault Int :=
  match scope.get? "version".toList with
  | none => .ok standard
  | some (.integer value) =>
    if 0 ≤ value ∧ value ≤ 65535 then .ok value else .error (.type "version" "16-bit integer")
  | some _ => .error (.type "version" "16-bit integer")

/-- The profile of the parts that a script assigned. -/
def ofScope (scope : Script.Scope) : Except ScriptFault Profile := do
  let opcodes ← textPart scope "opcodes" standard.opcodes
  let directives ← textPart scope "directives" standard.directives
  let errors ← textPart scope "errors" standard.errors
  let assembler ← textPart scope "assembler_id" standard.assembler
  let version ← versionPart scope standard.version
  pure ⟨opcodes, directives, errors, version, assembler⟩

/-- The profile that a script makes. -/
def ofScript (script : Bytes) : Except ScriptFault Profile :=
  match Script.run? given script with
  | some scope => ofScope scope
  | none => .error .script

end Profile

end WordAssembler
