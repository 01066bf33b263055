import WordAssembler.ObjectFile.Record

/-!
Object files: the records of an assembled program, in the order of their kinds.
-/

set_option autoImplicit false

namespace WordAssembler

/-- An assembled program. -/
structure ObjectFile where
  header : Header
  linking : List Linking
  text : List TextRecord
  modifications : List Modification
  program : Bytes
deriving DecidableEq, Repr

namespace ObjectFile

/-- The records in order: header, linking, text, modifications, end. -/
def records (file : ObjectFile) : List Record :=
  [.header file.header] ++ file.linking.map .linking ++ file.text.map .text ++
    file.modifications.map .modification ++ [.finish file.program]

/-- The text of the file, one record per line. -/
def render (file : ObjectFile) : Bytes := ofLines (file.records.map Record.line)

/-- The file of records in any order; of headers and end records the last counts. -/
def ofRecords (records : List Record) : ObjectFile :=
  records.foldl (fun file record =>
    match record with
    | .header h => { file with header := h }
    | .linking l => { file with linking := file.linking ++ [l] }
    | .text t => { file with text := file.text ++ [t] }
    | .modification m => { file with modifications := file.modifications ++ [m] }
    | .finish program => { file with program := program })
    ⟨Header.blank, [], [], [], []⟩

end ObjectFile

end WordAssembler
