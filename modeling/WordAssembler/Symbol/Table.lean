import WordAssembler.Text.Unlisted

/-!
Symbols and symbol tables. A table is a finite map from labels to symbols, kept in increasing byte
order of the labels.
-/

set_option autoImplicit false

namespace WordAssembler

/-- How a symbol came into a program. -/
inductive Usage where
  | label
  | entry
  | programName
  | external
  | equated
  | other (code : Int)
deriving DecidableEq, Repr

namespace Usage

/-- The usages, in the order of their codes. -/
def all : List Usage := [.label, .entry, .programName, .external, .equated]

def name : Usage → Bytes
  | .label => ascii "label"
  | .entry => ascii "entry"
  | .programName => ascii "program name"
  | .external => ascii "external"
  | .equated => ascii "equated"
  | .other code => unlisted "Usage" code

def ofCode (code : Int) : Usage := (listed? all code).getD (.other code)

end Usage

/-- A name of a program. An equated symbol has a value and the number of relocatable contributions
to it; other symbols have a location, unless they lie elsewhere or are not defined yet. -/
structure Symbol where
  label : Bytes
  location : Option Int
  usage : Usage
  value : Int
  relocations : Int
deriving DecidableEq, Repr

namespace Symbol

/-- The address of a symbol without a location. -/
def noAddress : Int := -1

/-- The location of an address; `noAddress` stands for none. -/
def locationOf (address : Int) : Option Int := if address = noAddress then none else some address

def isLocated (symbol : Symbol) : Bool := symbol.location.isSome

def address (symbol : Symbol) : Int := symbol.location.getD noAddress

/-- The symbol is an address within the program. -/
def isLocal (symbol : Symbol) : Bool :=
  match symbol.usage with
  | .label => true
  | .entry => symbol.isLocated
  | _ => false

/-- Labels in increasing byte order, so each at most once. -/
def Ascending (symbols : List Symbol) : Prop :=
  symbols.Pairwise fun a b => a.label < b.label

/-- Puts a symbol in its place, over one with its label. -/
def place (symbol : Symbol) : List Symbol → List Symbol
  | [] => [symbol]
  | head :: rest =>
    if symbol.label < head.label then symbol :: head :: rest
    else if symbol.label = head.label then symbol :: rest
    else head :: place symbol rest

theorem mem_place {symbol other : Symbol} {symbols : List Symbol}
    (h : other ∈ place symbol symbols) : other = symbol ∨ other ∈ symbols := by
  induction symbols with
  | nil => simpa [place] using h
  | cons head rest ih =>
    simp only [place] at h
    split at h
    · simpa using h
    · split at h
      · rcases List.mem_cons.1 h with same | inRest
        · exact Or.inl same
        · exact Or.inr (List.mem_cons_of_mem _ inRest)
      · rcases List.mem_cons.1 h with same | inRest
        · exact Or.inr (same ▸ List.mem_cons_self)
        · exact (ih inRest).imp_right (List.mem_cons_of_mem _)

theorem ascending_place (symbol : Symbol) {symbols : List Symbol} (h : Ascending symbols) :
    Ascending (place symbol symbols) := by
  induction symbols with
  | nil => simp [place, Ascending]
  | cons head rest ih =>
    obtain ⟨above, ordered⟩ := List.pairwise_cons.1 h
    simp only [place]
    split
    · rename_i before
      refine List.pairwise_cons.2 ⟨fun other mem => ?_, h⟩
      rcases List.mem_cons.1 mem with same | inRest
      · exact same ▸ before
      · exact List.lt_trans before (above other inRest)
    · rename_i notBefore
      split
      · rename_i same
        exact List.pairwise_cons.2 ⟨fun other mem => same ▸ above other mem, ordered⟩
      · rename_i different
        refine List.pairwise_cons.2 ⟨fun other mem => ?_, ih ordered⟩
        rcases mem_place mem with rfl | inRest
        · exact Std.lt_of_le_of_ne (List.not_lt.1 notBefore) (Ne.symm different)
        · exact above other inRest

/-- The symbols of a program, in increasing byte order of their labels. -/
structure Table where
  symbols : List Symbol
  ascending : Ascending symbols

namespace Table

def empty : Table := ⟨[], List.Pairwise.nil⟩

/-- Why an operation on a table fails. -/
inductive Fault where
  | duplicate (label : Bytes)
  | missing (label : Bytes)
deriving DecidableEq, Repr

def Fault.message : Fault → Bytes
  | .duplicate label => ascii "symbol " ++ label ++ ascii " already defined"
  | .missing label => ascii "symbol " ++ label ++ ascii " not defined"

/-- The symbol of a label; case matters. -/
def get? (table : Table) (label : Bytes) : Option Symbol :=
  table.symbols.find? (·.label == label)

def contains (table : Table) (label : Bytes) : Bool := (table.get? label).isSome

/-- The table with a symbol, over any other with its label. -/
def insert (table : Table) (symbol : Symbol) : Table :=
  ⟨place symbol table.symbols, ascending_place symbol table.ascending⟩

def erase (table : Table) (label : Bytes) : Table :=
  ⟨table.symbols.filter (·.label != label), table.ascending.filter _⟩

/-- The symbol of a label that must be there. -/
def get (table : Table) (label : Bytes) : Except Fault Symbol :=
  match table.get? label with
  | some symbol => .ok symbol
  | none => .error (.missing label)

/-- Adds a symbol whose label must be new. -/
def add (table : Table) (symbol : Symbol) : Except Fault Table :=
  if table.contains symbol.label then .error (.duplicate symbol.label)
  else .ok (table.insert symbol)

/-- Adds a symbol given by its parts. -/
def define (table : Table) (label : Bytes) (location : Option Int) (usage : Usage) (value : Int) :
    Except Fault Table :=
  table.add ⟨label, location, usage, value, 0⟩

/-- The table with a symbol if its label is new, and as it was otherwise. -/
def extend (table : Table) (symbol : Symbol) : Table :=
  if table.contains symbol.label then table else table.insert symbol

/-- Replaces the symbol of a label that must be there. -/
def replace (table : Table) (symbol : Symbol) : Except Fault Table :=
  if table.contains symbol.label then .ok (table.insert symbol)
  else .error (.missing symbol.label)

/-- Removes the symbol of a label that must be there, and returns it. -/
def remove (table : Table) (label : Bytes) : Except Fault (Symbol × Table) :=
  match table.get label with
  | .ok symbol => .ok (symbol, table.erase label)
  | .error fault => .error fault

/-- The labels, in increasing byte order. -/
def sorted (table : Table) : List Bytes := table.symbols.map (·.label)

def size (table : Table) : Nat := table.symbols.length

end Table

end Symbol

end WordAssembler
