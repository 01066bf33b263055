import WordAssembler.Text.Quoted
import WordAssembler.Machine.Opcodes
import WordAssembler.Diagnostic.Catalog
import WordAssembler.Source.Operand
import WordAssembler.Source.Directive
import WordAssembler.Symbol.Table
import WordAssembler.ObjectFile.File
import WordAssembler.Listing
import WordAssembler.Assembly.Emission
import WordAssembler.Profile.Basic
import WordAssembler.Main
import WordAssembler.Proofs.Pass
import WordAssembler.Proofs.Table
import WordAssembler.Proofs.Operand
import WordAssembler.Proofs.FirstPass
import WordAssembler.Proofs.Accounting
import WordAssembler.Proofs.Reading
import WordAssembler.Proofs.Layout
import WordAssembler.Proofs.Emission
import WordAssembler.Proofs.Words
import WordAssembler.Proofs.Findings
import WordAssembler.Proofs.Neutral
import WordAssembler.Proofs.Uppercase
import WordAssembler.Proofs.Bounds
import WordAssembler.Proofs.Clean
import WordAssembler.Proofs.Encoding
import WordAssembler.Proofs.Written
import WordAssembler.Proofs.Moved
import WordAssembler.Proofs.Fields
import WordAssembler.Proofs.Start
import WordAssembler.Proofs.Arithmetic
import WordAssembler.Proofs.MovedValues
import WordAssembler.Proofs.MovedWords
import WordAssembler.Proofs.Relocation
import WordAssembler.Proofs.Spelling
import WordAssembler.Proofs.Statements
import WordAssembler.Proofs.Beginning
import WordAssembler.Proofs.Linking
import WordAssembler.Proofs.Symbols
import WordAssembler.Proofs.Entries
import WordAssembler.Proofs.Equates
import WordAssembler.Proofs.Patches
import WordAssembler.Proofs.Modifications
import WordAssembler.Proofs.Records
import WordAssembler.Proofs.Stability
import WordAssembler.Proofs.Commented
import WordAssembler.Proofs.Alike
import WordAssembler.Proofs.Frame
import WordAssembler.Proofs.Comments
import WordAssembler.Proofs.Tallies
import WordAssembler.Proofs.Halting
import WordAssembler.Proofs.Rejection
import WordAssembler.Proofs.Shifted
import WordAssembler.Proofs.Decoding
import WordAssembler.Proofs.Names
import WordAssembler.Proofs.Ahead
import WordAssembler.Proofs.Declarations
import WordAssembler.Proofs.Substitution
import WordAssembler.Proofs.Uses
import WordAssembler.Proofs.Swaps
import WordAssembler.Proofs.Replaced
import WordAssembler.Proofs.Absolutes
import WordAssembler.Proofs.Evaluation
import WordAssembler.Proofs.Displaced
import WordAssembler.Proofs.Turns
import WordAssembler.Proofs.EncodedWords
import WordAssembler.Proofs.Masking
import WordAssembler.Proofs.Alternation
import WordAssembler.Proofs.Numerals
import WordAssembler.Proofs.OperandForms
import WordAssembler.Proofs.Literals
import WordAssembler.Proofs.Gathering
import WordAssembler.Proofs.Tokens
import WordAssembler.Proofs.TableOperations
import WordAssembler.Proofs.WhiteSpace
import WordAssembler.Proofs.OpcodeTables
import WordAssembler.Proofs.Catalogs
import WordAssembler.Proofs.Reduction
import WordAssembler.Proofs.Conversions
import WordAssembler.Proofs.Listings
