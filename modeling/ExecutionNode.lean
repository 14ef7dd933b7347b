import ExecutionNode.Main
import ExecutionNode.Proofs.Assembling
import ExecutionNode.Proofs.Canonical
import ExecutionNode.Proofs.Concatenation
import ExecutionNode.Proofs.Encoding
import ExecutionNode.Proofs.FirstFault
import ExecutionNode.Proofs.Grammar
import ExecutionNode.Proofs.Immediates
import ExecutionNode.Proofs.Invariant
import ExecutionNode.Proofs.Linking
import ExecutionNode.Proofs.Listed
import ExecutionNode.Proofs.Log
import ExecutionNode.Proofs.Meaning
import ExecutionNode.Proofs.Numerals
import ExecutionNode.Proofs.Positions
import ExecutionNode.Proofs.Printing
import ExecutionNode.Proofs.Reading
import ExecutionNode.Proofs.Reassembly
import ExecutionNode.Proofs.Walk
import ExecutionNode.Proofs.LineLimit
import ExecutionNode.Proofs.Diagnosis
import ExecutionNode.Proofs.Layout
import ExecutionNode.Proofs.Marks
import ExecutionNode.Proofs.Tools
import ExecutionNode.Proofs.Extension
import ExecutionNode.Proofs.Renaming
import ExecutionNode.Proofs.DigitRuns
import ExecutionNode.Proofs.Operands
import ExecutionNode.Proofs.Columns
import ExecutionNode.Proofs.Windows
import ExecutionNode.Proofs.LiteralGrammar
import ExecutionNode.Proofs.TypedWords
