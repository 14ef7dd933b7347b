import ExecutionNode.Assembly.Program
import ExecutionNode.Image.Window
import ExecutionNode.Numeral.Reader
import ExecutionNode.Tool.Arguments

/-!
# Invocations

The commands of the tool, each with its options: `asm` assembles a file, `words` disassembles
words that are typed, and `listing` disassembles the image in a file.
-/

namespace ExecutionNode.Tool

inductive ProgramFormat
  | bin
  | hex
  | json
deriving DecidableEq, Repr

inductive ListingFormat
  | text
  | json
deriving DecidableEq, Repr

structure AssembleOptions where
  input : Text
  output : Text
  format : ProgramFormat := .bin
  config : Assembly.Config := {}
deriving DecidableEq, Repr

structure ListingOptions where
  input : Text
  window : Window := {}
  /-- Whether the bytes are shown in a text. -/
  showBytes : Bool := false
  format : ListingFormat := .text
  /-- The file for the listing, in place of the output stream. -/
  output : Option Text := none
deriving DecidableEq, Repr

inductive Invocation
  | assemble (options : AssembleOptions)
  | words (literals : List Text)
  | listing (options : ListingOptions)
deriving DecidableEq, Repr

namespace Invocation

def input? : Invocation → Option Text
  | assemble o => some o.input
  | words _ => none
  | listing o => some o.input

def output? : Invocation → Option Text
  | assemble o => some o.output
  | words _ => none
  | listing o => o.output

/-- A number of bytes or characters, within 64 bits. -/
def readSize? (t : Text) : Option Nat :=
  (Numeral.readUnsigned 10 0xFFFFFFFFFFFFFFFF t).toOption

def readProgramFormat? (t : Text) : Option ProgramFormat :=
  [("bin".toList, .bin), ("hex".toList, .hex), ("json".toList, .json)].lookup t

def readListingFormat? (t : Text) : Option ListingFormat :=
  [("text".toList, .text), ("json".toList, .json)].lookup t

def ofAssembleArguments? (ts : List Text) : Option Invocation := do
  let a ← Arguments.read? [⟨"input".toList, some 'i', true⟩, ⟨"output".toList, some 'o', true⟩,
    ⟨"format".toList, none, true⟩, ⟨"max-line-len".toList, none, true⟩] ts
  let input ← a.get? "input".toList
  let output ← a.get? "output".toList
  let format ← a.meaning? "format".toList .bin readProgramFormat?
  let maxLineLength ←
    a.meaning? "max-line-len".toList ({} : Assembly.Config).maxLineLength readSize?
  if a.operands.isEmpty then
    some (.assemble { input, output, format, config := { maxLineLength } })
  else none

def ofWordsArguments? (ts : List Text) : Option Invocation := do
  let a ← Arguments.read? [] ts
  if a.operands.isEmpty then none else some (.words a.operands)

def ofListingArguments? (ts : List Text) : Option Invocation := do
  let a ← Arguments.read? [⟨"skip".toList, none, true⟩, ⟨"len".toList, none, true⟩,
    ⟨"show-bytes".toList, none, false⟩, ⟨"format".toList, none, true⟩,
    ⟨"out".toList, none, true⟩] ts
  let skip ← a.meaning? "skip".toList 0 readSize?
  let length ← a.meaning? "len".toList none fun t => (readSize? t).map some
  let format ← a.meaning? "format".toList .text readListingFormat?
  match a.operands with
  | [input] =>
    let output := a.get? "out".toList
    let showBytes := a.has "show-bytes".toList
    some (.listing { input, window := { skip, length }, showBytes, format, output })
  | _ => none

/-- The first argument is the command. -/
def ofArguments? : List Text → Option Invocation
  | [] => none
  | command :: ts =>
    if command = "asm".toList then ofAssembleArguments? ts
    else if command = "words".toList then ofWordsArguments? ts
    else if command = "listing".toList then ofListingArguments? ts
    else none

end Invocation

end ExecutionNode.Tool
