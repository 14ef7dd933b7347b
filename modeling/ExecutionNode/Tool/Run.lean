import ExecutionNode.Listing
import ExecutionNode.Text.Utf8
import ExecutionNode.Tool.Invocation
import ExecutionNode.Tool.Outcome
import ExecutionNode.Word.Literal

/-!
# Running the tool

The outcome of an invocation, given the content of its input file.
-/

namespace ExecutionNode.Tool

/-- The line for one word. A word that is no instruction is reported in its place. -/
def wordLine (w : Word) : Text :=
  w.hex ++ ": ".toList ++
    (match w.disassemble with
    | .ok t => t
    | .error e => "<invalid> (".toList ++ e.message ++ ")".toList) ++ ['\n']

/-- The lines of the words before the first literal that cannot be read, and its failure. -/
def wordLines : List Text → Text × Option Failure
  | [] => ([], none)
  | literal :: rest =>
    match Word.ofLiteral literal with
    | .error e => ([], some e.failure)
    | .ok w =>
      let (lines, failure) := wordLines rest
      (wordLine w ++ lines, failure)

def runWords (literals : List Text) : Outcome :=
  match wordLines literals with
  | (lines, none) => { exitCode := 0, stdout := lines }
  | (lines, some f) => .failed f lines

def renderListing (o : ListingOptions) (l : Listing) : Text :=
  match o.format with
  | .text => l.render o.showBytes
  | .json => l.json.indented 0 ++ ['\n']

def runListing (o : ListingOptions) (file : Option (List UInt8)) : Outcome :=
  match o.window.loadFile o.input file with
  | .error e => .failed e.failure []
  | .ok image =>
    let text := renderListing o (.ofImage image)
    if o.output.isSome then { exitCode := 0, file := some (Text.toUtf8 text) }
    else { exitCode := 0, stdout := text }

/-- The bytes of a program in a format. Only an image has to have an instruction. -/
def renderProgram (p : Assembly.Program) : ProgramFormat → Except ImageError (List UInt8)
  | .bin => (Image.ofWords p.words).map Image.bytes
  | .hex => .ok (Text.toUtf8 (p.words.flatMap fun w => w.hex ++ ['\n']))
  | .json => .ok (Text.toUtf8 (p.json.indented 0 ++ ['\n']))

def readSource (path : Text) : Option (List UInt8) → Except Failure Text
  | none => .error (.missingFile path)
  | some bytes =>
    match Text.ofUtf8? bytes with
    | some source => .ok source
    | none => .error (.invalidText path)

def assembleFile (o : AssembleOptions) (file : Option (List UInt8)) :
    Except Failure (List UInt8) := do
  let source ← readSource o.input file
  let program ← (Assembly.assemble o.config source).mapError fun fault =>
    { message := "assembling ".toList ++ o.input, cause := some fault.message }
  (renderProgram program o.format).mapError fun e => { message := e.message }

def runAssemble (o : AssembleOptions) (file : Option (List UInt8)) : Outcome :=
  match assembleFile o file with
  | .ok bytes => { exitCode := 0, file := some bytes }
  | .error f => .failed f []

def Invocation.run (file : Option (List UInt8)) : Invocation → Outcome
  | assemble o => runAssemble o file
  | words literals => runWords literals
  | listing o => runListing o file

end ExecutionNode.Tool
