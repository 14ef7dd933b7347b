import ExecutionNode.Tool.Run

/-!
# The command line tool

Reads the input file, runs the invocation, and writes what it leaves behind.
-/

namespace ExecutionNode.Tool

/-- The content of a file, or nothing if it cannot be read. -/
def readFile? (path : Text) : IO (Option (List UInt8)) := do
  try
    let bytes ← IO.FS.readBinFile (String.ofList path)
    return some bytes.data.toList
  catch _ => return none

def usage : Text :=
  "usage: asm --input=FILE --output=FILE [--format=bin|hex|json] [--max-line-len=N]\n".toList ++
    "       words WORD...\n".toList ++
    "       listing FILE [--skip=N] [--len=N] [--show-bytes] [--format=text|json]\n".toList ++
    "         [--out=FILE]\n".toList

/-- Runs an invocation and writes its outcome. -/
def perform (invocation : Invocation) : IO UInt32 := do
  let file ← match invocation.input? with
    | none => pure none
    | some path => readFile? path
  let outcome := invocation.run file
  if let (some path, some bytes) := (invocation.output?, outcome.file) then
    IO.FS.writeBinFile (String.ofList path) ⟨bytes.toArray⟩
  IO.print (String.ofList outcome.stdout)
  IO.eprint (String.ofList outcome.stderr)
  return outcome.exitCode.toUInt32

end ExecutionNode.Tool

open ExecutionNode.Tool

def main (args : List String) : IO UInt32 := do
  match Invocation.ofArguments? (args.map String.toList) with
  | some invocation => perform invocation
  | none =>
    IO.eprint (String.ofList usage)
    return 2
