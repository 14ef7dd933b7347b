import ExecutionNode.Failure
import ExecutionNode.Image.Basic

/-!
# Windows of a file

An image may be a part of a file: some bytes are skipped, and of the others a number may be given.
Both are checked against what is there before any byte is taken.
-/

namespace ExecutionNode

inductive LoadError
  | missingFile (path : Text)
  | skipTooLarge
  | lengthTooLarge
  | image (e : ImageError)
deriving DecidableEq, Repr

def LoadError.failure : LoadError → Failure
  | missingFile path => .missingFile path
  | skipTooLarge => { message := "--skip exceeds file size".toList }
  | lengthTooLarge => { message := "--len exceeds remaining file size after skip".toList }
  | image e => { message := e.message }

/-- The part of a file that an image is in. -/
structure Window where
  skip : Nat := 0
  /-- Up to the end of the file if it is absent. -/
  length : Option Nat := none
deriving DecidableEq, Repr

namespace Window

/-- The bytes in a window. -/
def take (window : Window) (file : List UInt8) : Except LoadError (List UInt8) :=
  if file.length < window.skip then .error .skipTooLarge
  else
    let rest := file.drop window.skip
    match window.length with
    | none => .ok rest
    | some n => if rest.length < n then .error .lengthTooLarge else .ok (rest.take n)

/-- The image in a window of a file. -/
def load (window : Window) (file : List UInt8) : Except LoadError Image :=
  match window.take file with
  | .ok bytes => (Image.ofBytes bytes).mapError .image
  | .error e => .error e

/-- The image in a window of a file that may not exist. -/
def loadFile (window : Window) (path : Text) : Option (List UInt8) → Except LoadError Image
  | none => .error (.missingFile path)
  | some file => window.load file

end Window

end ExecutionNode
