import ExecutionNode.Assembly.Pass
import ExecutionNode.Json

/-!
# Programs

After the pass every label is known, and the references are linked in the order of their slots.
-/

namespace ExecutionNode.Assembly

structure Program where
  words : List Word
  labels : LabelTable
deriving DecidableEq, Repr

namespace Program

/-- The labels in the order of their names. -/
def sortedLabels (p : Program) : LabelTable := p.labels.mergeSort fun a b => !b.1.lex a.1

def json (p : Program) : Json :=
  .object [("words".toList, .array (p.words.map fun w => .number w.toNat)),
    ("labels".toList, .object (p.sortedLabels.map fun (label, slot) => (label, .number slot)))]

end Program

/-- Puts a slot into the slot field of a jump. -/
def withSlot (slot : Nat) (w : Word) : Word := w ||| (BitVec.ofNat 16 slot &&& Word.slotMask)

def link (labels : LabelTable) (words : List Word) : List Reference → Logged Fault (List Word)
  | [] => pure words
  | r :: rest =>
    match labels.lookup r.label with
    | none => .fail ⟨r.line, .undefinedLabel r.label⟩
    | some slot => do
      let words ← .log (.linked r.label r.slot slot) (words.modify r.slot (withSlot slot))
      link labels words rest

structure Config where
  /-- The number of characters that a line may have, its comment included. -/
  maxLineLength : Nat := 18
deriving DecidableEq, Repr

/-- Assembles a source and keeps the log. -/
def assembleLogged (config : Config) (source : Text) : Logged Fault Program := do
  let pass ← Pass.takeLines config.maxLineLength {} 1 (Text.lines source)
  let words ← link pass.labels pass.words pass.references
  .log (.assembled words.length pass.labels.length) { words := words, labels := pass.labels }

def assemble (config : Config) (source : Text) : Except Fault Program :=
  (assembleLogged config source).result

end ExecutionNode.Assembly
