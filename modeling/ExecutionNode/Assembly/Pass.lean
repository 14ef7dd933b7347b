import ExecutionNode.Assembly.Command
import ExecutionNode.Assembly.Event
import ExecutionNode.Assembly.Statement

/-!
# The pass over the lines

The lines are taken one after the other. Each adds at most one label and one word; a jump leaves
a reference, because its label may be defined further down.
-/

namespace ExecutionNode.Assembly

/-- Labels with their slots, in the order of their definitions. -/
abbrev LabelTable := List (Text × Nat)

/-- A jump that waits for the slot of its label. -/
structure Reference where
  slot : Nat
  label : Text
  line : Nat
deriving DecidableEq, Repr

structure Pass where
  words : List Word := []
  labels : LabelTable := []
  /-- The slot of the newest label. Slots only grow, so no older one can be labelled again. -/
  lastLabelled : Option Nat := none
  references : List Reference := []
deriving DecidableEq, Repr

namespace Pass

def next (p : Pass) : Nat := p.words.length

def isFull (p : Pass) : Bool := slotCount ≤ p.next

def bindLabel (p : Pass) (label : Text) : Logged Cause Pass :=
  if p.isFull then .fail (.tooManyInstructions slotCount)
  else if p.lastLabelled = some p.next ∨ (p.labels.lookup label).isSome then
    .fail (.duplicateLabel label)
  else
    .log (.labelBound label p.next)
      { p with labels := p.labels ++ [(label, p.next)], lastLabelled := some p.next }

def place (p : Pass) (line : Nat) (c : Command) : Logged Cause Pass :=
  .log (.encoded line p.next c.word)
    { p with
      words := p.words ++ [c.word]
      references := p.references ++ (c.label?.map fun label => ⟨p.next, label, line⟩).toList }

/-- The opcode is looked up first, then room is needed for it, and then its operands count. -/
def takeBody (p : Pass) (line : Nat) : List Text → Logged Cause Pass
  | [] => pure p
  | mnemonic :: operands =>
    match Opcode.ofMnemonic? mnemonic with
    | none => .fail (.unknownOpcode mnemonic)
    | some op =>
      if p.isFull then .fail (.tooManyInstructions slotCount)
      else do
        let command ← .ofExcept (Command.read op operands)
        p.place line command

def takeLabel (p : Pass) : Option Text → Logged Cause Pass
  | none => pure p
  | some label => p.bindLabel label

/-- A line's label is bound before the rest of the line is read. -/
def takeStatement (p : Pass) (line : Nat) (s : Statement) : Logged Cause Pass := do
  let p ← p.takeLabel s.label
  p.takeBody line s.body

def takeLine (limit : Nat) (p : Pass) (line : Nat) (raw : Text) : Logged Fault Pass :=
  .atLine line do
    let s ← .ofExcept (Statement.read limit raw)
    p.takeStatement line s

/-- Takes lines of which the first has the number `line`. -/
def takeLines (limit : Nat) (p : Pass) (line : Nat) : List Text → Logged Fault Pass
  | [] => pure p
  | raw :: rest => do
    let p ← p.takeLine limit line raw
    p.takeLines limit (line + 1) rest

end Pass

end ExecutionNode.Assembly
