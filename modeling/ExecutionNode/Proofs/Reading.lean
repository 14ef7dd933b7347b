import ExecutionNode.Assembly.Program
import ExecutionNode.Proofs.Grammar
import Mathlib.Data.List.Induction

/-!
# The direct reading of a source

What a source says when it is looked at as a whole, without a state that is carried from line to
line: its instructions in line order, its label definitions with their slots, and its jumps.
-/

namespace ExecutionNode.Assembly

/-- What a line of a source says, whatever its length. -/
def Statement.ofSourceLine (raw : Text) : Statement := .ofLine (Text.dropReturn raw)

def statements (source : Text) : List Statement :=
  (Text.lines source).map Statement.ofSourceLine

/-- The instructions as they are written, in line order. -/
def instructions (ss : List Statement) : List (List Text) :=
  (ss.map Statement.body).filter fun body => !body.isEmpty

/-- A statement with its line and its slot, the number of instructions on earlier lines. -/
structure Located where
  statement : Statement
  line : Nat
  slot : Nat

def located (ss : List Statement) : List Located :=
  ss.zipIdx.map fun (s, i) => ⟨s, i + 1, (instructions (ss.take i)).length⟩

def Located.definition? (l : Located) : Option (Text × Nat) :=
  l.statement.label.map fun name => (name, l.slot)

def definitions (ss : List Statement) : LabelTable := (located ss).filterMap Located.definition?

theorem instructions_append (ss ts : List Statement) :
    instructions (ss ++ ts) = instructions ss ++ instructions ts := by
  simp [instructions]

theorem instructions_nil_body (label : Option Text) : instructions [⟨label, []⟩] = [] := rfl

theorem instructions_cons_body (label : Option Text) (mnemonic : Text) (operands : List Text) :
    instructions [⟨label, mnemonic :: operands⟩] = [mnemonic :: operands] := rfl

theorem located_concat (ss : List Statement) (s : Statement) :
    located (ss ++ [s]) = located ss ++ [⟨s, ss.length + 1, (instructions ss).length⟩] := by
  unfold located
  rw [List.zipIdx_append, List.map_append]
  congr 1
  · apply List.map_congr_left
    rintro ⟨t, i⟩ hmem
    have hi : i < ss.length := by simpa using List.snd_lt_add_of_mem_zipIdx hmem
    simp only [List.take_append_of_le_length (Nat.le_of_lt hi)]
  · simp

theorem definitions_concat (ss : List Statement) (s : Statement) :
    definitions (ss ++ [s]) =
      definitions ss ++ (s.label.map fun name => (name, (instructions ss).length)).toList := by
  unfold definitions
  rw [located_concat, List.filterMap_append]
  cases h : s.label <;> simp [Located.definition?, h]

/-- The word of an instruction, `word` being the words of commands. -/
def wordOf (word : Command → Word) (body : List Text) : Word :=
  ((Command.ofTokens? body).map word).getD 0#16

def Located.reference? (l : Located) : Option Reference :=
  (Command.ofTokens? l.statement.body).bind fun c =>
    c.label?.map fun label => ⟨l.slot, label, l.line⟩

def references (ss : List Statement) : List Reference := (located ss).filterMap Located.reference?

theorem references_concat (ss : List Statement) (s : Statement) :
    references (ss ++ [s]) = references ss ++
      (Located.reference? ⟨s, ss.length + 1, (instructions ss).length⟩).toList := by
  unfold references
  rw [located_concat, List.filterMap_append]
  cases h : Located.reference? ⟨s, ss.length + 1, (instructions ss).length⟩ <;> simp [h]

theorem references_append (ss ts : List Statement) :
    ∃ tail, references (ss ++ ts) = references ss ++ tail := by
  induction ts using List.reverseRecOn with
  | nil => exact ⟨[], by simp⟩
  | append_singleton ts s ih =>
    obtain ⟨tail, htail⟩ := ih
    rw [← List.append_assoc, references_concat, htail, List.append_assoc]
    exact ⟨_, rfl⟩

def slotOf (labels : LabelTable) (label : Text) : Nat := (labels.lookup label).getD 0

/-- The word of a command whose label is known. -/
def Command.linked (labels : LabelTable) (c : Command) : Word :=
  match c.label? with
  | none => c.word
  | some label => c.word ||| BitVec.ofNat 16 (slotOf labels label)

/-- The program that a source says: one word for each instruction. -/
def program (ss : List Statement) : Program :=
  { words := (instructions ss).map (wordOf (Command.linked (definitions ss)))
    labels := definitions ss }

end ExecutionNode.Assembly
