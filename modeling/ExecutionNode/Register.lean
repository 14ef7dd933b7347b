import ExecutionNode.Text.Basic

/-!
# Registers and ports

A node addresses its registers and ports alike, by a code of three bits.
-/

namespace ExecutionNode

inductive Register
  | nil
  | acc
  | up
  | down
  | left
  | right
  | any
  | last
deriving DecidableEq, Repr

namespace Register

/-- The registers in the order of their codes. -/
def all : List Register := [nil, acc, up, down, left, right, any, last]

def code : Register → BitVec 3
  | nil => 0#3
  | acc => 1#3
  | up => 2#3
  | down => 3#3
  | left => 4#3
  | right => 5#3
  | any => 6#3
  | last => 7#3

def ofCode (code : BitVec 3) : Register :=
  match code with
  | 0#3 => nil
  | 1#3 => acc
  | 2#3 => up
  | 3#3 => down
  | 4#3 => left
  | 5#3 => right
  | 6#3 => any
  | _ => last

@[simp] theorem ofCode_code (r : Register) : ofCode r.code = r := by cases r <;> rfl

def name : Register → Text
  | nil => "NIL".toList
  | acc => "ACC".toList
  | up => "UP".toList
  | down => "DOWN".toList
  | left => "LEFT".toList
  | right => "RIGHT".toList
  | any => "ANY".toList
  | last => "LAST".toList

/-- The register of exactly this name, in capitals. -/
def ofName? (t : Text) : Option Register := all.find? (·.name == t)

@[simp] theorem ofName?_name (r : Register) : ofName? r.name = some r := by cases r <;> rfl

theorem name_of_ofName? {t : Text} {r : Register} (h : ofName? t = some r) : r.name = t := by
  simpa using List.find?_some h

end Register

end ExecutionNode
