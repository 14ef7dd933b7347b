import ExecutionNode.Text.Basic

/-!
# Command line arguments

Arguments are options and operands in any order. An option is named after two dashes, or has a
letter after one dash; its value follows in the same argument or is the next one. After a lone
`--` all arguments are operands. No option may be given twice.
-/

namespace ExecutionNode.Tool

structure KnownOption where
  name : Text
  letter : Option Char := none
  takesValue : Bool := true
deriving DecidableEq, Repr

structure Arguments where
  /-- The names of the options that are given, each with its value. -/
  options : List (Text × Text) := []
  operands : List Text := []
deriving DecidableEq, Repr

inductive Argument
  | separator
  | operand (t : Text)
  | option (name value : Text)
  /-- An option whose value is the next argument. -/
  | awaiting (name : Text)
deriving DecidableEq, Repr

namespace Argument

/-- An option by its name, with an equals sign and a value or without. -/
def ofLong? (known : List KnownOption) (t : Text) : Option Argument := do
  let option ← known.find? fun o => o.name == t.takeWhile (· != '=')
  match option.takesValue, t.dropWhile (· != '=') with
  | true, _ :: value => some (.option option.name value)
  | true, [] => some (.awaiting option.name)
  | false, [] => some (.option option.name [])
  | false, _ :: _ => none

/-- An option by its letter; an equals sign before the value is left out. -/
def ofShort? (known : List KnownOption) (letter : Char) (t : Text) : Option Argument := do
  let option ← known.find? fun o => o.letter == some letter
  match option.takesValue, t with
  | true, '=' :: value => some (.option option.name value)
  | true, [] => some (.awaiting option.name)
  | true, value => some (.option option.name value)
  | false, [] => some (.option option.name [])
  | false, _ :: _ => none

def ofText? (known : List KnownOption) : Text → Option Argument
  | ['-', '-'] => some .separator
  | '-' :: '-' :: t => ofLong? known t
  | '-' :: letter :: t => ofShort? known letter t
  | t => some (.operand t)

end Argument

/-- Whether an argument can be the value of the option before it: a dash may stand alone only. -/
def isValue : Text → Bool
  | '-' :: _ :: _ => false
  | _ => true

namespace Arguments

def addOption? (a : Arguments) (name value : Text) : Option Arguments :=
  if (a.options.lookup name).isSome then none
  else some { a with options := a.options ++ [(name, value)] }

def addOperands (a : Arguments) (ts : List Text) : Arguments :=
  { a with operands := a.operands ++ ts }

/-- Goes on with more arguments. -/
def readMore? (known : List KnownOption) (a : Arguments) : List Text → Option Arguments
  | [] => some a
  | t :: rest =>
    match Argument.ofText? known t with
    | none => none
    | some .separator => some (a.addOperands rest)
    | some (.operand t) => (a.addOperands [t]).readMore? known rest
    | some (.option name value) => (a.addOption? name value).bind (readMore? known · rest)
    | some (.awaiting name) =>
      match rest with
      | [] => none
      | value :: rest =>
        if isValue value then (a.addOption? name value).bind (readMore? known · rest) else none

/-- The arguments of a tool that knows some options, or nothing if they are refused. -/
def read? (known : List KnownOption) (ts : List Text) : Option Arguments :=
  ({} : Arguments).readMore? known ts

def get? (a : Arguments) (name : Text) : Option Text := a.options.lookup name

def has (a : Arguments) (name : Text) : Bool := (a.get? name).isSome

/-- The meaning of an option's value: what stands for its absence, or nothing for a value that
means nothing. -/
def meaning? {α : Type} (a : Arguments) (name : Text) (absent : α) (read : Text → Option α) :
    Option α :=
  match a.get? name with
  | none => some absent
  | some value => read value

end Arguments

end ExecutionNode.Tool
