import ExecutionNode.Assembly.Fault

/-!
# The log of an assembly

An assembly writes down what it does. The log stands beside the result and is kept when the
result is a fault, up to the step that failed.
-/

namespace ExecutionNode.Assembly

inductive Event
  | labelBound (label : Text) (slot : Nat)
  /-- A word as it is before its label is known. -/
  | encoded (line slot : Nat) (word : Word)
  | linked (label : Text) (source target : Nat)
  | assembled (words labels : Nat)
deriving DecidableEq, Repr

/-- Traces are the finer of the two. -/
inductive Level
  | debug
  | trace
deriving DecidableEq, Repr

def Event.level : Event → Level
  | encoded .. => .trace
  | _ => .debug

def Event.title : Event → Text
  | labelBound .. => "label bound".toList
  | encoded .. => "encoded".toList
  | linked .. => "linked jump".toList
  | assembled .. => "assembled program".toList

/-! ## Steps with a log -/

/-- A result and what was logged on the way to it. -/
structure Logged (ε α : Type) where
  events : List Event
  result : Except ε α

namespace Logged

variable {ε α β : Type}

def fail (e : ε) : Logged ε α := ⟨[], .error e⟩

def log (event : Event) (a : α) : Logged ε α := ⟨[event], .ok a⟩

def ofExcept (r : Except ε α) : Logged ε α := ⟨[], r⟩

/-- Goes on with a value. After a failure nothing more is done or logged. -/
def andThen (x : Logged ε α) (f : α → Logged ε β) : Logged ε β :=
  match x.result with
  | .ok a => ⟨x.events ++ (f a).events, (f a).result⟩
  | .error e => ⟨x.events, .error e⟩

instance : Monad (Logged ε) where
  pure a := ofExcept (.ok a)
  bind := andThen

@[simp] theorem events_pure (a : α) : (pure a : Logged ε α).events = [] := rfl

@[simp] theorem result_pure (a : α) : (pure a : Logged ε α).result = .ok a := rfl

@[simp] theorem result_bind (x : Logged ε α) (f : α → Logged ε β) :
    (x >>= f).result = x.result >>= fun a => (f a).result := by
  simp only [bind, andThen]
  cases x.result <;> rfl

theorem events_bind (x : Logged ε α) (f : α → Logged ε β) :
    (x >>= f).events = x.events ++ match x.result with
      | .ok a => (f a).events
      | .error _ => [] := by
  simp only [bind, andThen]
  cases x.result <;> simp

theorem events_bind_of_ok {x : Logged ε α} {a : α} (h : x.result = .ok a) (f : α → Logged ε β) :
    (x >>= f).events = x.events ++ (f a).events := by
  rw [events_bind, h]

theorem events_bind_of_error {x : Logged ε α} {e : ε} (h : x.result = .error e)
    (f : α → Logged ε β) : (x >>= f).events = x.events := by
  rw [events_bind, h, List.append_nil]

/-- The step of one line, its cause becoming a fault of that line. -/
def atLine (line : Nat) (x : Logged Cause α) : Logged Fault α :=
  ⟨x.events, x.result.mapError (Fault.mk line)⟩

end Logged

end ExecutionNode.Assembly
