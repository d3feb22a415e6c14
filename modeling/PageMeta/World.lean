import PageMeta.Heap.Basic

/-!
# The world

What operations act on: the heap, the settings store that is current, the log, and the state of
the client whose routines are called back.

`Action` is a computation in the world that can fail; a failure keeps the world it left behind.
-/

namespace PageMeta

/-- How important a log record is. -/
inductive LogLevel where
  | debug
  | warning
deriving DecidableEq, Repr

/-- The name of a level. -/
def LogLevel.name : LogLevel → String
  | .debug => "DEBUG"
  | .warning => "WARNING"

/-- A log record. -/
structure LogRecord where
  level : LogLevel
  logger : String
  message : String
deriving DecidableEq, Repr

/-- The state that operations act on; `κ` is the type of the client's own state. -/
structure World (κ : Type) where
  heap : Heap
  /-- The current settings store, once there is one. -/
  current : Option Ref
  /-- Records in the order in which they were written. -/
  log : List LogRecord
  /-- The constants of the library that were asked for so far. -/
  constants : Entries String Value
  client : κ

/-- A computation in the world that can fail. -/
abbrev Action (κ : Type) := EStateM Error (World κ)

namespace Action

variable {κ α : Type}

/-- Runs a computation on the heap. -/
def onHeap (act : Heap.Action α) : Action κ α := fun w =>
  match act w.heap with
  | .ok a h => .ok a { w with heap := h }
  | .error e h => .error e { w with heap := h }

/-- Asks the heap a question. -/
def look (question : Heap → α) : Action κ α := fun w => .ok (question w.heap) w

/-- Asks the heap a question that can go wrong. -/
def ask (question : Heap → Except Error α) : Action κ α := onHeap (Heap.ask question)

/-- Writes a log record. -/
def record (level : LogLevel) (logger message : String) : Action κ Unit := fun w =>
  .ok () { w with log := w.log ++ [⟨level, logger, message⟩] }

end Action

/-- How values are called: the callee, then its arguments. -/
abbrev Caller (κ : Type) := Value → Arguments → Action κ Value

end PageMeta
