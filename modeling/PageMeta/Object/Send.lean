import PageMeta.Object.Lookup
import PageMeta.World

/-!
# Sending

Calling what a value has under a name.  The objects of the library use one another in this way
wherever a caller can put something of its own in the place of what is expected.
-/

namespace PageMeta.Object

variable {κ : Type}

/-- Calls what a name led to on a value. -/
def use (call : Caller κ) (v : Value) (name : Name) (found : Attribute) (args : Arguments) :
    Action κ Value := do
  match found with
  | .stored w => call w args
  | .method receiver owner name => call (.method receiver owner name .pending) args
  | .dynamic => do
    let field ← Action.onHeap (Heap.alloc (.field v name.value))
    call (.ref field) args
  | .made cell => do
    let object ← Action.onHeap (Heap.alloc cell)
    call (.ref object) args

/-- Calls what a value has under a name. -/
def send (call : Caller κ) (v : Value) (name : Name) (args : Arguments) : Action κ Value := do
  let found ← Action.ask fun h => lookup h v name.text
  use call v name found args

end PageMeta.Object
