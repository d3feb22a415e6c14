import PageMeta.Library
import PageMeta.Script.Basic
import PageMeta.Script.Snapshot

/-!
# Running scripts

`run` runs a script from the empty world and gives one answer per step.  An answer has the outcome
of the step, what the object it was about looks like afterwards, the answers of the steps that
routines ran on its behalf, and the log records written since the answer before.

A step that fails does not end a script, but it ends a routine, and its error goes on to whatever
called the routine.
-/

namespace PageMeta.Script

/-- How a step ended. -/
inductive Outcome where
  | value (result : Snapshot)
  /-- A call handed the very object back that it was made on. -/
  | itself
  | failed (error : Error)

/-- The answer of a step. -/
inductive Answer where
  | mk (outcome : Outcome) (state : Option Snapshot) (trace : List Answer) (log : List LogRecord)

instance : Inhabited Answer := ⟨.mk .itself none [] []⟩

/-- A routine: the register that its argument goes into, and its steps. -/
structure Routine where
  param : String
  steps : List Step

/-- The state of a running script. -/
structure Client where
  registers : Entries String Value
  /-- The routines evaluated so far; a routine's number is its place. -/
  routines : Array Routine
  /-- Answers of the steps that routines ran for the step at hand, latest first. -/
  trace : List Answer
  /-- Whether answers show log records of every level. -/
  verbose : Bool

namespace Client

/-- The state at the start of a script. -/
def start (verbose : Bool) : Client :=
  { registers := [], routines := #[], trace := [], verbose }

/-- Changes the state of the script. -/
def update (f : Client → Client) : Action Client Unit :=
  modify fun w => { w with client := f w.client }

/-- The value in a register, if it has one. -/
def value? (c : Client) (name : String) : Option Value := c.registers.get? name

/-- The object in a register. -/
def object (name : String) : Action Client Value := do
  match (← get).client.value? name with
  | some v => return v
  | none => throw (.keyAbsent (Text.quote name))

/-- Keeps a value in a register. -/
def keep (name : String) (v : Value) : Action Client Unit :=
  update fun c => { c with registers := c.registers.put name v }

/-- Makes a routine callable. -/
def newRoutine (routine : Routine) : Action Client Value := do
  let id := (← get).client.routines.size
  update fun c => { c with routines := c.routines.push routine }
  return .routine id

end Client

/-! ## Operands -/

/-- The entries of a dictionary with pairs written one after the other. -/
def dictOf : Entries Key Value → List (Value × Value) → Heap.Action (Entries Key Value)
  | entries, [] => pure entries
  | entries, (k, v) :: rest => do
    let key ← Heap.ask fun h => h.toKey k
    dictOf (entries.put key v) rest

mutual

/-- Evaluates an operand. -/
def evaluate : Operand → Action Client Value
  | .scalar v => pure v
  | .fresh v => Action.onHeap (Heap.settle v)
  | .list items => do
    let values ← evaluateList items
    Action.onHeap (Heap.newList values)
  | .tuple items => do
    let values ← evaluateList items
    Action.onHeap (Heap.newTuple values)
  | .dict pairs => do
    let values ← evaluatePairs pairs
    Action.onHeap do Heap.newDict (← dictOf [] values)
  | .map pairs => do
    let values ← evaluatePairs pairs
    Action.onHeap do AttributeMap.create (← Heap.newDict (← dictOf [] values))
  | .register name => Client.object name
  | .routine param steps => Client.newRoutine ⟨param, steps⟩

/-- Evaluates operands in order. -/
def evaluateList : List Operand → Action Client (List Value)
  | [] => pure []
  | o :: rest => do
    let v ← evaluate o
    let vs ← evaluateList rest
    return v :: vs

/-- Evaluates pairs of operands in order. -/
def evaluatePairs : List (Operand × Operand) → Action Client (List (Value × Value))
  | [] => pure []
  | (k, o) :: rest => do
    let key ← evaluate k
    let v ← evaluate o
    let others ← evaluatePairs rest
    return (key, v) :: others

end

/-- Evaluates the arguments of a call. -/
def evaluateArguments (args : List Operand) (named : List (Name × Operand)) :
    Action Client Arguments := do
  let positional ← evaluateList args
  let values ← evaluateList (named.map (·.2))
  return { positional, named := Entries.ofList ((named.map (·.1)).zip values) }

/-! ## Steps -/

/-- The class of a name as a value. -/
def classNamed (name : String) : Action Client ClassName :=
  match Library.className? name with
  | some cls => pure cls
  | none => throw (.keyAbsent (Text.quote name))

/-- Adds to a list, or calls whatever else goes by the name `append`. -/
def append (invoke : Caller Client) (v item : Value) : Action Client Unit := do
  match v, (← get).heap.cell? v with
  | .ref r, some (.list items) => Action.onHeap (Heap.put r (.list (items ++ [item])))
  | _, _ => discard (Object.send invoke v "append" (.of [item]))

/-- Whether a value has an attribute: only a missing attribute counts as none. -/
def hasAttribute (h : Heap) (v : Value) (name : String) : Except Error Bool :=
  match Object.lookup h v name with
  | .ok _ => .ok true
  | .error e => if e.isMissingAttribute then .ok false else .error e

/-- Whether a value is the empty tuple, of which there is one only. -/
def isEmptyTuple (h : Heap) (v : Value) : Bool :=
  match h.cell? v with
  | some (.tuple []) => true
  | _ => false

/-- Whether two values are one object. -/
def isIdentical (h : Heap) (v w : Value) : Bool := v = w || (isEmptyTuple h v && isEmptyTuple h w)

/-- Does what a step says, and gives the result. -/
def perform (invoke : Caller Client) : Operation → Action Client Value
  | .keep value => evaluate value
  | .make cls args named => do
    let cls ← classNamed cls
    invoke (.classOf cls) (← evaluateArguments args named)
  | .callMethod on name args named => do
    let v ← Client.object on
    let args ← evaluateArguments args named
    Object.send invoke v name args
  | .invoke on args named => do
    let v ← Client.object on
    invoke v (← evaluateArguments args named)
  | .callFunction name args named => do
    let args ← evaluateArguments args named
    Library.callFunction invoke name args
  | .constant name => Library.constant name
  | .readRecord schema value => do
    let v ← evaluate value
    match Schema.named? schema with
    | some schema => Action.onHeap (Schema.read .usual schema v)
    | none => throw (.keyAbsent (Text.quote schema))
  | .nameClass cls => .classOf <$> classNamed cls
  | .ancestors on => do
    match ← Client.object on with
    | .classOf cls =>
      Action.onHeap (Heap.newList (cls.ancestors.map fun c => .ofText c.name))
    | v => do
      let h := (← get).heap
      throw (Object.lack h v "__mro__")
  | .getAttribute on name => do
    let v ← Client.object on
    Action.onHeap (Object.getAttribute v name)
  | .hasAttribute on name => do
    let v ← Client.object on
    .bool <$> Action.ask fun h => hasAttribute h v name
  | .setAttribute on name value => do
    let v ← Client.object on
    let w ← evaluate value
    Object.assign invoke v name w
    return .none
  | .getItem on key => do
    let v ← Client.object on
    let k ← evaluate key
    Action.onHeap do Heap.settle (← Heap.ask fun h => Object.getItem h v k)
  | .setItem on key value => do
    let v ← Client.object on
    let k ← evaluate key
    let w ← evaluate value
    Action.onHeap (Object.setItem v k w)
    return .none
  | .append on value => do
    let v ← Client.object on
    append invoke v (← evaluate value)
    return .none
  | .contains on key => do
    let v ← Client.object on
    let k ← evaluate key
    .bool <$> Action.onHeap (Object.contains v k)
  | .length on => do
    let v ← Client.object on
    Action.onHeap do Heap.settle (.newInt (← Heap.ask fun h => h.length v))
  | .truth on => do
    let v ← Client.object on
    .bool <$> Action.look fun h => h.truth v
  | .elements on => do
    let v ← Client.object on
    Action.onHeap do Heap.newList (← Heap.elements v)
  | .written on => do
    let v ← Client.object on
    Action.onHeap do Heap.settle (.newText ((← get).written v))
  | .hash on => do
    let v ← Client.object on
    discard (Action.ask fun h => h.toKey v)
    return .none
  | .equal on value => do
    let v ← Client.object on
    let w ← evaluate value
    .bool <$> Action.look fun h => h.same v w
  | .identical on value => do
    let v ← Client.object on
    let w ← evaluate value
    .bool <$> Action.look fun h => isIdentical h v w
  | .look on => Client.object on
  | .raise cls message => throw (.raised cls message)

/-- Runs an action and gives its error as a result. -/
def attempt {α : Type} (act : Action Client α) : Action Client (Except Error α) := fun w =>
  match act w with
  | .ok a w => .ok (.ok a) w
  | .error e w => .ok (.error e) w

/-- Does what a step says, and keeps the result in the step's register.  The answer tells the
object that the step was made on, as the register has it afterwards, from any other result. -/
def carryOut (invoke : Caller Client) (register? : Option String) (operation : Operation) :
    Action Client Outcome := do
  let v ← perform invoke operation
  let on := operation.called?.bind (← get).client.value?
  let outcome ← Action.look fun h =>
    if on = some v then Outcome.itself else .value (snapshot h v)
  match register? with
  | some name => Client.keep name v
  | none => pure ()
  return outcome

/-- What the object that a step can change looks like. -/
def stateOf (w : World Client) (operation : Operation) : Option Snapshot :=
  match operation.changed?.bind w.client.value? with
  | some v => if isChangeable w.heap v then some (snapshot w.heap v) else none
  | none => none

/-- The log records that an answer shows. -/
def shownLog (w : World Client) : List LogRecord :=
  w.log.filter fun record => w.client.verbose || record.level == .warning

/-- Runs a step.  Gives its answer, and its error if it failed. -/
def runStep (invoke : Caller Client) : Step → Action Client (Answer × Option Error)
  | .mk register? operation => do
    let outer := (← get).client.trace
    Client.update fun c => { c with trace := [] }
    let (outcome, error?) ← match ← attempt (carryOut invoke register? operation) with
      | .ok outcome => pure (outcome, none)
      | .error e => pure (.failed e, some e)
    let w ← get
    let answer := .mk outcome (stateOf w operation) w.client.trace.reverse (shownLog w)
    set { w with log := [], client := { w.client with trace := outer } }
    return (answer, error?)

/-- Runs the steps of a routine up to the first that fails, whose error goes on to the caller. -/
def runRoutine (invoke : Caller Client) : List Step → Action Client Unit
  | [] => pure ()
  | step :: rest => do
    let (answer, error?) ← runStep invoke step
    Client.update fun c => { c with trace := answer :: c.trace }
    match error? with
    | some e => throw e
    | none => runRoutine invoke rest

/-- Calls a routine with an argument. -/
def callRoutine (invoke : Caller Client) (id : Nat) (argument : Value) : Action Client Unit := do
  match (← get).client.routines[id]? with
  | some routine => do
    Client.keep routine.param argument
    runRoutine invoke routine.steps
  | none => throw (.notCallable "function")

/-- Calls a value, when calls can be nested at most `depth` deep. -/
def invokeTo : Nat → Caller Client
  | 0 => fun _ _ => throw .tooDeep
  | depth + 1 =>
    Object.invoke (invokeTo depth) (callRoutine (invokeTo depth))

/-- How deep calls can be nested. -/
def maxNesting : Nat := 1000

/-- Calls a value. -/
def invoke : Caller Client := invokeTo maxNesting

/-- Runs the steps of a script, whether they fail or not. -/
def runSteps : List Step → Action Client (List Answer)
  | [] => pure []
  | step :: rest => do
    let (answer, _) ← runStep invoke step
    let answers ← runSteps rest
    return answer :: answers

/-- The world before anything happened. -/
def emptyWorld (verbose : Bool) : World Client :=
  { heap := .empty, current := none, log := [], constants := [], client := .start verbose }

/-- The answers to the steps of a script. -/
def run (verbose : Bool) (steps : List Step) : List Answer :=
  match runSteps steps (emptyWorld verbose) with
  | .ok answers _ => answers
  | .error _ _ => []

end PageMeta.Script
