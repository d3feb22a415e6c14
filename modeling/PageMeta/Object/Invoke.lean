import PageMeta.AttributeMap.Calls
import PageMeta.Builder.Calls
import PageMeta.Plain.Construct
import PageMeta.Schema.Calls
import PageMeta.Settings.Calls

/-!
# Calls

Calling functions of classes, methods, dynamic fields, classes and routines.  Every function of the
library has a signature; the arguments of a call are placed by it before anything happens.

A function of a class takes the object that it is about as its first argument, and that can be an
object of any class.

* `callFunction` calls a function of a class.
* `construct` makes an object of a class.
* `invoke` calls a value.
-/

namespace PageMeta.Object

variable {κ : Type}

/-- Calls a function of a class of the library. -/
def callOwnFunction (call : Caller κ) (owner : ClassName) (name : String) (args : Arguments) :
    Action κ Value := do
  let bound ← bindArguments (signature owner name) args
  let v := bound.values.headD .none
  let values := bound.values.tail
  match owner with
  | .attributeMap => AttributeMap.callFunction call v name values
  | .settingsStore => Settings.callFunction call v name values
  | .sectionHandle => Action.onHeap (Settings.callHandleFunction v name values)
  | .builder kind => Builder.callFunction call kind v name bound
  | .dynamicField => Builder.callFieldFunction call v name bound
  | .record | .schema _ => Schema.callFunction call name bound
  | _ => throw (unknownFunction owner name)

/-- Calls a function of a class. -/
def callFunction (call : Caller κ) (owner : ClassName) (name : String) (args : Arguments) :
    Action κ Value :=
  match owner with
  | .data type => Plain.callFunction call type name args
  | _ => callOwnFunction call owner name args

/-- The state of a feature that a value stands for. -/
def stateOf (v names : Value) : Heap.Action Value := do
  let h ← get
  match names, FeatureState.all.find? fun state => v.text? == some state.text with
  | .none, some state => return .feature state
  | .none, none => throw (.notState (h.written v))
  | _, _ => throw (.plain (.closedSet (h.written v)))

/-- Makes an object of a class of the library.  An error that is made but not raised is of no use and
is not kept. -/
def constructOwn (call : Caller κ) (cls : ClassName) (args : Arguments) : Action κ Value := do
  let bound ← bindArguments (classSignature cls) (args.after (.classOf cls))
  match cls, bound.values with
  | .attributeMap, [_, data] => Action.onHeap (AttributeMap.create data)
  | .settingsStore, _ => Action.onHeap Store.create
  | .builder kind, _ => Action.onHeap (Builder.create kind)
  | .dynamicField, [_, owner, name] => Action.onHeap do
    return .ref (← Heap.alloc (.field owner name))
  | .schema name, _ => Schema.construct name bound.options
  | .record, _ => throw (.misuse .bareRecord)
  | .featureState, _ :: v :: names :: _ => Action.onHeap (stateOf v names)
  | .error _, _ => return .none
  | _, _ => call .none {}

/-- Makes an object of a class. -/
def construct (call : Caller κ) (cls : ClassName) (args : Arguments) : Action κ Value :=
  match cls with
  | .data type => Plain.construct call type args
  | _ => constructOwn call cls args

/-- The signature of a client's routine. -/
def routineSignature : Signature := { function := "block", parameters := [.required "target"] }

/-- Calls a value, up to what is about to be made. -/
def apply (call : Caller κ) (routine : Nat → Value → Action κ Unit) : Caller κ :=
  fun callee args => do
    let h := (← get).heap
    match callee, h.cell? callee with
    | .function owner name, _ => callFunction call owner name args
    | .method receiver owner name _, _ => callFunction call owner name (args.after receiver)
    | _, some (.field _ _) => callFunction call .dynamicField "__call__" (args.after callee)
    | .classOf cls, _ => construct call cls args
    | .routine id, _ => do
      let bound ← bindArguments routineSignature args
      routine id (bound.values.headD .none)
      return .none
    | _, _ => throw (.notCallable (h.typeName callee))

/-- Calls a value; `routine` runs a client's routine on its argument. -/
def invoke (call : Caller κ) (routine : Nat → Value → Action κ Unit) : Caller κ :=
  fun callee args => do
    let result ← apply call routine callee args
    Action.onHeap (Heap.settle result)

end PageMeta.Object
