import PageMeta.Builder.Rules
import PageMeta.Builder.Setter
import PageMeta.Schema.Check
import PageMeta.Schema.Payload

/-!
# Building

Finishing a builder, and blocks: a block is a client's routine that is given a builder to fill.

* `build` checks the rules and gives a detached copy of the buffer.
* `nested` runs a block on a new builder of the same class and stores what it builds.
* `buildRecord` reads the result as the record that renderers rely on.
-/

namespace PageMeta.Builder

variable {κ : Type}

/-- The logger of builders. -/
def logger : String := "seo_builder.dsl.base"

/-- Checks the rules of a builder by the `validate` it answers to. -/
def check (call : Caller κ) (b : Value) : Action κ Unit := do
  let found ← Action.ask fun h => Object.lookup h b "validate"
  match found, kind? (← get).heap b with
  | .method _ (.builder kind) _, some _ => discard (Action.onHeap (validate kind b))
  | _, _ => discard (Object.use call b "validate" found {})

/-- Checks the rules and makes a detached copy of the buffer. -/
def build (call : Caller κ) (b : Value) : Action κ Value := do
  check call b
  let result ← Action.onHeap (toDict b)
  let keys ← Action.onHeap (Heap.elements result)
  let h := (← get).heap
  Action.record .debug logger
    (h.typeName b ++ " built: keys=" ++ Heap.listText (keys.map h.written))
  return result

/-- Runs a block on a builder; no block, nothing to do. -/
def evaluate (call : Caller κ) (b block : Value) : Action κ Value := do
  match block with
  | .none => pure ()
  | _ => discard (call block (.of [b]))
  return b

/-- Makes a new object of the class of a builder. -/
def another (call : Caller κ) (b : Value) : Action κ Value := do
  match (← get).heap.className b with
  | .builder kind => Action.onHeap (create kind)
  | .data type => throw (.noAttribute type "evaluate")
  | cls => call (.classOf cls) {}

/-- Runs a block on what is to be a builder. -/
def fill (call : Caller κ) (child block : Value) : Action κ Unit := do
  let found ← Action.ask fun h => Object.lookup h child "evaluate"
  if isOwn (← get).heap child found then discard (evaluate call child block)
  else discard (Object.use call child "evaluate" found (.of [block]))

/-- Builds what is to be a builder. -/
def finish (call : Caller κ) (child : Value) : Action κ Value := do
  let found ← Action.ask fun h => Object.lookup h child "build"
  if isOwn (← get).heap child found then build call child
  else Object.use call child "build" found {}

/-- Stores under a name what a block builds on a new builder of the same class. -/
def nested (call : Caller κ) (b name block : Value) : Action κ Value := do
  let child ← another call b
  fill call child block
  let store ← storing call b
  let result ← finish call child
  store name result

/-- Stores what a block builds on a builder of articles; reads if there is no block. -/
def articleField (call : Caller κ) (b block : Value) : Action κ Value := do
  match block with
  | .none => readFrom call b (.ofText "article")
  | _ => do
    let store ← storing call b
    let child ← Action.onHeap (create .article)
    discard (evaluate call child block)
    let result ← build call child
    store (.ofText "article") result

/-- Uses a field that the class does not declare: stores one value, or what a block builds, or
reads. -/
def dynamicField (call : Caller κ) (owner name : Value) (values : List Value) (block : Value) :
    Action κ Value := do
  let h := (← get).heap
  if 1 < values.length then throw (.severalValues (h.display name) values.length)
  match block, values with
  | .none, [] => readFrom call owner name
  | .none, v :: _ => storeIn call owner name v
  | _, [] => do
    let found ← Action.ask fun h => Object.lookup h owner "nested"
    if isOwn (← get).heap owner found then nested call owner name block
    else Object.use call owner "nested" found (.of [name, block])
  | _, _ :: _ => throw (.valueWithBlock (h.display name))

/-- Builds, and reads the result as a record of the payload schema of the class. -/
def buildRecord (call : Caller κ) (b : Value) : Action κ Value := do
  match ← Action.onHeap (Object.getAttribute b "payload_model") with
  | .none => throw (.noSchema ((← get).heap.typeName b))
  | cls => do
    let result ← finish call b
    match cls, schemaOf? cls with
    | _, some schema => Action.onHeap (Schema.read .usual schema result)
    | _, none => Object.send call cls "model_validate" (.of [result])
where
  /-- The schema that a class stands for. -/
  schemaOf? : Value → Option RecordSchema
    | .classOf (.schema name) => Schema.named? name
    | _ => none

end PageMeta.Builder
