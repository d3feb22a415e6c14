import PageMeta.Object.Binding
import PageMeta.Plain.Bytes
import PageMeta.Plain.Dictionary
import PageMeta.Plain.Number
import PageMeta.Plain.Sequence

/-!
# Calls of functions of plain data

A function of a class of plain data takes an object of that class as its first argument, or of a class
derived from it.

* `callFunction` calls a function of a class of plain data.
* `callRootFunction` calls a function that every class has.
* `callClassFunction` calls a function that is about a class of plain data itself.
-/

namespace PageMeta.Plain

variable {κ : Type}

/-- Whether a value is an object of a class of plain data. -/
def isOf (h : Heap) (type : String) (v : Value) : Bool :=
  (h.className v).searchOrder.contains (.data type)

/-- Splits the object that a function is about off the arguments of a call. -/
def splitReceiver (type name : String) (args : Arguments) : Heap.Action (Value × Arguments) := do
  let h ← get
  let isOperator := isSlot type name
  match args.positional with
  | [] =>
    fail (if isOperator then .noOperand type name else .noReceiver (type ++ "." ++ name))
  | v :: rest =>
    if isOf h type v then return (v, { args with positional := rest })
    else
      let found := h.typeName v
      fail (if isOperator then .foreignOperand type name found
        else .foreignReceiver type name found)

/-- Places the arguments of a call. -/
def placesFor (type name : String) (args : Arguments) : Heap.Action Places := do
  match (form type name).bind type name args with
  | .ok places => return places
  | .error fault => fail fault

/-! ## Functions that every class has -/

/-- Calls a function that every class has. -/
def callRootFunction (v : Value) (name : String) (args : Arguments) : Heap.Action Value := do
  let places ← placesFor ClassName.root.name name args
  let h ← get
  let w := places.at 0
  let named := fun w : Value => do
    match w with
    | .text s mark => return Name.mk s mark
    | _ =>
      match w.text? with
      | some s => return Name.ofText s
      | none => fail (.wrongType "attribute name" "be string" ("'" ++ h.typeName w ++ "'"))
  match name, Relation.named? name with
  | _, some relation => .bool <$> Heap.ask fun h => related h relation v w
  | "__str__", _ => return if v.text?.isSome then v else .newText (h.display v)
  | "__format__", _ => return .newText (h.display v)
  | "__repr__", _ => return .newText (h.written v)
  | "__eq__", _ => return .bool (h.same v w)
  | "__ne__", _ => return .bool (!h.same v w)
  | "__hash__", _ => do
    discard (Heap.ask fun h => h.toKey v)
    return .none
  | "__getattribute__", _ => do Object.getAttribute v (← named w)
  | "__setattr__", _ => do
    Object.place v (← named w).text (places.at 1)
    return .none
  | "__delattr__", _ => do
    Object.remove v (← named w).text
    return .none
  | "__init__", _ => return .none
  | _, _ => throw (.noAttribute (h.typeName v) name)

/-! ## Functions about classes -/

/-- Makes the table that replaces characters, from the arguments of a call. -/
def makeTable (places : Places) : Heap.Action Value := do
  let h ← get
  let code := fun c : Char => Key.atom (.newInt c.toNat)
  match places.at? 1, h.cell? (places.at 0) with
  | none, some (.dict entries) =>
    Heap.newDict (Entries.ofList (entries.map fun p =>
      match p.1.value.text?.map String.toList with
      | some [c] => (code c, p.2)
      | _ => p))
  | none, _ => throw (.plain (.wrongType "if you give only one argument to maketrans it"
      "be a dict" ""))
  | some w, _ => do
    let old ← textFor "first maketrans argument" "be a string if there is a second argument" (places.at 0)
    let new ← textFor "maketrans() argument 2" "be str" w
    if old.length != new.length then fail .unequalTables
    let pairs := (old.zip new).map fun p => (code p.1, Value.ofInt p.2.toNat)
    let dropped ← match places.at? 2 with
      | some d => textFor "maketrans() argument 3" "be str" d
      | none => pure []
    Heap.newDict (Entries.ofList (pairs ++ dropped.map fun c => (code c, .none)))

/-- Calls a function that is about a class of plain data. -/
def callClassFunction (type name : String) (args : Arguments) : Heap.Action Value := do
  let places ← placesFor type name args
  let v := places.at 0
  match type, name with
  | "dict", "fromkeys" => fromKeys places
  | "bytes", "fromhex" => do
    let s ← textFor "fromhex() argument" "be str" v
    match bytesOfHex 0 s with
    | .ok bs => return madeBytes bs
    | .error fault => fail fault
  | "int", "from_bytes" => do
    let bs ← bytesFor "from_bytes() argument 'bytes'" "be bytes" v
    let isLittle := (places.at 1).text? == some "little"
    return .newInt (natOfBytes (if isLittle then bs.reverse else bs))
  | "str", "maketrans" => makeTable places
  | _, _ => throw (.noClassAttribute type name)

/-! ## Functions of objects -/

/-- Calls a function of classes on a class. -/
def callTypeFunction (cls : ClassName) (name : String) (v : Value) : Heap.Action Value := do
  let h ← get
  match name with
  | "mro" => Heap.newList (cls.searchOrder.map .classOf)
  | "__subclasses__" => Heap.newList (cls.derived.map .classOf)
  | "__instancecheck__" => return .bool ((h.className v).searchOrder.contains cls)
  | "__subclasscheck__" =>
    match v with
    | .classOf other => return .bool (other.searchOrder.contains cls)
    | _ => fail (.wrongType "issubclass() arg 1" "be a class" "")
  | _ => throw (.noClassAttribute cls.name name)

/-- Calls a function of plain data on an object. -/
def callOn (call : Caller κ) (v : Value) (type name : String) (places : Places)
    (named : Entries Name Value) : Action κ Value := do
  let h := (← get).heap
  match v, h.cell? v, v.text?, v.integer? with
  | .ref r, some (.dict _), _, _ => callDictionary call r name places named
  | .ref r, some (.list _), _, _ => callList call r name places
  | _, some (.tuple items), _, _ => Action.onHeap (callTuple v items name places)
  | _, some (.liveKeys of), _, _ | _, some (.liveItems of), _, _
  | _, some (.liveValues of), _, _ => Action.onHeap (callView v of name places)
  | .bytes bs _, _, _, _ => Action.onHeap (callBytes v bs name places)
  | .real x _, _, _, _ => Action.onHeap (callReal v x name)
  | .none, _, _, _ => return .bool false
  | .classOf cls, _, _, _ => Action.onHeap (callTypeFunction cls name (places.at 0))
  | _, _, some s, _ =>
    match name with
    | "__contains__" => .bool <$> Action.onHeap (Object.contains v (places.at 0))
    | "__getitem__" => Action.ask fun h => Object.getItem h v (places.at 0)
    | "__len__" => return .newInt s.length
    | "__iter__" => Action.onHeap do Heap.newList (← Heap.elements v)
    | _ => Action.onHeap (callText v s.toList name places)
  | _, _, _, some n => Action.onHeap (callInteger v n name places)
  | _, _, _, _ => throw (.noAttribute type name)

/-- Calls a function of a class of plain data. -/
def callFunction (call : Caller κ) (type name : String) (args : Arguments) : Action κ Value := do
  if type = ClassName.root.name then
    match args.positional with
    | v :: rest => Action.onHeap (callRootFunction v name { args with positional := rest })
    | [] => throw (.plain (.noOperand type name))
  else if (classFunctions type).contains name then
    Action.onHeap (callClassFunction type name { args with positional := args.positional.drop 1 })
  else
    let (v, rest) ← Action.onHeap (splitReceiver type name args)
    if name = "__call__" then call v rest
    else
      let places ← Action.onHeap (placesFor type name rest)
      callOn call v type name places rest.named

end PageMeta.Plain
