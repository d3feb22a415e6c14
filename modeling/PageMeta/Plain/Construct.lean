import PageMeta.Plain.Calls

/-!
# Making plain data

What calling a class of plain data makes: numbers, texts and bytes read from other values, and lists,
tuples and dictionaries of what other values yield.
-/

namespace PageMeta.Plain

variable {κ : Type}

/-- Makes an integer of a value without a base. -/
def integerOf (v : Value) : Heap.Action Value := do
  let h ← get
  match v, v.integer?, v.text? with
  | .int _ _, _, _ => return v
  | _, some n, _ => return .ofInt n
  | .real x _, _, _ =>
    match truncated "integer" x with
    | .ok n => return .newInt n
    | .error fault => fail fault
  | _, _, some s => spelled 10 s.toList
  | .bytes bs _, _, _ => spelled 10 (charsOf bs)
  | _, _, _ =>
    fail (.wrongType "int() argument" "be a string, a bytes-like object or a real number"
      ("'" ++ h.typeName v ++ "'"))
where
  /-- The integer that a text spells. -/
  spelled (base : Nat) (s : List Char) : Heap.Action Value := do
    match ← Heap.ask fun _ => readInteger base s with
    | some n => return .newInt n
    | none => do fail (.invalidInteger base ((← get).written v))

/-- Makes an integer. -/
def newInteger (places : Places) : Heap.Action Value := do
  match places.at? 0, places.at? 1 with
  | none, _ => return .ofInt 0
  | some v, none => integerOf v
  | some v, some base => do
    let base ← indexOf base
    if base != 0 && (base < 2 || 36 < base) then fail .baseRange
    match v, v.text? with
    | .bytes bs _, _ => integerOf.spelled v base.toNat (charsOf bs)
    | _, some s => integerOf.spelled v base.toNat s.toList
    | _, none => fail .baseForNumber

/-- Makes a double. -/
def newDouble (places : Places) : Heap.Action Value := do
  let spelled := fun (v : Value) (s : List Char) => do
    match readReal? s with
    | some x => return Value.real x .pending
    | none => do fail (.invalidNumber ((← get).written v))
  match places.at? 0 with
  | none => return .real (.finite false 0) .pending
  | some v =>
    match v, v.integer?, v.text? with
    | .real _ _, _, _ => return v
    | _, some n, _ =>
      match Binary64.ofInt n with
      | .infinite _ => fail .numberTooLarge
      | x => return .real x .pending
    | _, _, some s => spelled v s.toList
    | .bytes bs _, _, _ => spelled v (charsOf bs)
    | _, _, _ => do
      fail (.wrongType "float() argument" "be a string or a real number"
        ("'" ++ (← get).typeName v ++ "'"))

/-- Makes a text. -/
def newTextOf (places : Places) : Heap.Action Value := do
  let h ← get
  match places.at? 0, (places.at? 1).isSome || (places.at? 2).isSome with
  | none, _ => return .ofText ""
  | some v, false =>
    match v with
    | .text _ _ => return v
    | _ => return .newText (h.display v)
  | some v, true => do
    let (encoding, errors) ← encodingAt "str" places 1
    match v with
    | .bytes bs _ => Value.newText <$> Heap.ask fun _ => decodeBytes encoding errors bs
    | _ => fail (if v.text?.isSome then .decodingText else .decodingOther (h.typeName v))

/-- The bytes with the numbers that a list has. -/
def byteNumbers : List Value → Heap.Action (List UInt8)
  | [] => pure []
  | v :: rest => do
    let n ← indexOf v
    if n < 0 ∨ 256 ≤ n then fail .byteRange
    let others ← byteNumbers rest
    return n.toNat.toUInt8 :: others

/-- Makes bytes. -/
def newBytes (places : Places) : Heap.Action Value := do
  match places.at? 0 with
  | none => return madeBytes []
  | some v =>
    match v, v.integer?, v.text?, places.at? 1 with
    | .bytes _ _, _, _, _ => return v
    | _, some n, _, _ =>
      if n < 0 then fail .negativeCount else return madeBytes (List.replicate n.toNat 0)
    | _, _, some s, some _ => do
      let (encoding, errors) ← encodingAt "bytes" places 1
      match encodeText encoding errors s.toList with
      | .ok bs => return madeBytes bs
      | .error fault => fail fault
    | _, _, some _, none => fail .textWithoutEncoding
    | _, _, _, _ => do
      let items ← tryCatch (Heap.elements v) fun
        | .notIterable type => fail (.notBytes type)
        | e => throw e
      return madeBytes (← byteNumbers items)

/-- What the arguments of a class are. -/
def classForm : String → Form
  | "int" => .parameters ["x", "base"] 0
  | "str" => .parameters ["object", "encoding", "errors"] 0
  | "bytes" => .parameters ["source", "encoding", "errors"] 0
  | "dict" => .free 1
  | _ => .unpacked 0 1

/-- The arguments of a class, one place for each; the classes that take their arguments apart count
them first and take none by name. -/
def classPlaces (type : String) (args : Arguments) : Heap.Action Places := do
  let bound := match classForm type with
    | .unpacked least most => do
      refuseNames type args
      checkCount (.unpackCount type) least most args.positional.length
      return padded most args.positional
    | form => form.bind type type args
  match bound with
  | .ok places => return places
  | .error fault => fail fault

/-- Makes an object of a class of plain data. -/
def construct (call : Caller κ) (type : String) (args : Arguments) : Action κ Value := do
  match type, args.positional with
  | "type", [v] => return .classOf ((← get).heap.className v)
  | "type", _ => throw (.plain .typeCount)
  | "object", _ :: _ => throw (.plain (.noArguments "object()"))
  | "NoneType", [] => return .none
  | "NoneType", _ => throw (.plain (.noArguments "NoneType"))
  | "dict", _ => do
    let places ← Action.onHeap (classPlaces type args)
    let r ← Action.onHeap (Heap.alloc (.dict []))
    update call r places args.named
    return .ref r
  | "bool", _ | "list", _ | "tuple", _ | "int", _ | "float", _ | "str", _ | "bytes", _ =>
    Action.onHeap do
      let places ← classPlaces type args
      match type, places.at? 0 with
      | "bool", v => do
        let h ← get
        return .bool (v.any h.truth)
      | "list", some v => do Heap.newList (← Heap.elements v)
      | "list", none => Heap.newList []
      | "tuple", some v =>
        match (← get).cell? v with
        | some (.tuple _) => return v
        | _ => do Heap.newTuple (← Heap.elements v)
      | "tuple", none => Heap.newTuple []
      | "int", _ => newInteger places
      | "float", _ => newDouble places
      | "str", _ => newTextOf places
      | _, _ => newBytes places
  | _, _ => throw (.plain (.notCreatable type))

end PageMeta.Plain
