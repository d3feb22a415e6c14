import PageMeta.Heap.Trees
import PageMeta.Schema.Basic

/-!
# Records with their defaults

Makes the values that fields hold when they are left out, and records of given values.  Each default
is made anew, so no two records share one.
-/

namespace PageMeta

namespace Schema

/-- Makes what a field of a shape holds by default, given how to make records. -/
def makeDefault (make : Heap.Action Value) : FieldDefault → Heap.Action Value
  | .required => pure .none
  | .value t => Heap.buildText .plain t
  | .record => make
  | .recordUnder key => do
    let r ← make
    Heap.newDict [(Key.ofText key, r)]

/-- Makes a record of a schema; `others` are its further entries if it keeps any, and `given` the
keys that were not left to defaults. -/
def newRecord (schema : String) (fields : Entries String Value)
    (others : Option (Entries Key Value)) (given : List Key) : Heap.Action Value := do
  let attributes ← Heap.alloc (.dict (Heap.textKeys fields))
  let others ← match others with
    | some entries => some <$> Heap.alloc (.dict entries)
    | none => pure none
  return .ref (← Heap.alloc (.record schema attributes others given))

mutual

/-- Makes the record that a shape is about, with its defaults. -/
def instantiate : Shape → Heap.Action Value
  | .record schema => instantiateSchema schema
  | .mapping item => instantiate item
  | .optional shape => instantiate shape
  | _ => pure .none

/-- Makes a record with its defaults. -/
def instantiateSchema : RecordSchema → Heap.Action Value
  | .mk name fields keeps => do
    let values ← instantiateFields fields
    newRecord name values (if keeps then some [] else none) []

/-- Makes the defaults of fields. -/
def instantiateFields : List SchemaField → Heap.Action (Entries String Value)
  | [] => pure []
  | .mk name shape default :: rest => do
    let v ← makeDefault (instantiate shape) default
    let vs ← instantiateFields rest
    return (name, v) :: vs

end

end Schema

end PageMeta
