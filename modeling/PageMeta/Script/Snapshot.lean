import PageMeta.Heap.Printer

/-!
# Snapshots

A snapshot is what a value looks like at one moment, as a finite tree that no later change can
touch.  Answers of scripts hold snapshots.
-/

namespace PageMeta.Script

/-- What a value looks like. -/
inductive Snapshot where
  /-- A scalar, or something that is shown by its name. -/
  | scalar (v : Value)
  | list (items : List Snapshot)
  | tuple (items : List Snapshot)
  | dict (pairs : List (Snapshot × Snapshot))
  | map (pairs : List (Snapshot × Snapshot))
  | builder (cls : String) (buffer : List (Snapshot × Snapshot))
  | store (siteName defaultLocale availableLocales : Snapshot)
  | record (schema : String) (pairs : List (Snapshot × Snapshot))
  | keys (items : List Snapshot)
  | values (items : List Snapshot)
  | items (pairs : List (Snapshot × Snapshot))
  /-- A dynamic field, by its written form. -/
  | field (written : String)
  /-- A function of a class, bound to an object or not. -/
  | method (name : String)
deriving Repr

instance : Inhabited Snapshot := ⟨.scalar .none⟩

mutual

/-- What a key looks like, given how values look. -/
def snapshotKey (look : Value → Snapshot) : Key → Snapshot
  | .atom v => look v
  | .tuple _ items => .tuple (snapshotKeys look items)

/-- What the keys of a list look like. -/
def snapshotKeys (look : Value → Snapshot) : List Key → List Snapshot
  | [] => []
  | k :: rest => snapshotKey look k :: snapshotKeys look rest

end

/-- What entries look like, given how values look. -/
def snapshotEntries (look : Value → Snapshot) (entries : Entries Key Value) :
    List (Snapshot × Snapshot) :=
  entries.map fun p => (snapshotKey look p.1, look p.2)

/-- The entries of the dictionary or map that a value is. -/
def entriesOf (h : Heap) : Value → Entries Key Value
  | .ref r => h.entriesAt r
  | _ => []

/-- What a cell at an address looks like, given how values look. -/
def snapshotCell (h : Heap) (look : Value → Snapshot) (r : Ref) : Cell → Snapshot
  | .list items => .list (items.map look)
  | .tuple items => .tuple (items.map look)
  | .dict entries => .dict (snapshotEntries look entries)
  | .map _ => .map (snapshotEntries look (h.entriesAt r))
  | .builder kind attributes =>
    .builder kind.name
      (snapshotEntries look (entriesOf h (h.shownAttribute attributes "_config")))
  | .store attributes =>
    let shown := fun name => look (h.shownAttribute attributes name)
    .store (shown "site_name") (shown "default_locale") (shown "available_locales")
  | .record schema attributes others _ =>
    .record schema (snapshotEntries look (h.entriesAt attributes ++ h.otherEntries others))
  | .field _ _ => .field (h.written (.ref r))
  | .liveKeys of => .keys (snapshotKeys look (h.entriesAt of).keys)
  | .liveValues of => .values ((h.entriesAt of).values.map look)
  | .liveItems of => .items (snapshotEntries look (h.entriesAt of))

/-- What a value looks like, down to `depth` levels. -/
def snapshotTo (h : Heap) : Nat → Value → Snapshot
  | 0, v => .scalar v
  | depth + 1, v =>
    match v with
    | .ref r =>
      match h.read r with
      | some cell => snapshotCell h (snapshotTo h depth) r cell
      | none => .scalar v
    | .function _ name | .method _ _ name _ => .method name
    | _ => .scalar v

/-- What a value looks like. -/
def snapshot (h : Heap) (v : Value) : Snapshot := snapshotTo h h.depth v

/-- Whether an object is of a type that a step can change in place. -/
def isChangeable (h : Heap) (v : Value) : Bool :=
  match h.cell? v with
  | some (.list _) | some (.dict _) | some (.map _) | some (.builder _ _)
  | some (.store _) => true
  | _ => false

end PageMeta.Script
