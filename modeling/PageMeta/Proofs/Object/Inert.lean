import PageMeta.Builder.Build
import PageMeta.Proofs.Heap.Keeping

/-!
# Inert values

Scalars, lists and dictionaries can neither be called nor asked for keys of their own making.  Taking
a dictionary from such a value runs no code of a caller, and makes new cells only.

## Key results

- `Inert.not_callable`: inert values cannot be called
- `elements_extends`: going through a value makes new cells only
- `updateEntries_extends`: so does taking a dictionary from an inert value
- `updateEntries_dict`: from a dictionary its own entries are taken
-/

namespace PageMeta.Heap

variable {h h' : Heap} {v : Value} {κ : Type} {w : World κ}

/-- Whether a value is absent, a truth value, a number, a text, bytes, a list or a dictionary. -/
def Inert (h : Heap) : Value → Prop
  | .none | .bool _ | .int _ _ | .real _ _ | .text _ _ | .bytes _ _ => True
  | .ref r => (∃ items, h.read r = some (.list items)) ∨ ∃ entries, h.read r = some (.dict entries)
  | _ => False

namespace Inert

/-- What is inert stays so if lists and dictionaries stay lists and dictionaries. -/
theorem later (hv : h.Inert v)
    (hlist : ∀ r items, h.read r = some (.list items) → h'.read r = some (.list items))
    (hdict : ∀ r entries, h.read r = some (.dict entries) → ∃ es, h'.read r = some (.dict es)) :
    h'.Inert v := by
  cases v with
  | ref r =>
    rcases hv with ⟨items, hr⟩ | ⟨entries, hr⟩
    · exact .inl ⟨items, hlist r items hr⟩
    · exact .inr (hdict r entries hr)
  | _ => exact hv

theorem of_extends (hv : h.Inert v) (he : Extends h h') : h'.Inert v :=
  hv.later (fun _ _ hr => he.read_of_some hr) fun _ entries hr => ⟨entries, he.read_of_some hr⟩

theorem newDict (h : Heap) (entries : Entries Key Value) :
    (h.push (.dict entries)).Inert (.ref h.next) := .inr ⟨entries, read_alloc_new _ _⟩

theorem newList (h : Heap) (items : List Value) :
    (h.push (.list items)).Inert (.ref h.next) := .inl ⟨items, read_alloc_new _ _⟩

/-- What is inert stays so while dictionaries are written. -/
theorem write {d : Ref} {entries es : Entries Key Value} (hv : h.Inert v)
    (hd : h.read d = some (.dict entries)) : (h.write d (.dict es)).Inert v := by
  refine hv.later (fun r items hr => ?_) fun r es' hr => ?_
  · refine (read_write_of_ne _ _ _ _ fun heq => ?_).trans hr
    subst heq
    rw [hd] at hr
    cases hr
  · by_cases heq : d = r
    · subst heq
      exact ⟨es, read_write_self _ _ _ (lt_size_of_read hd)⟩
    · exact ⟨es', (read_write_of_ne _ _ _ _ heq).trans hr⟩

/-- What is inert cannot be called. -/
theorem not_callable (hv : h.Inert v) : Object.isCallable h v = false := by
  cases v with
  | ref r =>
    rcases hv with ⟨items, hr⟩ | ⟨entries, hr⟩ <;> simp [Object.isCallable, cell?, hr]
  | _ => first | rfl | exact hv.elim

theorem get?_getD {entries : Entries Key Value} (he : ∀ p ∈ entries, h.Inert p.2) (key : Key) :
    h.Inert ((entries.get? key).getD .none) := by
  cases hget : entries.get? key with
  | none => trivial
  | some v =>
    obtain ⟨k, hmem⟩ := Entries.exists_of_get? hget
    exact he _ hmem

theorem put {entries : Entries Key Value} (he : ∀ p ∈ entries, h.Inert p.2) (hv : h.Inert v)
    (key : Key) : ∀ p ∈ entries.put key v, h.Inert p.2 := fun p hp => by
  rcases Entries.mem_put hp with ⟨heq, -⟩ | hp
  · exact heq ▸ hv
  · exact he p hp

/-- The classes of inert values other than dictionaries. -/
def classes : List ClassName :=
  [.data "NoneType", .data "bool", .data "int", .data "float", .text, .data "bytes", .data "list"]

theorem className_mem (hv : h.Inert v) :
    (∃ entries, h.cell? v = some (.dict entries)) ∨ h.className v ∈ classes := by
  cases v with
  | ref r =>
    rcases hv with ⟨items, hr⟩ | ⟨entries, hr⟩
    · exact .inr (by simp [className, hr, Cell.className, classes])
    · exact .inl ⟨entries, hr⟩
  | none | bool | int | real | text | bytes => exact .inr (by simp [className, classes])
  | _ => exact hv.elim

/-- An inert value is a dictionary, or does not tell its keys. -/
theorem lookup_keys (hv : h.Inert v) :
    (∃ entries, h.cell? v = some (.dict entries)) ∨ ∃ e, Object.lookup h v "keys" = .error e := by
  refine hv.className_mem.imp id fun hmem => ?_
  have hfacts : ∀ cls ∈ classes, Object.classFunction? cls "keys" = none ∧
      cls.definer? "keys" = none := by decide +kernel
  obtain ⟨hplain, hown⟩ := hfacts _ hmem
  -- no function of the class answers, and the value has no attribute of its own of the name
  cases v with
  | ref r =>
    rcases hv with ⟨items, hr⟩ | ⟨entries, hr⟩
    · exact ⟨_, by simp only [Object.lookup, hplain, hown, Object.cellAttribute, hr]; rfl⟩
    · exact absurd hmem (by simp [className, hr, Cell.className, classes, ClassName.text])
  | none | bool | int | real | text | bytes =>
    exact ⟨_, by simp only [Object.lookup, hplain, hown]; rfl⟩
  | _ => exact hv.elim

end Inert

/-! ### Going through a value -/

/-- Making a scalar changes no cell, and makes no other kind of value. -/
theorem settle_cells (h : Heap) (v : Value) :
    ∃ u h', settle v h = .ok u h' ∧ h'.cells = h.cells ∧ (h.Inert v → h'.Inert u) := by
  obtain ⟨mark, h', hrun, -, hc⟩ := settle_marked h v
  refine ⟨v.withMark mark, h', hrun, hc, fun hv => ?_⟩
  have hinert : h.Inert (v.withMark mark) := by cases v <;> exact hv
  exact hinert.of_extends (extends_of_cells hc)

theorem settleAll_extends : ∀ (vs : List Value) (h : Heap),
    Outcome (settleAll vs) h (fun _ h' => Extends h h') (Extends h)
  | [], h => .refl _ h
  | v :: rest, h => by
    obtain ⟨u, h₁, hrun, hcells, -⟩ := settle_cells h v
    have he := extends_of_cells hcells
    exact Outcome.bind (Outcome.of_ok hrun (Outcome.bind ((settleAll_extends rest h₁).mono
      (fun _ _ => he.trans) fun _ => he.trans)))

theorem pairs_extends : ∀ (entries : Entries Key Value) (h : Heap),
    Outcome (pairs entries) h (fun _ h' => Extends h h') (Extends h)
  | [], h => .refl _ h
  | (key, value) :: rest, h => by
    have he := extends_push h (.tuple [key.value, value])
    exact Outcome.bind (Outcome.of_ok rfl (Outcome.bind ((pairs_extends rest _).mono
      (fun _ _ => he.trans) fun _ => he.trans)))

/-- Going through a value makes new cells only. -/
theorem elements_extends (v : Value) (h : Heap) :
    Outcome (elements v) h (fun _ h' => Extends h h') (Extends h) := by
  have hrefl : Extends h h := .refl _ h
  refine Outcome.get_bind ?_
  split
  · exact settleAll_extends _ h
  · exact settleAll_extends _ h
  · exact hrefl
  · exact hrefl
  · split
    · exact hrefl
    · exact hrefl
    · exact hrefl
    · split <;> exact hrefl
    · exact hrefl
    · exact hrefl
    · exact pairs_extends _ h
    · exact Outcome.bind (Outcome.ask (fun _ _ => pairs_extends _ h) hrefl)
    · exact hrefl
  · exact hrefl

/-! ### Copying a value -/

theorem settle_extends (v : Value) (h : Heap) {failed : Heap → Prop} :
    Outcome (settle v) h (fun _ h' => Extends h h') failed := by
  obtain ⟨u, h', hrun, hcells, -⟩ := settle_cells h v
  exact Outcome.of_ok hrun (extends_of_cells hcells)

theorem settleKey_extends (key : Key) (h : Heap) {failed : Heap → Prop} :
    Outcome (settleKey key) h (fun _ h' => Extends h h') failed := by
  cases key with
  | atom v => exact Outcome.bind ((settle_extends v h).mono (fun _ _ he => he) fun _ => id)
  | tuple r items => exact Agree.refl _ h

theorem make_extends (building : Building) (entries : Entries Key Value) (h : Heap) :
    Outcome (building.make entries) h (fun _ h' => Extends h h') (Extends h) := by
  have hdict := extends_push h (.dict entries)
  cases building with
  | plain => exact hdict
  | wrapped => exact hdict.trans (extends_push _ _)

mutual

/-- Building a tree makes new cells only. -/
theorem build_extends (building : Building) : ∀ (u : Tree Key) (h : Heap),
    Outcome (build building u) h (fun _ h' => Extends h h') (Extends h)
  | .leaf v, h => by
    rw [build]
    exact settle_extends v h
  | .list us, h => by
    rw [build]
    refine Outcome.bind ((buildList_extends building us h).mono (fun vs h₁ he => ?_) fun _ => id)
    exact he.trans (extends_push h₁ (.list vs))
  | .map us, h => by
    rw [build]
    refine Outcome.bind ((buildEntries_extends building us h).mono (fun es h₁ he => ?_) fun _ => id)
    exact (make_extends building es h₁).mono (fun _ _ => he.trans) fun _ => he.trans

/-- `build_extends`, item by item. -/
theorem buildList_extends (building : Building) : ∀ (us : List (Tree Key)) (h : Heap),
    Outcome (buildList building us) h (fun _ h' => Extends h h') (Extends h)
  | [], h => .refl _ h
  | u :: us, h => by
    rw [buildList]
    refine Outcome.bind ((build_extends building u h).mono (fun _ h₁ he => ?_) fun _ => id)
    exact Outcome.bind ((buildList_extends building us h₁).mono (fun _ _ => he.trans)
      fun _ => he.trans)

/-- `build_extends`, entry by entry. -/
theorem buildEntries_extends (building : Building) : ∀ (us : List (Key × Tree Key)) (h : Heap),
    Outcome (buildEntries building us) h (fun _ h' => Extends h h') (Extends h)
  | [], h => .refl _ h
  | (key, u) :: us, h => by
    rw [buildEntries]
    refine Outcome.bind ((settleKey_extends key h).mono (fun _ h₁ he₁ => ?_) fun _ => id)
    refine Outcome.bind ((build_extends building u h₁).mono (fun _ h₂ he₂ => ?_) fun _ => he₁.trans)
    have he := he₁.trans he₂
    exact Outcome.bind ((buildEntries_extends building us h₂).mono (fun _ _ => he.trans)
      fun _ => he.trans)

end

/-- Copying a value out of an attribute map makes new cells only. -/
theorem unwrap_extends (v : Value) (h : Heap) :
    Outcome (unwrap v) h (fun _ h' => Extends h h') (Extends h) :=
  Outcome.bind (Outcome.ask (fun u _ => build_extends .plain u h) (.refl _ h))

/-- Asking for an attribute makes new cells only. -/
theorem getAttribute_extends (v : Value) (name : Name) (h : Heap) :
    Outcome (Object.getAttribute v name) h (fun _ h' => Extends h h') (Extends h) := by
  refine Outcome.bind (Outcome.ask (fun found _ => ?_) (.refl _ h))
  cases found with
  | stored u => exact settle_extends u h
  | method receiver owner name => exact settle_extends _ h
  | dynamic => exact extends_push h _
  | made cell => exact extends_push h cell

/-! ### Taking a dictionary from a value -/

/-- A later heap with a new dictionary at an address. -/
structure Collects (r : Ref) (h h' : Heap) : Prop where
  extends_heap : Extends h h'
  new : h.size ≤ r.index
  dict : ∃ entries, h'.read r = some (.dict entries)

variable {r : Ref}

namespace Collects

/-- The dictionary is written. -/
theorem put (hc : Collects r h h') (entries : Entries Key Value) :
    Outcome (putEntries r entries) h' (fun _ h'' => Collects r h h'') (Collects r h) := by
  obtain ⟨es, hr⟩ := hc.dict
  have hd : h'.dict? r = some (r, es) := by simp [dict?, depth, dictTo, hr]
  have hrun : putEntries r entries h' = .ok () (h'.write r (.dict entries)) := by
    simp only [putEntries, hd]
  refine Outcome.of_ok hrun ⟨⟨?_, fun s hs => ?_⟩, hc.new, _,
    read_write_self _ _ _ (lt_size_of_read hr)⟩
  · rw [size_write]
    exact hc.extends_heap.size_le
  · refine (read_write_of_ne _ _ _ _ fun heq => ?_).trans (hc.extends_heap.read_eq s hs)
    have hnew := hc.new
    rw [heq] at hnew
    omega

/-- Other cells are made. -/
theorem trans (hc : Collects r h h') {h'' : Heap} (he : Extends h' h'') : Collects r h h'' :=
  ⟨hc.extends_heap.trans he, hc.new, hc.dict.imp fun _ => he.read_of_some⟩

end Collects

/-- Writing the pairs of a sequence into a new dictionary. -/
theorem writePairs_collects : ∀ (vs : List Value) (n : Nat) {h' : Heap}, Collects r h h' →
    Outcome (Object.writePairs r n vs) h' (fun _ h'' => Collects r h h'') (Collects r h)
  | [], _, _, hc => hc
  | v :: rest, n, h', hc => by
    have helements := (elements_extends v h').mono (fun _ _ => hc.trans) fun _ => hc.trans
    refine Outcome.bind (Outcome.mono (Outcome.tryCatch helements fun e h₁ hc₁ => ?_)
      (fun parts h₁ hc₁ => ?_) fun _ => id)
    · split <;> exact hc₁
    split
    · refine Outcome.bind (Outcome.ask (fun key _ => Outcome.bind ?_) hc₁)
      exact (hc₁.put _).mono (fun _ _ hc₂ => writePairs_collects rest (n + 1) hc₂) fun _ => id
    · exact hc₁

/-- Taking a dictionary from an inert value makes new cells only. -/
theorem updateEntries_extends (call : Caller κ) (hv : w.heap.Inert v) :
    Outcome (Object.updateEntries call v) w (fun _ w' => Extends w.heap w'.heap)
      fun w' => Extends w.heap w'.heap := by
  have he := extends_push w.heap (.dict [])
  have hc : Collects w.heap.next w.heap (w.heap.push (.dict [])) :=
    ⟨he, Nat.le_refl _, [], read_alloc_new _ _⟩
  have hfrom : Outcome (Object.updateFrom call w.heap.next v)
      { w with heap := w.heap.push (.dict []) }
      (fun _ w' => Collects w.heap.next w.heap w'.heap)
      fun w' => Collects w.heap.next w.heap w'.heap := by
    refine Outcome.get_bind ?_
    dsimp only
    split
    · exact Outcome.onHeap (hc.put _)
    · -- a dictionary is dealt with above, and nothing else tells its keys
      rename_i found hfound hno
      rcases (hv.of_extends he).lookup_keys with ⟨entries, hentries⟩ | ⟨e, herror⟩
      · exact (hno entries hentries).elim
      · rw [herror] at hfound
        cases hfound
    · split
      · refine Outcome.onHeap (Outcome.bind ((elements_extends v _).mono (fun vs h₁ he₁ => ?_)
          fun _ => hc.trans))
        exact writePairs_collects vs 0 (hc.trans he₁)
      · exact hc
  refine Outcome.bind (Outcome.of_ok rfl (Outcome.bind (hfrom.mono (fun _ w₁ hc₁ => ?_)
    fun _ hc₁ => hc₁.extends_heap)))
  exact hc₁.extends_heap

/-- Turning a dictionary into entries gives its own entries, and makes new cells only. -/
theorem updateEntries_dict (call : Caller κ) {r : Ref} {entries : Entries Key Value}
    (hread : w.heap.read r = some (.dict entries)) :
    ∃ h', Object.updateEntries call (.ref r) w = .ok (Entries.ofList entries) { w with heap := h' } ∧
      Extends w.heap h' := by
  let h₁ := w.heap.push (.dict [])
  let h₂ := h₁.write w.heap.next (.dict (Entries.ofList entries))
  have he : Extends w.heap h₁ := extends_push _ _
  have hnew : h₁.read w.heap.next = some (.dict []) := read_alloc_new _ _
  have hc : Collects w.heap.next w.heap h₁ := ⟨he, Nat.le_refl _, [], hnew⟩
  have hcell : h₁.cell? (.ref r) = some (.dict entries) := he.read_of_some hread
  have hput : putEntries w.heap.next ((h₁.entriesAt w.heap.next).putAll entries) h₁ = .ok () h₂ := by
    rw [entriesAt_dict hnew]
    simp only [putEntries, dict?_of_dict hnew]
    rfl
  have halloc : Action.onHeap (alloc (.dict [])) w = .ok w.heap.next { w with heap := h₁ } := rfl
  have hfrom : Object.updateFrom call w.heap.next (.ref r) { w with heap := h₁ } =
      .ok () { w with heap := h₂ } := by
    refine (run_bind_ok run_get).trans ?_
    simp only [hcell]
    exact run_onHeap_ok hput
  have hentries : h₂.entriesAt w.heap.next = Entries.ofList entries :=
    entriesAt_dict (read_write_self _ _ _ (lt_size_of_read hnew))
  refine ⟨h₂, (run_bind_ok halloc).trans ((run_bind_ok hfrom).trans ?_),
    ((hc.put _).result hput).extends_heap⟩
  show EStateM.Result.ok (h₂.entriesAt w.heap.next) _ = _
  rw [hentries]

end PageMeta.Heap
