import PageMeta.Proofs.Heap.Additions
import PageMeta.Proofs.Heap.Detach
import PageMeta.Proofs.Heap.Written
import PageMeta.Proofs.Object.Inert

/-!
# Plain data as a client writes them down

A client's routine writes down plain data, and gets an object of its own each time.  These objects, and
their detached copies, are new cells that show the data, and the keys of their dictionaries are texts
themselves.

## Key results

- `Datum`: plain data that can be written down
- `buildText_shown`: what is written down shows the data in new cells
- `detach_shown`: so does a detached copy
-/

namespace PageMeta

/-- Plain data: scalars, lists, and dictionaries that have each key once. -/
structure Datum where
  tree : Tree String
  plain : tree.isPlain = true
  distinct : tree.Distinct

/-- A scalar is plain data. -/
def Datum.ofValue (v : Value) (hv : v.isPlain = true) : Datum := ⟨.leaf v, hv, trivial⟩

namespace Heap

variable {h h' : Heap} {within : Ref → Prop} {t : Tree String} {v : Value}

/-- Whether a value shows plain data, in cells of some kind with texts as keys. -/
structure Shown (h : Heap) (within : Ref → Prop) (t : Tree String) (v : Value) : Prop where
  reads : h.Reads .plain (fun r => within r ∧ h.TextKeyed r) t v
  plain : t.isPlain = true

namespace Shown

theorem mono {wider : Ref → Prop} (hs : h.Shown within t v) (hw : ∀ r, within r → wider r) :
    h.Shown wider t v := ⟨hs.reads.mono fun r hr => ⟨hw r hr.1, hr.2⟩, hs.plain⟩

/-- What shows plain data still does in a later heap that agrees on the cells that are there. -/
theorem agree (hs : h.Shown within t v) (ha : Agree (fun r => within r ∧ r.index < h.size) h h') :
    h'.Shown (fun r => within r ∧ r.index < h.size) t v := by
  have hr := hs.reads.allocated.agree (ha.mono fun r hr => ⟨hr.1.1, hr.2⟩)
  refine ⟨hr.mono fun r hr => ⟨⟨hr.1.1, hr.2⟩, fun c hc => hr.1.2 c ?_⟩, hs.plain⟩
  exact (ha.read_eq r ⟨hr.1.1, hr.2⟩).symm.trans hc

theorem later (hs : h.Shown within t v) (he : Extends h h') :
    h'.Shown (fun r => within r ∧ r.index < h.size) t v :=
  hs.agree (he.agree fun _ hr => hr.2)

theorem nameKey_eq (hs : h.Shown within t v) :
    ∃ mark, h.nameKey v = .atom (.text t.display mark) :=
  hs.reads.nameKey_eq (fun _ hr => hr.2) hs.plain

/-- What shows plain data is inert. -/
theorem inert (hs : h.Shown within t v) : h.Inert v := by
  obtain ⟨hr, hp⟩ := hs
  cases t with
  | leaf u =>
    obtain ⟨rfl, -⟩ := hr
    have hv : v.isPlain = true := hp
    cases v <;> first | (cases hv; done) | trivial
  | list ts =>
    obtain ⟨items, hi, -⟩ := hr
    obtain ⟨r, rfl, -⟩ := ref_of_items? hi
    exact .inl ⟨items, read_of_items? (by decide) hi⟩
  | map ts =>
    obtain ⟨entries, he, -⟩ := hr
    obtain ⟨r, rfl, ⟨hread, -⟩ | ⟨d, -, -, hview⟩⟩ := cell_of_entries? he
    · exact .inr ⟨entries, hread⟩
    · exact absurd rfl hview

end Shown

/-! ### Writing down -/

/-- What is new, or is no container, has no other keys if no dictionary with other keys is added. -/
theorem textKeyed_of_adds {r : Ref} (ha : Adds IsTextKeyed h h') (hr : h.Vacant r) :
    h'.TextKeyed r := fun c hc => by
  refine (ha.cells r c hc).elim id fun hold entries heq => ?_
  subst heq
  exact absurd (hr _ hold) (by simp [Cell.isContainer])

theorem isTextKeyed_list (items : List Value) : IsTextKeyed (.list items) := fun _ heq => by
  cases heq

mutual

/-- The dictionaries that are made when data are written down have texts as keys. -/
theorem build_textKeyed : ∀ (t : Tree String) (h : Heap),
    Outcome (build .plain (t.mapKeys Key.ofText)) h (fun _ => Adds IsTextKeyed h)
      (Adds IsTextKeyed h)
  | .leaf v, h => by
    rw [Tree.mapKeys, build]
    obtain ⟨u, h', hrun, hc, -⟩ := settle_cells h v
    exact Outcome.of_ok hrun (.of_cells hc)
  | .list ts, h => by
    rw [Tree.mapKeys, build]
    exact Outcome.bind ((buildList_textKeyed ts h).mono
      (fun vs _ ha => ha.trans (.push (isTextKeyed_list vs))) fun _ => id)
  | .map ts, h => by
    rw [Tree.mapKeys, build]
    refine Outcome.bind ((buildEntries_textKeyed ts h).mono (fun es _ hes => ?_) fun _ => id)
    exact hes.1.trans (.push fun entries heq p hp => by cases heq; exact hes.2 p hp)

/-- `build_textKeyed`, item by item. -/
theorem buildList_textKeyed : ∀ (ts : List (Tree String)) (h : Heap),
    Outcome (buildList .plain (Tree.mapKeysList Key.ofText ts)) h (fun _ => Adds IsTextKeyed h)
      (Adds IsTextKeyed h)
  | [], h => .refl _ h
  | t :: ts, h => by
    rw [Tree.mapKeysList, buildList]
    refine Outcome.bind ((build_textKeyed t h).mono (fun _ h₁ ha => ?_) fun _ => id)
    exact Outcome.bind ((buildList_textKeyed ts h₁).mono (fun _ _ => ha.trans) fun _ => ha.trans)

/-- `build_textKeyed`, entry by entry. -/
theorem buildEntries_textKeyed : ∀ (ts : List (String × Tree String)) (h : Heap),
    Outcome (buildEntries .plain (Tree.mapKeysEntries Key.ofText ts)) h
      (fun es h' => Adds IsTextKeyed h h' ∧ ∀ p ∈ es, ∃ s mark, p.1 = .atom (.text s mark))
      (Adds IsTextKeyed h)
  | [], h => ⟨.refl _ h, fun _ hp => absurd hp List.not_mem_nil⟩
  | (name, t) :: ts, h => by
    rw [Tree.mapKeysEntries, buildEntries]
    have hkey : settleKey (Key.ofText name) h = .ok (Key.ofText name) h := rfl
    refine Outcome.bind (Outcome.of_ok hkey ?_)
    refine Outcome.bind ((build_textKeyed t h).mono (fun v h₁ ha => ?_) fun _ => id)
    refine Outcome.bind ((buildEntries_textKeyed ts h₁).mono (fun es h₂ hes => ?_) fun _ => ha.trans)
    exact ⟨ha.trans hes.1, List.forall_mem_cons.mpr ⟨⟨name, .shared, rfl⟩, hes.2⟩⟩

end

/-- Plain data that are written down are shown by new cells. -/
theorem buildText_shown (d : Datum) (h : Heap) :
    ∃ v h', buildText .plain d.tree h = .ok v h' ∧ Extends h h' ∧ h'.Shown h.Vacant d.tree v := by
  have hnamed : (d.tree.mapKeys Key.ofText).Named h.IsLeaf d.tree :=
    Tree.named_mapKeys (fun _ => isLeaf_of_isPlain) d.plain
  obtain ⟨v, h', hrun, he, hr⟩ := build_reads .plain hnamed d.distinct
  have hkeyed := (build_textKeyed d.tree h).result hrun
  exact ⟨v, h', hrun, he, hr.mono fun r hv => ⟨hv, textKeyed_of_adds hkeyed hv⟩, d.plain⟩

/-! ### Copying -/

/-- The copy of a cell with texts as keys has texts as keys. -/
theorem withCopies_textKeyed {copied : List Ref} (hc : ∀ r ∈ copied, h.TextKeyed r) :
    Adds IsTextKeyed h (h.withCopies copied) := by
  refine ⟨(withCopies_extends h copied).size_le, fun r c hr => ?_⟩
  rcases Nat.lt_or_ge r.index h.size with hlt | hge
  · exact .inr (((withCopies_extends h copied).read_eq r hlt).symm.trans hr)
  · obtain ⟨i, hi⟩ := Nat.exists_eq_add_of_le hge
    have hr' : (h.withCopies copied).read ⟨h.size + i⟩ = some c := by rw [← hi]; exact hr
    rw [read_withCopies] at hr'
    obtain ⟨s, hs, rfl⟩ := Option.map_eq_some_iff.mp hr'
    refine .inl fun entries heq p hp => ?_
    cases hread : h.read s with
    | none => rw [hread] at heq; cases heq
    | some c =>
      rw [hread] at heq
      cases c <;> cases heq
      -- a text is no address, so it is not renamed
      obtain ⟨q, hq, rfl⟩ := List.mem_map.mp hp
      obtain ⟨text, mark, hkey⟩ := hc s (List.mem_of_getElem? hs) _ hread _ rfl q hq
      exact ⟨text, mark, by rw [hkey]; rfl⟩

/-- A detached copy of plain data shows them in new cells. -/
theorem detach_shown (hs : h.Shown within t v) :
    ∃ w h', detach v h = .ok w h' ∧ Extends h h' ∧ h'.Shown h.Vacant t w := by
  obtain ⟨copied, hcopied, hrun, hr⟩ := detach_data hs.reads hs.plain
  have hkeyed := withCopies_textKeyed fun r hr => (hcopied r hr).2
  refine ⟨_, _, hrun, withCopies_extends h copied, hr.mono fun r hnew => ?_, hs.plain⟩
  exact ⟨vacant_of_size_le hnew, textKeyed_of_adds hkeyed (vacant_of_size_le hnew)⟩

end Heap

end PageMeta
