import PageMeta.Proofs.Heap.Building
import PageMeta.Proofs.Tree.Merge

/-!
# Places in a value

A place is told by the way to it: the names of the entries and the numbers of the items that lead
there.  Objects can stand in several places; what holds for a place holds for the object there.

## Key results

- `Reads.at?_agree`: heaps that agree on the cells that are opened have the same objects in place
- `Reads.opens`: what an attribute map shows depends on the cells of its places only
- `Reads.of_at?`: what stands in a place shows a tree
-/

namespace PageMeta.Heap

/-- One step down: to the entry of a name, or to an item. -/
inductive Branch where
  | entry (name : String)
  | item (index : Nat)
deriving DecidableEq, Repr

/-- The way through entries with these names. -/
abbrev through (names : List String) : List Branch := names.map .entry

/-- Entries with the texts of their keys as names. -/
def named (h : Heap) (entries : Entries Key Value) : Entries String Value :=
  entries.map fun p => (h.keyText p.1, p.2)

/-- The value one step down. -/
def child? (h : Heap) (view : View) (v : Value) : Branch → Option Value
  | .entry name => (h.entries? view v).bind fun entries => (h.named entries).get? name
  | .item index => (h.items? view v).bind fun items => items[index]?

/-- The value at a place. -/
def at? (h : Heap) (view : View) : Value → List Branch → Option Value
  | v, [] => some v
  | v, b :: way => (h.child? view v b).bind fun w => h.at? view w way

/-- Whether a cell is read to open what stands at some place of a value. -/
def Opens (h : Heap) (view : View) (v : Value) (r : Ref) : Prop :=
  ∃ way w, h.at? view v way = some w ∧ r ∈ h.own w

variable {h h' : Heap} {view : View} {within : Ref → Prop}

theorem at?_cons {v w : Value} {b : Branch} {way : List Branch}
    (hb : h.child? view v b = some w) : h.at? view v (b :: way) = h.at? view w way := by
  rw [at?, hb, Option.bind_some]

theorem at?_append {v : Value} (first second : List Branch) :
    h.at? view v (first ++ second) =
      (h.at? view v first).bind fun w => h.at? view w second := by
  induction first generalizing v with
  | nil => rfl
  | cons b way ih =>
    simp only [List.cons_append, at?]
    cases h.child? view v b with
    | none => rfl
    | some w => exact ih

theorem at?_singleton {v : Value} (b : Branch) : h.at? view v [b] = h.child? view v b := by
  simp only [at?]
  cases h.child? view v b <;> rfl

theorem opens_self {v : Value} {r : Ref} (hr : r ∈ h.own v) : h.Opens view v r :=
  ⟨[], v, rfl, hr⟩

/-- What is opened one step down is opened. -/
theorem Opens.of_child? {v w : Value} {b : Branch} {r : Ref} (hb : h.child? view v b = some w)
    (ho : h.Opens view w r) : h.Opens view v r := by
  obtain ⟨way, u, hu, hr⟩ := ho
  exact ⟨b :: way, u, by simp [at?, hb, hu], hr⟩

/-- A cell is opened at a value itself or one step down. -/
theorem Opens.cases {v : Value} {r : Ref} (ho : h.Opens view v r) :
    r ∈ h.own v ∨ ∃ b w, h.child? view v b = some w ∧ h.Opens view w r := by
  obtain ⟨way, u, hu, hr⟩ := ho
  cases way with
  | nil => cases hu; exact .inl hr
  | cons b way =>
    simp only [at?, Option.bind_eq_some_iff] at hu
    obtain ⟨w, hw, hu⟩ := hu
    exact .inr ⟨b, w, hw, way, u, hu, hr⟩

/-! ### Steps down in a reading -/

/-- Entries with the same keys texts have the same names. -/
theorem named_congr {es : Entries Key Value} (hk : ∀ p ∈ es, h'.keyText p.1 = h.keyText p.1) :
    h'.named es = h.named es :=
  List.map_congr_left fun p hp => congrArg (fun name => (name, p.2)) (hk p hp)

/-- Every key that is opened reads as a text. -/
theorem ReadsEntries.keyReads {ts : List (String × Tree String)} {es : Entries Key Value}
    (hr : h.ReadsEntries view within ts es) :
    ∀ p ∈ es, ∃ name, h.KeyReads view within p.1 name := by
  induction ts generalizing es with
  | nil => rw [ReadsEntries] at hr; simp [hr]
  | cons q ts ih =>
    obtain ⟨name, t⟩ := q
    obtain ⟨key, v, rest, rfl, hk, -, hrest⟩ := hr
    exact List.forall_mem_cons.mpr ⟨⟨name, hk⟩, ih hrest⟩

/-- Every value that is opened shows a tree. -/
theorem ReadsEntries.reads_of_mem {ts : List (String × Tree String)} {es : Entries Key Value}
    (hr : h.ReadsEntries view within ts es) : ∀ p ∈ es, ∃ t, h.Reads view within t p.2 := by
  induction ts generalizing es with
  | nil => rw [ReadsEntries] at hr; simp [hr]
  | cons q ts ih =>
    obtain ⟨name, t⟩ := q
    obtain ⟨key, v, rest, rfl, -, ht, hrest⟩ := hr
    exact List.forall_mem_cons.mpr ⟨⟨t, ht⟩, ih hrest⟩

/-- `ReadsEntries.reads_of_mem` for items. -/
theorem ReadsItems.reads_of_mem {ts : List (Tree String)} {vs : List Value}
    (hr : h.ReadsItems view within ts vs) : ∀ v ∈ vs, ∃ t, h.Reads view within t v := by
  induction ts generalizing vs with
  | nil => rw [ReadsItems] at hr; simp [hr]
  | cons t ts ih =>
    obtain ⟨v, rest, rfl, ht, hrest⟩ := hr
    exact List.forall_mem_cons.mpr ⟨⟨t, ht⟩, ih hrest⟩

/-- The names of entries do not change as long as the cells that are opened stay. -/
theorem ReadsEntries.named_agree {ts : List (String × Tree String)} {es : Entries Key Value}
    (hr : h.ReadsEntries view within ts es) (ha : Agree within h h') :
    h'.named es = h.named es := by
  refine named_congr fun p hp => ?_
  obtain ⟨name, hk⟩ := hr.keyReads p hp
  exact (hk.agree ha).keyText_eq.trans hk.keyText_eq.symm

/-- Under a name there is a tree exactly if there is a value, and the value shows the tree. -/
theorem ReadsEntries.get? {ts : List (String × Tree String)} {es : Entries Key Value}
    (hr : h.ReadsEntries view within ts es) (name : String) :
    (Entries.get? name ts = none ∧ (h.named es).get? name = none) ∨
      ∃ t v, Entries.get? name ts = some t ∧ (h.named es).get? name = some v ∧
        h.Reads view within t v := by
  have hm := readsEntries_iff.mp hr
  clear hr
  induction hm with
  | nil => exact .inl ⟨rfl, rfl⟩
  | @cons p q _ _ hpq _ ih =>
    obtain ⟨n, t⟩ := p
    obtain ⟨k, v⟩ := q
    have hk : h.keyText k = n := hpq.1.keyText_eq
    simp only [named, List.map_cons, Entries.get?, hk] at ih ⊢
    by_cases hn : (n == name) = true
    · simp only [hn, if_true]
      exact .inr ⟨t, v, rfl, rfl, hpq.2⟩
    · simpa only [hn, Bool.false_eq_true, if_false] using ih

/-- What stands one step down shows a lower tree. -/
theorem Reads.child?_lower {t : Tree String} {v w : Value} {b : Branch}
    (hr : h.Reads view within t v) (hb : h.child? view v b = some w) :
    ∃ u, u.height < t.height ∧ h.Reads view within u w := by
  cases b with
  | item index =>
    obtain ⟨items, hi, hb⟩ := Option.bind_eq_some_iff.mp hb
    obtain ⟨ts, rfl, hts⟩ := hr.list_of_items? hi
    have hm := readsItems_iff.mp hts
    obtain ⟨hlt, rfl⟩ := List.getElem?_eq_some_iff.mp hb
    have hlt' : index < ts.length := by rw [hm.length_eq]; exact hlt
    exact ⟨ts[index], Nat.lt_succ_of_le (Tree.height_le_heightList (List.getElem_mem hlt')),
      hm.get hlt' hlt⟩
  | entry name =>
    obtain ⟨entries, he, hb⟩ := Option.bind_eq_some_iff.mp hb
    obtain ⟨ts, rfl, -, hts⟩ := hr.map_of_entries? he
    rcases hts.get? name with ⟨-, hnone⟩ | ⟨u, w', hget, hsome, hu⟩
    · rw [hnone] at hb; cases hb
    · rw [hsome] at hb
      cases hb
      exact ⟨u, Nat.lt_succ_of_le (Tree.height_le_heightEntries (Entries.mem_of_get? hget)), hu⟩

/-- What stands one step down shows a tree. -/
theorem Reads.child? {t : Tree String} {v w : Value} {b : Branch}
    (hr : h.Reads view within t v) (hb : h.child? view v b = some w) :
    ∃ u, h.Reads view within u w :=
  (hr.child?_lower hb).imp fun _ => And.right

/-- What stands in a place shows a tree. -/
theorem Reads.of_at? {t : Tree String} {v w : Value} {way : List Branch}
    (hr : h.Reads view within t v) (hw : h.at? view v way = some w) :
    ∃ u, h.Reads view within u w := by
  induction way generalizing t v with
  | nil => cases hw; exact ⟨t, hr⟩
  | cons b way ih =>
    simp only [Heap.at?, Option.bind_eq_some_iff] at hw
    obtain ⟨x, hx, hw⟩ := hw
    obtain ⟨u, hu⟩ := hr.child? hx
    exact ih hu hw

/-- The cells that are opened in a reading are there. -/
theorem Reads.opens_lt {t : Tree String} {v : Value} (hr : h.Reads view within t v) {r : Ref}
    (ho : h.Opens view v r) : r.index < h.size := by
  obtain ⟨way, w, hw, hown⟩ := ho
  obtain ⟨u, hu⟩ := hr.of_at? hw
  exact hu.own_lt r hown

/-- The step down to an entry of a map. -/
theorem Reads.child?_entry {ts : List (String × Tree String)} {v : Value}
    (hr : h.Reads view within (.map ts) v) (name : String) :
    (Entries.get? name ts = none ∧ h.child? view v (.entry name) = none) ∨
      ∃ t w, Entries.get? name ts = some t ∧ h.child? view v (.entry name) = some w ∧
        h.Reads view within t w := by
  obtain ⟨entries, hi, -, -, hts⟩ := hr
  simp only [Heap.child?, hi, Option.bind_some]
  exact hts.get? name

/-- The cells of a reading are those it may open. -/
theorem Reads.own_within {t : Tree String} {v : Value} (hr : h.Reads view within t v) :
    ∀ r ∈ h.own v, within r := by
  cases t with
  | leaf x => exact hr.2.2
  | list us => obtain ⟨_, _, ho, -⟩ := hr; exact ho
  | map us => obtain ⟨_, _, ho, -⟩ := hr; exact ho

/-- Heaps that agree on the cells that are opened have the same values one step down. -/
theorem Reads.child?_agree {t : Tree String} {v : Value} (hr : h.Reads view within t v)
    (ha : Agree within h h') (b : Branch) : h'.child? view v b = h.child? view v b := by
  cases b with
  | item index => rw [Heap.child?, Heap.child?, items?_agree ha hr.own_within]
  | entry name =>
    rw [Heap.child?, Heap.child?, entries?_agree ha hr.own_within]
    cases he : h.entries? view v with
    | none => rw [Option.bind_none, Option.bind_none]
    | some entries =>
      -- the names of the entries are texts of keys, which the heaps have in common as well
      obtain ⟨ts, rfl, -, hts⟩ := hr.map_of_entries? he
      rw [Option.bind_some, Option.bind_some, hts.named_agree ha]

/-- What has the same values one step down, wherever one is, has the same values in place. -/
theorem Reads.at?_congr {t : Tree String} {v : Value} {other : View}
    (hstep : ∀ t v, h.Reads view within t v → ∀ b, h'.child? other v b = h.child? view v b)
    (hr : h.Reads view within t v) (way : List Branch) : h'.at? other v way = h.at? view v way := by
  induction way generalizing t v with
  | nil => rfl
  | cons b way ih =>
    rw [Heap.at?, Heap.at?, hstep t v hr b]
    cases hb : h.child? view v b with
    | none => rw [Option.bind_none, Option.bind_none]
    | some w =>
      obtain ⟨u, hu⟩ := hr.child? hb
      rw [Option.bind_some, Option.bind_some]
      exact ih hu

/-- Heaps that agree on the cells that are opened have the same values in place. -/
theorem Reads.at?_agree {t : Tree String} {v : Value} (hr : h.Reads view within t v)
    (ha : Agree within h h') (way : List Branch) : h'.at? view v way = h.at? view v way :=
  hr.at?_congr (fun _ _ hr => hr.child?_agree ha) way

/-- Among texts, a name is looked up as the key is. -/
theorem get?_named {es : Entries Key Value} (ht : ∀ p ∈ es, ∃ s, p.1.text? = some s) {key : Key}
    {name : String} (hk : key.text? = some name) :
    Entries.get? name (h.named es) = Entries.get? key es := by
  induction es with
  | nil => rfl
  | cons p rest ih =>
    obtain ⟨k, v⟩ := p
    obtain ⟨⟨s, hs⟩, hrest⟩ := List.forall_mem_cons.mp ht
    have htail := ih hrest
    simp only [named, List.map_cons, Entries.get?] at htail ⊢
    rw [keyText_of_text? hs, Key.beq_of_text? hs hk, htail]

/-! ### Maps among what is shown -/

/-- A tree is a map exactly if the value is opened as one. -/
theorem Reads.isMap_iff {t : Tree String} {v : Value} (hr : h.Reads view within t v) :
    t.isMap = true ↔ (h.entries? view v).isSome := by
  cases t with
  | leaf w => simp [Tree.isMap, hr.2.1.entries?_eq_none]
  | list ts =>
    obtain ⟨items, hi, -⟩ := hr
    simp [Tree.isMap, entries?_eq_none_of_items? hi]
  | map ts =>
    obtain ⟨entries, he, -⟩ := hr
    simp [Tree.isMap, he]

/-- What an attribute map holds is an attribute map exactly if it is opened as one. -/
theorem Reads.isMap_stored {t : Tree String} {v : Value} (hr : h.Reads .stored within t v) :
    h.isMap v = true ↔ (h.entries? .stored v).isSome := by
  constructor
  · intro hm
    obtain ⟨data, hc⟩ : ∃ data, h.cell? v = some (.map data) := by
      unfold isMap at hm
      split at hm
      · rename_i data hc; exact ⟨data, hc⟩
      · cases hm
    -- a map is opened, so it is shown neither as a scalar nor as a list
    cases t with
    | leaf w =>
      cases v with
      | ref r =>
        obtain ⟨c, hr', hn⟩ := hr.2.1.2 r rfl
        rw [show h.cell? (.ref r) = h.read r from rfl, hr'] at hc
        cases hc
        cases hn
      | _ => cases hc
    | list ts => obtain ⟨items, hi, -⟩ := hr; simp [items?, hc] at hi
    | map ts => obtain ⟨entries, he, -⟩ := hr; simp [he]
  · intro he
    obtain ⟨entries, he⟩ := Option.isSome_iff_exists.mp he
    obtain ⟨r, rfl, ⟨-, hv⟩ | ⟨d, hr', -⟩⟩ := cell_of_entries? he
    · exact absurd rfl hv
    · simp [isMap, cell?, hr']

/-- What is handed in is a mapping exactly if it is opened as one. -/
theorem Reads.mapping?_given {t : Tree String} {v : Value} (hr : h.Reads .given within t v) :
    (h.mapping? v).isSome ↔ (h.entries? .given v).isSome := by
  constructor
  · intro hm
    cases t with
    | leaf w =>
      cases v with
      | ref r =>
        obtain ⟨c, hr', hn⟩ := hr.2.1.2 r rfl
        cases c <;> first | (cases hn; done) | simp [mapping?, dict?, depth, dictTo, hr'] at hm
      | _ => simp [mapping?] at hm
    | list ts =>
      obtain ⟨items, hi, -⟩ := hr
      obtain ⟨r, rfl, -⟩ := ref_of_items? hi
      unfold items? cell? at hi
      split at hi <;> rename_i hr' <;> simp [mapping?, dict?, depth, dictTo, hr'] at hm hi
    | map ts => obtain ⟨entries, he, -⟩ := hr; simp [he]
  · intro he
    obtain ⟨entries, he⟩ := Option.isSome_iff_exists.mp he
    obtain ⟨r, rfl, -⟩ := ref_of_entries? he
    obtain ⟨d, hd⟩ := dict?_of_entries? he
    simp [mapping?, hd]

/-! ### The cells that are opened -/

/-- Whether the text of every key in a value depends on some cells only. -/
def KeysRead (h : Heap) (view : View) (texts : Ref → Prop) (v : Value) : Prop :=
  ∀ way w entries, h.at? view v way = some w → h.entries? view w = some entries →
    ∀ p ∈ entries, h.KeyReads view texts p.1 (h.keyText p.1)

theorem KeysRead.child? {texts : Ref → Prop} {v w : Value} {b : Branch}
    (hk : h.KeysRead view texts v) (hb : h.child? view v b = some w) : h.KeysRead view texts w :=
  fun way u entries hu he => hk (b :: way) u entries (by rw [at?, hb, Option.bind_some, hu]) he

theorem KeysRead.of_ne_given {texts wider : Ref → Prop} {v : Value} (hv : view ≠ .given)
    (hk : h.KeysRead view texts v) : h.KeysRead view wider v :=
  fun way w entries hw he p hp => (hk way w entries hw he p hp).of_ne_given hv

/-- The texts of the keys of what is read depend on the cells that are opened at most. -/
theorem Reads.keysRead {t : Tree String} {v : Value} (hr : h.Reads view within t v) :
    h.KeysRead view within v := by
  intro way w entries hw he p hp
  obtain ⟨u, hu⟩ := hr.of_at? hw
  obtain ⟨us, rfl, -, hus⟩ := hu.map_of_entries? he
  obtain ⟨name, hk⟩ := hus.keyReads p hp
  have hname := hk.keyText_eq
  subst hname
  exact hk

/-- Entries that show a tree have its names. -/
theorem ReadsEntries.keys_named {ts : List (String × Tree String)} {es : Entries Key Value}
    (hr : h.ReadsEntries view within ts es) : Entries.keys (h.named es) = Entries.keys ts := by
  induction ts generalizing es with
  | nil => rw [ReadsEntries] at hr; rw [hr]; rfl
  | cons q ts ih =>
    obtain ⟨name, t⟩ := q
    obtain ⟨key, w, rest, rfl, hk, -, hrest⟩ := hr
    have htail := ih hrest
    simp only [Entries.keys, named, List.map_cons, hk.keyText_eq] at htail ⊢
    rw [htail]

/-- What stands under a key of a map that has each name once is one step down. -/
theorem ReadsEntries.child?_of_mem {ts : List (String × Tree String)} {es : Entries Key Value}
    {v : Value} (hi : h.entries? view v = some es) (hr : h.ReadsEntries view within ts es)
    (hn : (Entries.keys ts).Nodup) :
    ∀ p ∈ es, h.child? view v (.entry (h.keyText p.1)) = some p.2 := by
  intro p hp
  rw [Heap.child?, hi, Option.bind_some]
  refine Entries.get?_of_mem (by rw [hr.keys_named]; exact hn) ?_
  exact List.mem_map_of_mem (f := fun p => (h.keyText p.1, p.2)) hp

mutual

/-- What a value shows that has each name once depends on the cells of its places, and on those
that its keys are texts of. -/
theorem Reads.opens {texts : Ref → Prop} : ∀ {t : Tree String} {v : Value},
    h.Reads view within t v → t.Distinct → h.KeysRead view texts v →
      h.Reads view (fun r => h.Opens view v r ∨ texts r) t v
  | .leaf _, _, ⟨he, hl, _⟩, _, _ => ⟨he, hl, fun _ hr => .inl (opens_self hr)⟩
  | .list _, v, ⟨items, hi, _, hr⟩, hd, hk => by
    have hchild : ∀ w ∈ items, ∃ b, h.child? view v b = some w := fun w hw => by
      obtain ⟨index, hindex⟩ := List.getElem?_of_mem hw
      exact ⟨.item index, by rw [Heap.child?, hi, Option.bind_some, hindex]⟩
    have hkeys : ∀ w ∈ items, h.KeysRead view texts w := fun w hw => by
      obtain ⟨b, hb⟩ := hchild w hw
      exact hk.child? hb
    refine ⟨items, hi, fun _ hr => .inl (opens_self hr), ReadsItems.opens hr hd hkeys ?_⟩
    intro w hw r ho
    obtain ⟨b, hb⟩ := hchild w hw
    exact ho.imp_left (Opens.of_child? hb)
  | .map _, v, ⟨entries, hi, _, ha, hr⟩, hd, hk => by
    have hchild := hr.child?_of_mem hi hd.1
    have hkeys : ∀ p ∈ entries, h.KeysRead view texts p.2 := fun p hp => hk.child? (hchild p hp)
    refine ⟨entries, hi, fun _ hr => .inl (opens_self hr), ha,
      ReadsEntries.opens hr hd.2 (fun p hp => ?_) hkeys fun p hp r ho => ?_⟩
    · exact (hk [] v entries rfl hi p hp).mono fun _ hr => .inr hr
    · exact ho.imp_left (Opens.of_child? (hchild p hp))

/-- `Reads.opens`, item by item. -/
theorem ReadsItems.opens {texts wider : Ref → Prop} :
    ∀ {ts : List (Tree String)} {vs : List Value},
    h.ReadsItems view within ts vs → Tree.DistinctList ts →
      (∀ w ∈ vs, h.KeysRead view texts w) →
      (∀ w ∈ vs, ∀ r, h.Opens view w r ∨ texts r → wider r) →
      h.ReadsItems view wider ts vs
  | [], _, hr, _, _, _ => hr
  | _ :: _, _, ⟨v, rest, he, ht, hr⟩, hd, hk, hw => by
    subst he
    exact ⟨v, rest, rfl, (ht.opens hd.1 (hk v List.mem_cons_self)).mono (hw v List.mem_cons_self),
      ReadsItems.opens hr hd.2 (fun w hm => hk w (List.mem_cons_of_mem _ hm))
        fun w hm => hw w (List.mem_cons_of_mem _ hm)⟩

/-- `Reads.opens`, entry by entry. -/
theorem ReadsEntries.opens {texts wider : Ref → Prop} :
    ∀ {ts : List (String × Tree String)} {es : Entries Key Value},
    h.ReadsEntries view within ts es → Tree.DistinctEntries ts →
      (∀ p ∈ es, h.KeyReads view wider p.1 (h.keyText p.1)) →
      (∀ p ∈ es, h.KeysRead view texts p.2) →
      (∀ p ∈ es, ∀ r, h.Opens view p.2 r ∨ texts r → wider r) →
      h.ReadsEntries view wider ts es
  | [], _, hr, _, _, _, _ => hr
  | (_, _) :: _, _, ⟨key, v, rest, he, hname, ht, hr⟩, hd, hn, hk, hw => by
    subst he
    have hkey := hn (key, v) List.mem_cons_self
    rw [hname.keyText_eq] at hkey
    exact ⟨key, v, rest, rfl, hkey,
      (ht.opens hd.1 (hk (key, v) List.mem_cons_self)).mono (hw (key, v) List.mem_cons_self),
      ReadsEntries.opens hr hd.2 (fun p hm => hn p (List.mem_cons_of_mem _ hm))
        (fun p hm => hk p (List.mem_cons_of_mem _ hm))
        fun p hm => hw p (List.mem_cons_of_mem _ hm)⟩

end

/-- What an attribute map or plain data show depends on the cells of their places only. -/
theorem Reads.opened {t : Tree String} {v : Value} (hv : view ≠ .given)
    (hr : h.Reads view within t v) : h.Reads view (h.Opens view v) t v := by
  have hkeys : h.KeysRead view (fun _ => False) v := hr.keysRead.of_ne_given hv
  exact (hr.opens (hr.distinct hv) hkeys).mono fun r hr => hr.resolve_right id

/-! ### Places of what is handed in -/

/-- What shows a tree in some view is opened in the same way when it is handed in. -/
theorem Reads.items?_given_eq {t : Tree String} {v : Value} (hr : h.Reads view within t v) :
    h.items? .given v = h.items? view v := by
  cases hi : h.items? view v with
  | some items => exact items?_given hi
  | none =>
    cases t with
    | leaf u => exact hr.2.1.items?_eq_none
    | list ts => obtain ⟨items, hi', -⟩ := hr; rw [hi] at hi'; cases hi'
    | map ts =>
      obtain ⟨entries, he, -⟩ := hr
      cases hg : h.items? .given v with
      | none => rfl
      | some items =>
        have hnone := entries?_eq_none_of_items? hg
        rw [entries?_given he] at hnone
        cases hnone

theorem Reads.entries?_given_eq {t : Tree String} {v : Value} (hr : h.Reads view within t v) :
    h.entries? .given v = h.entries? view v := by
  cases he : h.entries? view v with
  | some entries => exact entries?_given he
  | none =>
    cases t with
    | leaf u => exact hr.2.1.entries?_eq_none
    | list ts => obtain ⟨items, hi, -⟩ := hr; exact entries?_eq_none_of_items? (items?_given hi)
    | map ts => obtain ⟨entries, he', -⟩ := hr; rw [he] at he'; cases he'

theorem Reads.child?_given {t : Tree String} {v : Value} (hr : h.Reads view within t v)
    (b : Branch) : h.child? .given v b = h.child? view v b := by
  cases b with
  | item index => rw [Heap.child?, Heap.child?, hr.items?_given_eq]
  | entry name => rw [Heap.child?, Heap.child?, hr.entries?_given_eq]

theorem Reads.at?_given {t : Tree String} {v : Value} (hr : h.Reads view within t v)
    (way : List Branch) : h.at? .given v way = h.at? view v way :=
  hr.at?_congr (fun _ _ hr => hr.child?_given) way

/-- The keys of an attribute map or plain data have the same texts when they are handed in. -/
theorem Reads.keysRead_given {t : Tree String} {v : Value} (hv : view ≠ .given)
    (hr : h.Reads view within t v) : h.KeysRead .given wider v := by
  intro way w entries hw he p hp
  rw [hr.at?_given] at hw
  obtain ⟨u, hu⟩ := hr.of_at? hw
  rw [hu.entries?_given_eq] at he
  exact ((hr.keysRead way w entries hw he p hp).of_ne_given hv).given

/-- An attribute map or plain data have each text once among the keys of every level. -/
theorem Reads.nodup_given {t : Tree String} {v w : Value} (hv : view ≠ .given)
    (hr : h.Reads view within t v) {way : List Branch} {entries : Entries Key Value}
    (hw : h.at? .given v way = some w) (he : h.entries? .given w = some entries) :
    (Entries.keys (h.named entries)).Nodup := by
  rw [hr.at?_given] at hw
  obtain ⟨u, hu⟩ := hr.of_at? hw
  have hd := hu.distinct hv
  rw [hu.entries?_given_eq] at he
  obtain ⟨us, rfl, -, hus⟩ := hu.map_of_entries? he
  rw [hus.keys_named]
  exact hd.1

end PageMeta.Heap
