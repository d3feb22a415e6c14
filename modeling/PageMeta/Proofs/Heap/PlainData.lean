import PageMeta.Proofs.Heap.Keeping
import PageMeta.Proofs.Tree.Leaves

/-!
# Plain data in the heap

Plain data are scalars, lists and dictionaries with texts as keys.  They stay as they are while maps
are written, since no map keeps its entries in a dictionary of theirs; and a map that holds plain
data holds plain data after plain data were stored in it, or in a map in it.

## Key results

- `Lasts`: what storing plain data in maps keeps
- `Grows.lasts`, `store_lasts`: new cells and new entries keep it
- `unwrap_data`: a map is written out as plain data of its own
-/

namespace PageMeta

namespace Tree

mutual

/-- A tree with names has the names as keys once they are made keys. -/
theorem named_mapKeys {p : Value → Bool} {P : Value → Prop} (hp : ∀ v, p v = true → P v) :
    ∀ {t : Tree String}, t.allLeaves p = true → (t.mapKeys Key.ofText).Named P t
  | .leaf v, ht => ⟨rfl, hp v ht⟩
  | .list ts, ht => ⟨ts, rfl, namedItems_mapKeys hp ht⟩
  | .map ts, ht => ⟨ts, rfl, namedEntries_mapKeys hp ht⟩

/-- `named_mapKeys`, item by item. -/
theorem namedItems_mapKeys {p : Value → Bool} {P : Value → Prop} (hp : ∀ v, p v = true → P v) :
    ∀ {ts : List (Tree String)}, allLeavesList p ts = true →
      NamedItems P (mapKeysList Key.ofText ts) ts
  | [], _ => rfl
  | t :: ts, ht => by
    rw [allLeavesList, Bool.and_eq_true] at ht
    exact ⟨t, ts, rfl, named_mapKeys hp ht.1, namedItems_mapKeys hp ht.2⟩

/-- `named_mapKeys`, entry by entry. -/
theorem namedEntries_mapKeys {p : Value → Bool} {P : Value → Prop} (hp : ∀ v, p v = true → P v) :
    ∀ {ts : List (String × Tree String)}, allLeavesEntries p ts = true →
      NamedEntries P (mapKeysEntries Key.ofText ts) ts
  | [], _ => rfl
  | (name, t) :: ts, ht => by
    rw [allLeavesEntries, Bool.and_eq_true] at ht
    exact ⟨name, t, ts, rfl, rfl, named_mapKeys hp ht.1, namedEntries_mapKeys hp ht.2⟩

end

/-- Whether a tree is that of the absent value. -/
def isAbsent : Tree String → Bool
  | .leaf v => v.isNone
  | _ => false

end Tree

namespace Heap

/-- Whether no attribute map keeps its entries in a cell. -/
def Free (h : Heap) (r : Ref) : Prop := ∀ m, h.read m ≠ some (.map (.ref r))

/-- Whether a value is plain data of its own that show a tree. -/
structure IsData (h : Heap) (t : Tree String) (v : Value) : Prop where
  reads : h.Reads .plain h.Free t v
  plain : t.isPlain = true

/-- Whether a value that a map can hold shows plain data. -/
structure IsContent (h : Heap) (t : Tree String) (v : Value) : Prop where
  reads : h.Reads .stored (fun _ => True) t v
  plain : t.isPlain = true

variable {h h' : Heap} {view : View} {within : Ref → Prop} {t : Tree String} {v w : Value}

theorem isLeaf_of_isPlain (hv : v.isPlain = true) : h.IsLeaf v := by
  cases v <;> first | (cases hv; done) | exact ⟨hv, fun _ he => by cases he⟩

/-! ### Readings of plain data -/

/-- An item of what shows a list shows an item of the list. -/
theorem ReadsItems.exists_mem {ts : List (Tree String)} {vs : List Value}
    (hr : h.ReadsItems view within ts vs) : ∀ v ∈ vs, ∃ t ∈ ts, h.Reads view within t v := by
  induction ts generalizing vs with
  | nil => rw [ReadsItems] at hr; simp [hr]
  | cons t ts ih =>
    obtain ⟨v, rest, rfl, ht, hrest⟩ := hr
    refine List.forall_mem_cons.mpr ⟨⟨t, List.mem_cons_self, ht⟩, fun w hw => ?_⟩
    obtain ⟨u, hu, hwu⟩ := ih hrest w hw
    exact ⟨u, List.mem_cons_of_mem _ hu, hwu⟩

/-- An entry of what shows a map shows an entry of the map. -/
theorem ReadsEntries.exists_mem {ts : List (String × Tree String)} {es : Entries Key Value}
    (hr : h.ReadsEntries view within ts es) :
    ∀ p ∈ es, ∃ q ∈ ts, h.KeyReads view within p.1 q.1 ∧ h.Reads view within q.2 p.2 := by
  induction ts generalizing es with
  | nil => rw [ReadsEntries] at hr; simp [hr]
  | cons q ts ih =>
    obtain ⟨name, t⟩ := q
    obtain ⟨key, v, rest, rfl, hk, ht, hrest⟩ := hr
    refine List.forall_mem_cons.mpr ⟨⟨(name, t), List.mem_cons_self, hk, ht⟩, fun p hp => ?_⟩
    obtain ⟨q, hq, hpq⟩ := ih hrest p hp
    exact ⟨q, List.mem_cons_of_mem _ hq, hpq⟩

/-- What stands under a text shows what the tree has under it; if there is nothing, that is the absent
value on both sides. -/
theorem Reads.getD (hv : view ≠ .given) {ts : List (String × Tree String)} {r : Ref}
    (hr : h.Reads view within (.map ts) (.ref r)) (key : String) :
    h.Reads view within ((Entries.get? key ts).getD (.leaf .none))
      (((h.entriesAt r).get? (Key.ofText key)).getD .none) := by
  obtain ⟨entries, he, -, -, hentries⟩ := hr
  rw [entriesAt_of_entries? he]
  rcases (hentries.matched hv).get? (show (Key.ofText key).text? = some key from rfl) with
    ⟨hnone, hget⟩ | ⟨u, v, hsome, hget, hread⟩
  · rw [hnone, hget]
    exact ⟨rfl, ⟨rfl, fun r heq => by cases heq⟩, fun r hr => by cases hr⟩
  · rw [hsome, hget]
    exact hread

/-- A value is absent exactly if it shows what is absent. -/
theorem Reads.isNone_eq (hr : h.Reads view within t v) : v.isNone = t.isAbsent := by
  cases t with
  | leaf x => rw [hr.1]; rfl
  | list ts =>
    obtain ⟨items, hi, -⟩ := hr
    obtain ⟨r, rfl, -⟩ := ref_of_items? hi
    rfl
  | map ts =>
    obtain ⟨entries, he, -⟩ := hr
    obtain ⟨r, rfl, -⟩ := ref_of_entries? he
    rfl

theorem not_vacant_of_read {r : Ref} {c : Cell} (hr : h.read r = some c)
    (hc : c.isContainer = true) : ¬ h.Vacant r := fun hv => by
  rw [hv c hr] at hc
  cases hc

theorem own_occupied_of_items? {items : List Value} (hi : h.items? view v = some items) :
    ∀ r ∈ h.own v, ¬ h.Vacant r := by
  obtain ⟨r, rfl, -⟩ := ref_of_items? hi
  unfold items? cell? at hi
  split at hi
  · rename_i hr
    simpa [own, hr, Cell.backing?] using not_vacant_of_read hr rfl
  · rename_i hr
    simpa [own, hr, Cell.backing?] using not_vacant_of_read hr rfl
  · cases hi

theorem own_occupied_of_entries? {entries : Entries Key Value}
    (he : h.entries? view v = some entries) : ∀ r ∈ h.own v, ¬ h.Vacant r := by
  obtain ⟨r, rfl, ⟨hr, -⟩ | ⟨d, hr, hd, -⟩⟩ := cell_of_entries? he
  · simpa [own, hr, Cell.backing?] using not_vacant_of_read hr rfl
  · simpa [own, hr, Cell.backing?] using
      And.intro (not_vacant_of_read hr rfl) (not_vacant_of_read hd rfl)

mutual

/-- What every value in plain data is known of its cells is known of all cells that are opened. -/
theorem Reads.and {Q : Ref → Prop} (hv : view ≠ .given) (hq : ∀ u w, h.Reads view within u w →
    u.isPlain = true → ∀ r ∈ h.own w, Q r) : ∀ {t : Tree String} {v : Value},
    h.Reads view within t v → t.isPlain = true → h.Reads view (fun r => within r ∧ Q r) t v
  | .leaf _, _, hr@⟨he, hl, ho⟩, hp => ⟨he, hl, fun r hown => ⟨ho r hown, hq _ _ hr hp r hown⟩⟩
  | .list _, _, hread@⟨items, hi, ho, hr⟩, hp =>
    ⟨items, hi, fun r hown => ⟨ho r hown, hq _ _ hread hp r hown⟩, ReadsItems.and hv hq hr hp⟩
  | .map _, _, hread@⟨entries, he, ho, ha, hr⟩, hp =>
    ⟨entries, he, fun r hown => ⟨ho r hown, hq _ _ hread hp r hown⟩, ha,
      ReadsEntries.and hv hq hr hp⟩

/-- `Reads.and`, item by item. -/
theorem ReadsItems.and {Q : Ref → Prop} (hv : view ≠ .given) (hq : ∀ u w,
    h.Reads view within u w → u.isPlain = true → ∀ r ∈ h.own w, Q r) :
    ∀ {ts : List (Tree String)} {vs : List Value}, h.ReadsItems view within ts vs →
      Tree.allLeavesList Value.isPlain ts = true →
      h.ReadsItems view (fun r => within r ∧ Q r) ts vs
  | [], _, hr, _ => hr
  | t :: ts, _, ⟨v, rest, he, ht, hr⟩, hp => by
    rw [Tree.allLeavesList, Bool.and_eq_true] at hp
    exact ⟨v, rest, he, ht.and hv hq hp.1, ReadsItems.and hv hq hr hp.2⟩

/-- `Reads.and`, entry by entry. -/
theorem ReadsEntries.and {Q : Ref → Prop} (hv : view ≠ .given) (hq : ∀ u w,
    h.Reads view within u w → u.isPlain = true → ∀ r ∈ h.own w, Q r) :
    ∀ {ts : List (String × Tree String)} {es : Entries Key Value},
      h.ReadsEntries view within ts es → Tree.allLeavesEntries Value.isPlain ts = true →
      h.ReadsEntries view (fun r => within r ∧ Q r) ts es
  | [], _, hr, _ => hr
  | (name, t) :: ts, _, ⟨key, v, rest, he, hk, ht, hr⟩, hp => by
    rw [Tree.allLeavesEntries, Bool.and_eq_true] at hp
    exact ⟨key, v, rest, he, hk.of_ne_given hv, ht.and hv hq hp.1, ReadsEntries.and hv hq hr hp.2⟩

end

/-- Plain data consist of lists and dictionaries: no cell that is opened is vacant. -/
theorem Reads.occupied (hv : view ≠ .given) (hr : h.Reads view within t v)
    (hp : t.isPlain = true) : h.Reads view (fun r => within r ∧ ¬ h.Vacant r) t v := by
  refine hr.and hv (fun u w hu hpu r hown => ?_) hp
  cases u with
  | leaf x =>
    obtain ⟨rfl, -⟩ := hu
    cases w <;> first | (cases hpu; done) | cases hown
  | list us => obtain ⟨items, hi, -⟩ := hu; exact own_occupied_of_items? hi r hown
  | map us => obtain ⟨entries, he, -⟩ := hu; exact own_occupied_of_entries? he r hown

namespace IsData

/-- Plain data are no map. -/
theorem not_isMap (hd : IsData h t v) : h.isMap v = false := by
  obtain ⟨hr, hp⟩ := hd
  cases t with
  | leaf u =>
    obtain ⟨rfl, -⟩ := hr
    cases v <;> first | (cases hp; done) | rfl
  | list ts =>
    obtain ⟨items, hi, -⟩ := hr
    unfold items? at hi
    split at hi <;> simp_all [isMap]
  | map ts =>
    obtain ⟨entries, he, -⟩ := hr
    unfold entries? at he
    split at he <;> simp_all [isMap]

/-- What is found in a dictionary of plain data are plain data. -/
theorem of_entriesAt {r : Ref} (hd : IsData h t (.ref r)) :
    ∀ p ∈ h.entriesAt r, ∃ u, IsData h u p.2 := by
  intro p hp
  obtain ⟨hr, hplain⟩ := hd
  cases t with
  | leaf u =>
    obtain ⟨rfl, -⟩ := hr
    cases hplain
  | list ts =>
    obtain ⟨items, hi, -⟩ := hr
    have hread : h.read r = some (.list items) := read_of_items? (by decide) hi
    simp [entriesAt, dict?, depth, dictTo, hread] at hp
  | map ts =>
    obtain ⟨entries, he, -, -, hts⟩ := hr
    rw [entriesAt_of_entries? he] at hp
    obtain ⟨q, hq, -, hread⟩ := hts.exists_mem p hp
    exact ⟨q.2, hread, Tree.allLeavesEntries_iff.mp hplain q hq⟩

/-- A dictionary of plain data shows a map of plain data. -/
theorem match_of_dict {r : Ref} {es : Entries Key Value} (hd : IsData h t (.ref r))
    (hr : h.read r = some (.dict es)) :
    ∃ ts, t = .map ts ∧ Entries.Match (fun _ t v => IsData h t v) ts es := by
  have he : h.entries? .plain (.ref r) = some es := by simp [entries?, cell?, hr]
  obtain ⟨hread, hp⟩ := hd
  obtain ⟨ts, rfl, -, hts⟩ := hread.map_of_entries? he
  have hm : Entries.Match (fun _ t v => h.Reads .plain h.Free t v) ts es := readsEntries_iff.mp hts
  exact ⟨ts, rfl, hm.imp_mem fun q hq _ _ _ hread =>
    ⟨hread, Tree.allLeavesEntries_iff.mp hp q hq⟩⟩

/-- A list of plain data shows a list of plain data. -/
theorem items_of_list {r : Ref} {items : List Value} (hd : IsData h t (.ref r))
    (hr : h.read r = some (.list items)) :
    ∃ ts, t = .list ts ∧ h.ReadsItems .plain h.Free ts items := by
  have hi : h.items? .plain (.ref r) = some items := by simp [items?, cell?, hr]
  exact hd.1.list_of_items? hi

/-- A scalar is plain data wherever it is. -/
theorem of_isPlain (hv : v.isPlain = true) : IsData h (.leaf v) v := by
  refine ⟨⟨rfl, isLeaf_of_isPlain hv, fun r hr => ?_⟩, hv⟩
  cases v <;> first | (cases hv; done) | cases hr

end IsData

/-! ### Storing plain data -/

/-- A later heap in which maps were written: it is sound, it has all the maps there were, every cell
that belongs to no map is as it was, and what showed plain data still does. -/
structure Lasts (h h' : Heap) : Prop extends Keeps h h' where
  free : ∀ r, r.index < h.size → h.Free r → h'.read r = h.read r ∧ h'.Free r
  content : ∀ t v, IsContent h t v → ∃ t', IsContent h' t' v

theorem Lasts.refl (hs : h.Sound) : Lasts h h :=
  ⟨.refl hs, fun _ _ hf => ⟨rfl, hf⟩, fun t _ hc => ⟨t, hc⟩⟩

theorem Lasts.trans {h'' : Heap} (h₁ : Lasts h h') (h₂ : Lasts h' h'') : Lasts h h'' where
  toKeeps := h₁.toKeeps.trans h₂.toKeeps
  free r hr hf := by
    obtain ⟨hread, hf'⟩ := h₁.free r hr hf
    obtain ⟨hread', hf''⟩ := h₂.free r (Nat.lt_of_lt_of_le hr h₁.size_le) hf'
    exact ⟨hread'.trans hread, hf''⟩
  content t v hc := by
    obtain ⟨t', hc'⟩ := h₁.content t v hc
    exact h₂.content t' v hc'

/-- The free cells that are there are as they were. -/
theorem Lasts.agree (hl : Lasts h h') : Agree (fun r => h.Free r ∧ r.index < h.size) h h' :=
  ⟨hl.size_le, fun r hr => (hl.free r hr.2 hr.1).1⟩

/-- Plain data stay as they are. -/
theorem Lasts.reads {P : Ref → Prop} (hl : Lasts h h')
    (hr : h.Reads .plain (fun r => h.Free r ∧ P r) t v) :
    h'.Reads .plain (fun r => h'.Free r ∧ P r) t v := by
  have hagree := hr.allocated.agree (hl.agree.mono fun r hr => ⟨hr.1.1, hr.2⟩)
  exact hagree.mono fun r hr => ⟨(hl.free r hr.2 hr.1.1).2, hr.1.2⟩

theorem IsData.lasts (hd : IsData h t v) (hl : Lasts h h') : IsData h' t v :=
  ⟨(hl.reads (hd.reads.mono fun _ hr => ⟨hr, trivial⟩)).mono fun _ hr => hr.1, hd.plain⟩

theorem Lasts.readsItems {ts : List (Tree String)} {vs : List Value} (hl : Lasts h h')
    (hr : h.ReadsItems .plain h.Free ts vs) : h'.ReadsItems .plain h'.Free ts vs :=
  ReadsItems.mono (fun r hr => (hl.free r hr.2 hr.1).2) (ReadsItems.agree hl.agree hr.allocated)

theorem Lasts.readsEntries {ts : List (String × Tree String)} {es : Entries Key Value}
    (hl : Lasts h h') (hr : h.ReadsEntries .plain h.Free ts es) :
    h'.ReadsEntries .plain h'.Free ts es :=
  ReadsEntries.mono (fun r hr => (hl.free r hr.2 hr.1).2)
    (ReadsEntries.agree hl.agree hr.allocated)

/-- A cell that is free stays free when the heap grows. -/
theorem Grows.free {building : Building} (hg : Grows building h h') {r : Ref}
    (hr : r.index < h.size) (hf : h.Free r) : h'.Free r := fun m hm =>
  (hg.maps m r hm).elim (hf m) fun hnew => absurd hr (Nat.not_lt.mpr hnew.2)

/-- New cells are no harm. -/
theorem Grows.lasts {building : Building} (hg : Grows building h h') : Lasts h h' where
  toKeeps := hg.keeps
  free r hr hf := ⟨hg.cells.read_eq r hr, hg.free hr hf⟩
  content t _ hc := ⟨t, hc.reads.extends hg.cells, hc.plain⟩

section Write

variable {d : Ref} {es : Entries Key Value} {key : Key} {name : String} {tw : Tree String}

mutual

/-- What shows plain data still does after plain data were written under a text in a dictionary that
does not belong to them. -/
theorem content_write (hd : h.read d = some (.dict es)) (ha : es.Apart) (ht : es.TextKeys)
    (hk : key.text? = some name) (hw : h.Reads .stored within tw w) (hn : ¬ within d)
    (hpw : tw.isPlain = true) : ∀ {t : Tree String} {v : Value},
    h.Reads .stored (fun _ => True) t v → t.isPlain = true →
      ∃ t', (h.write d (.dict (es.put key w))).Reads .stored (fun _ => True) t' v ∧
        t'.isPlain = true
  | .leaf u, v, ⟨he, _, _⟩, hp => by
    subst he
    exact ⟨.leaf v, ⟨rfl, isLeaf_of_isPlain hp, fun _ _ => trivial⟩, hp⟩
  | .list ts, v, ⟨items, hi, _, hr⟩, hp => by
    obtain ⟨ts', hr', hp'⟩ := contentItems_write hd ha ht hk hw hn hpw hr hp
    refine ⟨.list ts', ⟨items, ?_, fun _ _ => trivial, hr'⟩, hp'⟩
    obtain ⟨r, rfl, -⟩ := ref_of_items? hi
    -- a list is not the dictionary that is written
    have hne : d ≠ r := fun he => by
      subst he
      simp [items?, cell?, hd] at hi
    simpa only [items?, cell?, read_write_of_ne h d r _ hne] using hi
  | .map ts, v, ⟨entries, he, _, hapart, hr⟩, hp => by
    obtain ⟨ts', hr', hp'⟩ := contentEntries_write hd ha ht hk hw hn hpw hr hp
    obtain ⟨r, rfl, ⟨-, hview⟩ | ⟨d', hmap, hdict, -⟩⟩ := cell_of_entries? he
    · exact absurd rfl hview
    have hne : d ≠ r := fun heq => by
      subst heq
      rw [hd] at hmap
      cases hmap
    have hmap' := (read_write_of_ne h d r (.dict (es.put key w)) hne).trans hmap
    -- either this is the map that is written in, or it may stand above that map: its own entries are
    -- the old ones then, and the change is in one of their trees
    by_cases heq : d = d'
    · subst heq
      rw [hd] at hdict
      cases hdict
      -- what is written does not open the dictionary, so it shows afterwards what it showed
      have hw' : (h.write d (.dict (es.put key w))).Reads .stored within tw w := by
        refine hw.agree ⟨by rw [size_write], fun r' hr' => read_write_of_ne _ _ _ _ fun heq => ?_⟩
        exact hn (heq ▸ hr')
      refine ⟨.map (Entries.put name tw ts'), ⟨es.put key w, ?_, fun _ _ => trivial,
        apart_put h ht ha hk, ?_⟩, ?_⟩
      · simp [entries?, cell?, hmap', read_write_self h d _ (lt_size_of_read hd)]
      · have hm : Entries.Match (fun _ t v => (h.write d (.dict (es.put key w))).Reads .stored
            (fun _ => True) t v) ts' es := readsEntries_iff.mp hr'
        exact readsEntries_iff.mpr (hm.put hk (hw'.mono fun _ _ => trivial))
      · have hplain := Tree.allLeavesEntries_iff.mp hp'
        exact Tree.allLeavesEntries_iff.mpr
          (Tree.forall_put (P := (Tree.isPlain · = true)) hpw hplain)
    · refine ⟨.map ts', ⟨entries, ?_, fun _ _ => trivial, hapart, hr'⟩, hp'⟩
      simp [entries?, cell?, hmap', read_write_of_ne h d d' _ heq, hdict]

/-- `content_write`, item by item. -/
theorem contentItems_write (hd : h.read d = some (.dict es)) (ha : es.Apart) (ht : es.TextKeys)
    (hk : key.text? = some name) (hw : h.Reads .stored within tw w) (hn : ¬ within d)
    (hpw : tw.isPlain = true) : ∀ {ts : List (Tree String)} {vs : List Value},
    h.ReadsItems .stored (fun _ => True) ts vs → Tree.allLeavesList Value.isPlain ts = true →
      ∃ ts', (h.write d (.dict (es.put key w))).ReadsItems .stored (fun _ => True) ts' vs ∧
        Tree.allLeavesList Value.isPlain ts' = true
  | [], _, hr, _ => ⟨[], hr, rfl⟩
  | t :: ts, _, ⟨v, rest, he, hv, hr⟩, hp => by
    rw [Tree.allLeavesList, Bool.and_eq_true] at hp
    obtain ⟨t', hv', hp'⟩ := content_write hd ha ht hk hw hn hpw hv hp.1
    obtain ⟨ts', hr', hps'⟩ := contentItems_write hd ha ht hk hw hn hpw hr hp.2
    exact ⟨t' :: ts', ⟨v, rest, he, hv', hr'⟩, by
      rw [Tree.allLeavesList, hps', Bool.and_true]; exact hp'⟩

/-- `content_write`, entry by entry. -/
theorem contentEntries_write (hd : h.read d = some (.dict es)) (ha : es.Apart)
    (ht : es.TextKeys) (hk : key.text? = some name) (hw : h.Reads .stored within tw w)
    (hn : ¬ within d) (hpw : tw.isPlain = true) :
    ∀ {ts : List (String × Tree String)} {entries : Entries Key Value},
    h.ReadsEntries .stored (fun _ => True) ts entries →
      Tree.allLeavesEntries Value.isPlain ts = true →
      ∃ ts', (h.write d (.dict (es.put key w))).ReadsEntries .stored (fun _ => True) ts' entries ∧
        Tree.allLeavesEntries Value.isPlain ts' = true
  | [], _, hr, _ => ⟨[], hr, rfl⟩
  | (n, t) :: ts, _, ⟨k, v, rest, he, hn', hv, hr⟩, hp => by
    rw [Tree.allLeavesEntries, Bool.and_eq_true] at hp
    obtain ⟨t', hv', hp'⟩ := content_write hd ha ht hk hw hn hpw hv hp.1
    obtain ⟨ts', hr', hps'⟩ := contentEntries_write hd ha ht hk hw hn hpw hr hp.2
    exact ⟨(n, t') :: ts', ⟨k, v, rest, he, hn', hv', hr'⟩, by
      rw [Tree.allLeavesEntries, hps', Bool.and_true]; exact hp'⟩

end

end Write

/-- Writing plain data under a text in the dictionary of a map. -/
theorem write_lasts {m d : Ref} {es : Entries Key Value} {key : Key} {name : String}
    {tw : Tree String} (hs : h.Sound) (hm : h.read m = some (.map (.ref d)))
    (hd : h.read d = some (.dict es)) (hk : key.text? = some name)
    (hw : h.Reads .stored within tw w) (hn : ¬ within d) (hp : tw.isPlain = true) :
    Lasts h (h.write d (.dict (es.put key w))) where
  toKeeps := write_keeps hs hm hd hk hw.fine hw.storable
  free r _ hf := by
    -- the dictionary that is written belongs to a map
    have hne : d ≠ r := fun heq => hf m (heq ▸ hm)
    exact ⟨read_write_of_ne _ _ _ _ hne, fun m' hm' => hf m' (read_map_of_write hm')⟩
  content t v hc := by
    obtain ⟨d', es', heq, hd', ht⟩ := hs.cells m _ hm
    cases heq
    rw [hd] at hd'
    cases hd'
    obtain ⟨t', hr, hp'⟩ := content_write hd (hs.cells d _ hd).1 ht hk hw hn hp hc.reads hc.plain
    exact ⟨t', hr, hp'⟩

/-- Storing a copy of plain data in a map. -/
theorem store_lasts {m : Ref} {key : Key} {name : String} (hs : h.Sound)
    (hm : h.isMap (.ref m) = true) (hk : key.text? = some name) (hv : IsData h t v) :
    Outcome (do let w ← wrap v; putEntry m key w) h (fun _ h' => Lasts h h') (Lasts h) := by
  obtain ⟨w, h₁, hrun, he, hw⟩ := wrap_reads hv.reads.given
  have hg : Grows .wrapped h h₁ := ((wrap_outcome hs hv.reads.fine).result hrun).1
  obtain ⟨data, hr⟩ := read_of_isMap hm
  obtain ⟨d, es, rfl, hd, -⟩ := hs.cells m _ hr
  -- the copy has new cells only, so the dictionary is none of them
  have hlasts := write_lasts hg.sound (he.read_of_some hr) (he.read_of_some hd) hk hw
    (not_vacant_of_read hd rfl) (Tree.allLeaves_norm hv.plain)
  have hput := putEntry_ok key w (he.read_of_some hr) (he.read_of_some hd)
  exact Outcome.bind (Outcome.of_ok hrun (Outcome.of_ok hput (hg.lasts.trans hlasts)))

/-! ### Making plain data -/

/-- A cell that is new, or that no map has, is free in a heap without new maps. -/
theorem Grows.free_of_vacant (hs : h.Sound) (hg : Grows .plain h h') {r : Ref} (hr : h.Vacant r) :
    h'.Free r := by
  intro m hm
  rcases hg.maps m r hm with hm | ⟨hb, -⟩
  · obtain ⟨d, es, heq, hd, -⟩ := hs.cells m _ hm
    cases heq
    exact not_vacant_of_read hd rfl hr
  · cases hb

/-- Plain data that are built are plain data of their own. -/
theorem build_data {u : Tree Key} (hs : h.Sound) (hu : u.Named h.IsLeaf t) (hd : t.Distinct)
    (hp : t.isPlain = true) :
    ∃ w h', build .plain u h = .ok w h' ∧ Grows .plain h h' ∧ IsData h' t w := by
  obtain ⟨w, h', hw, -, hr⟩ := build_reads .plain hu hd
  have hg := build_grows .plain hs hu hd hw
  exact ⟨w, h', hw, hg, hr.mono fun _ hv => hg.free_of_vacant hs hv, hp⟩

/-- What shows plain data is written out as plain data of its own. -/
theorem unwrap_data (hs : h.Sound) (hc : IsContent h t v) :
    ∃ w h', unwrap v h = .ok w h' ∧ Grows .plain h h' ∧ IsData h' t w := by
  obtain ⟨u, hu, hnamed⟩ := Reads.tree .stored hc.reads
  have hd := hc.reads.distinct (by decide)
  rw [Tree.norm_of_distinct hd] at hnamed
  obtain ⟨w, h', hw, hg, hdata⟩ := build_data hs hnamed hd hc.plain
  exact ⟨w, h', by simp [unwrap, ask, hu, bind, EStateM.bind, hw], hg, hdata⟩

/-- A new list of plain data. -/
theorem newList_data {ts : List (Tree String)} {vs : List Value} (hs : h.Sound)
    (hr : h.ReadsItems .plain h.Free ts vs)
    (hp : Tree.allLeavesList Value.isPlain ts = true) :
    ∃ w h', newList vs h = .ok w h' ∧ Grows .plain h h' ∧ IsData h' (.list ts) w := by
  have hg : Grows .plain h (h.push (.list vs)) :=
    .push_plain hs (fun v hv => hr.fine v hv) fun _ heq => by cases heq
  refine ⟨.ref h.next, h.push (.list vs), rfl, hg, ⟨vs, ?_, ?_, hg.lasts.readsItems hr⟩, hp⟩
  · simp [items?, cell?]
  · simp only [own, read_alloc_new, Option.bind_some, Cell.backing?, Option.toList_none,
      List.mem_singleton, forall_eq]
    exact hg.free_of_vacant hs (vacant_of_size_le (Nat.le_refl _))

/-- A new dictionary of plain data. -/
theorem newDict_data {ts : List (String × Tree String)} {es : Entries Key Value} (hs : h.Sound)
    (hn : (Entries.keys ts).Nodup) (hr : h.ReadsEntries .plain h.Free ts es)
    (hp : Tree.allLeavesEntries Value.isPlain ts = true) :
    ∃ w h', newDict es h = .ok w h' ∧ Grows .plain h h' ∧ IsData h' (.map ts) w := by
  have hm : Entries.Match (fun _ t v => h.Reads .plain h.Free t v) ts es := readsEntries_iff.mp hr
  have hapart := hm.apart_iff.mpr hn
  have hfine : ∀ p ∈ es, h.Fine p.2 := fun p hp => by
    obtain ⟨t, ht⟩ := hr.reads_of_mem p hp
    exact ht.fine
  have hg : Grows .plain h (h.push (.dict es)) :=
    .push_plain hs ⟨hapart, hfine⟩ fun _ heq => by cases heq
  refine ⟨.ref h.next, h.push (.dict es), rfl, hg,
    ⟨es, ?_, ?_, hapart, hg.lasts.readsEntries hr⟩, hp⟩
  · simp [entries?, cell?]
  · simp only [own, read_alloc_new, Option.bind_some, Cell.backing?, Option.toList_none,
      List.mem_singleton, forall_eq]
    exact hg.free_of_vacant hs (vacant_of_size_le (Nat.le_refl _))

end Heap

end PageMeta
