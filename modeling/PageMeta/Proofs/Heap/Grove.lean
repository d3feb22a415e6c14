import PageMeta.Proofs.Heap.Sound
import PageMeta.Proofs.Heap.TreeShape

/-!
# Maps of separate trees

An attribute map is a tree exactly if its values are trees that have no cell in common and do not
lead back to it.  Said of one level, this is what a write keeps: a value can be replaced by another
tree, or be changed in place, without a look at the other values.

## Key results

- `IsTree.grove`, `Grove.isTree`: a map that is a tree is a grove, and the other way round
- `Grove.write`: one value is replaced
- `Grove.change`: one value is changed in place
-/

namespace PageMeta

namespace Entries.Match

variable {α β : Type} {Q : String → α → β → Prop} {named : Entries String α} {entries : Entries Key β}

/-- Among texts, a key is looked up by its text. -/
theorem get?_eq_of_text? {k l : Key} {name : String} (hm : Match Q named entries)
    (hk : k.text? = some name) (hl : l.text? = some name) :
    Entries.get? k entries = Entries.get? l entries := by
  induction hm with
  | nil => rfl
  | @cons p q ps qs hpq _ ih =>
    simp only [Entries.get?, Key.beq_of_text? hpq.1 hk, Key.beq_of_text? hpq.1 hl, ih]

/-- Entries with different names are found under their names. -/
theorem get?_self (hm : Match Q named entries) (hn : (keys named).Nodup) :
    Match (fun n a b => Q n a b ∧ Entries.get? (Key.ofText n) entries = some b) named entries := by
  refine hm.imp_mem fun p _ q hq hk hpq => ⟨hpq, ?_⟩
  rw [hm.get?_eq_of_text? rfl hk]
  exact (hm.apart_iff.mpr hn).get?_of_mem hq

/-- Matched keys are texts. -/
theorem exists_text (hm : Match Q named entries) : ∀ p ∈ entries, ∃ s, p.1.text? = some s := by
  intro p hp
  obtain ⟨q, -, hk, -⟩ := hm.exists_named p hp
  exact ⟨q.1, hk⟩

end Entries.Match

namespace Heap

variable {h h' : Heap} {within : Ref → Prop} {t u : Tree String} {v w : Value} {m d : Ref}
  {ts : Entries String (Tree String)} {es : Entries Key Value}

/-- A reading stays as long as the cells that it opens stay. -/
theorem Reads.agree_opens {view : View} (hv : view ≠ .given) (hr : h.Reads view within t v)
    (ha : Agree (h.Opens view v) h h') : h'.Reads view within t v :=
  ((hr.opened hv).agree ha).mono fun _ ho => hr.within_of_opens ho

/-- A value opens the cells that it did as long as they stay. -/
theorem Reads.opens_agree {view : View} (hr : h.Reads view within t v) (ha : Agree within h h')
    {r : Ref} (ho : h.Opens view v r) : h'.Opens view v r := by
  obtain ⟨way, w, hw, hown⟩ := ho
  obtain ⟨u, hu⟩ := hr.of_at? hw
  exact ⟨way, w, (hr.at?_agree ha way).trans hw, by rw [own_agree ha hu.own_within]; exact hown⟩

/-! ### Steps down in a tree -/

/-- What stands one step down in a tree is a tree. -/
theorem IsTree.child? {b : Branch} (ht : IsTree h v) (hb : h.child? .stored v b = some w) :
    IsTree h w := by
  intro way way' r c hw hw' hr hc
  exact (List.cons.inj (ht (b :: way) (b :: way') r c ((at?_cons hb).trans hw)
    ((at?_cons hb).trans hw') hr hc)).2

/-- What is opened at some place and is no dictionary stands there itself. -/
theorem eq_ref_of_own {r : Ref} {c : Cell} (hs : h.Sound) (hown : r ∈ h.own w)
    (hr : h.read r = some c) (hc : ∀ es, c ≠ .dict es) : w = .ref r := by
  rcases mem_own_iff.mp hown with heq | ⟨m, -, hm⟩
  · exact heq
  · obtain ⟨d, es, hd, hread, -⟩ := hs.cells m _ hm
    cases hd
    rw [hr] at hread
    cases hread
    exact absurd rfl (hc es)

/-- What opens a dictionary in a map is the map over it. -/
theorem eq_map_of_own {r : Ref} (hst : h.Storable w) (hown : r ∈ h.own w)
    (hr : h.read r = some (.dict es)) : ∃ s, w = .ref s ∧ h.read s = some (.map (.ref r)) := by
  rcases mem_own_iff.mp hown with rfl | hmap
  · -- what can be stored is no dictionary
    have hdict := hst r _ .self hr
    cases hdict
  · exact hmap

/-- A container that is opened at two places of a tree is opened at one. -/
theorem IsTree.way_eq (hs : h.Sound) (hst : h.Storable v) (ht : IsTree h v)
    {way way' : List Branch} {x y : Value} {r : Ref} {c : Cell} (hx : h.at? .stored v way = some x)
    (hy : h.at? .stored v way' = some y) (hrx : r ∈ h.own x) (hry : r ∈ h.own y)
    (hr : h.read r = some c) (hc : c.isContainer = true) : way = way' := by
  have hstx := hst.of_within (within_of_at? hx)
  have hsty := hst.of_within (within_of_at? hy)
  by_cases hdict : ∃ es, c = .dict es
  · -- a dictionary belongs to one map, which stands in one place
    obtain ⟨es, rfl⟩ := hdict
    obtain ⟨s, rfl, hmap⟩ := eq_map_of_own hstx hrx hr
    obtain ⟨s', rfl, hmap'⟩ := eq_map_of_own hsty hry hr
    have heq := hs.own s s' r hmap hmap'
    subst heq
    exact ht way way' s _ hx hy hmap rfl
  · have hne : ∀ es, c ≠ .dict es := fun es heq => hdict ⟨es, heq⟩
    rw [eq_ref_of_own hs hrx hr hne] at hx
    rw [eq_ref_of_own hs hry hr hne] at hy
    exact ht way way' r c hx hy hr hc

/-- What stands under two names of a tree has no cell in common. -/
theorem IsTree.separate {b b' : Branch} (hs : h.Sound) (hst : h.Storable v) (ht : IsTree h v)
    (hb : h.child? .stored v b = some w) {w' : Value} (hb' : h.child? .stored v b' = some w')
    (hne : b ≠ b') : Separate h w w' := by
  rintro r ⟨way, x, hx, hrx⟩ ⟨way', y, hy, hry⟩ c hr
  by_contra hc
  have hcontainer : c.isContainer = true := by simpa using hc
  have hway := ht.way_eq hs hst ((at?_cons hb).trans hx) ((at?_cons hb').trans hy) hrx hry hr
    hcontainer
  exact hne (List.cons.inj hway).1

/-- A tree is not opened below itself. -/
theorem IsTree.not_opens_child? {b : Branch} {r : Ref} {c : Cell} (hs : h.Sound)
    (hst : h.Storable v) (ht : IsTree h v) (hb : h.child? .stored v b = some w) (hown : r ∈ h.own v)
    (hr : h.read r = some c) (hc : c.isContainer = true) : ¬ h.Opens .stored w r := by
  rintro ⟨way, x, hx, hrx⟩
  have hself : h.at? .stored v [] = some v := rfl
  -- it would be opened at the top and once more further down
  have hway := ht.way_eq hs hst hself ((at?_cons hb).trans hx) hown hrx hr hc
  cases hway

/-- Values stay separate if one of them stays and the other keeps to its own cells and to new
ones. -/
theorem Separate.of_opens (hs : Separate h v w) (hr : h.Reads .stored within t v)
    (ha : Agree (h.Opens .stored v) h h')
    (hopens : ∀ r, h'.Opens .stored w r → h.Opens .stored w r ∨ h.Vacant r) : Separate h' v w := by
  intro r hv hw c hc
  have ho := (hr.opened (by decide)).opens_of_agree ha hv
  have hc' := (ha.read_eq r ho).symm.trans hc
  rcases hopens r hw with hw | hvacant
  · exact hs r ho hw c hc'
  · exact hvacant c hc'

/-! ### Groves -/

/-- A map over a dictionary whose values are separate trees that open neither. -/
structure Grove (h : Heap) (m d : Ref) (ts : Entries String (Tree String))
    (es : Entries Key Value) : Prop where
  read_map : h.read m = some (.map (.ref d))
  read_dict : h.read d = some (.dict es)
  nodup : (Entries.keys ts).Nodup
  content : Entries.Match
    (fun _ t v => h.Reads .stored (fun r => r ≠ m ∧ r ≠ d) t v ∧ IsTree h v) ts es
  separate : ∀ n n' v v', n ≠ n' → es.get? (Key.ofText n) = some v →
    es.get? (Key.ofText n') = some v' → Separate h v v'

namespace Grove

variable (hg : Grove h m d ts es)
include hg

theorem entries? : h.entries? .stored (.ref m) = some es := by
  simp [Heap.entries?, cell?, hg.read_map, hg.read_dict]

theorem own_eq : h.own (.ref m) = [m, d] := by
  simp [own, hg.read_map, Cell.backing?]

/-- The dictionary is not the map. -/
theorem ne : d ≠ m := by
  intro heq
  have hread := hg.read_dict
  rw [heq, hg.read_map] at hread
  cases hread

/-- A name is looked up as its key. -/
theorem child?_eq (n : String) :
    h.child? .stored (.ref m) (.entry n) = es.get? (Key.ofText n) := by
  rw [Heap.child?, hg.entries?, Option.bind_some]
  exact get?_named hg.content.exists_text rfl

/-- What stands one step down in the map is a value of it. -/
theorem exists_of_child? {b : Branch} (hb : h.child? .stored (.ref m) b = some w) :
    ∃ n, b = .entry n ∧ es.get? (Key.ofText n) = some w := by
  cases b with
  | entry n => exact ⟨n, rfl, (hg.child?_eq n).symm.trans hb⟩
  | item index => simp [Heap.child?, items?, cell?, hg.read_map] at hb

/-- What stands under a name is a tree that opens neither the map nor the dictionary. -/
theorem get? {n : String} (hv : es.get? (Key.ofText n) = some v) :
    ∃ t, ts.get? n = some t ∧ h.Reads .stored (fun r => r ≠ m ∧ r ≠ d) t v ∧ IsTree h v := by
  rcases hg.content.get? (show (Key.ofText n).text? = some n from rfl) with ⟨-, hnone⟩ |
    ⟨t, v', ht, hv', hr⟩
  · rw [hnone] at hv; cases hv
  · rw [hv'] at hv
    cases hv
    exact ⟨t, ht, hr⟩

/-- The map shows its entries, with its own cells and those of its values opened. -/
theorem reads : h.Reads .stored (h.Opens .stored (.ref m)) (.map ts) (.ref m) := by
  have hmatch : Entries.Match
      (fun _ t v => h.Reads .stored (h.Opens .stored (.ref m)) t v) ts es := by
    refine (hg.content.get?_self hg.nodup).imp ?_
    rintro n t v ⟨⟨hr, -⟩, hget⟩
    have hc := (hg.child?_eq n).trans hget
    exact (hr.opened (by decide)).mono fun r ho => ho.of_child? hc
  exact ⟨es, hg.entries?, fun r hr => opens_self hr, hmatch.apart_iff.mpr hg.nodup,
    readsEntries_iff.mpr hmatch⟩

/-- A grove is a tree. -/
theorem isTree : IsTree h (.ref m) := by
  refine isTree_of_children (fun r b w heq hb ho => ?_) (fun b w hb => ?_)
    fun b b' w w' hb hb' hne => ?_
  · cases heq
    obtain ⟨n, -, hget⟩ := hg.exists_of_child? hb
    obtain ⟨t, -, hr, -⟩ := hg.get? hget
    exact (hr.within_of_opens ho).1 rfl
  · obtain ⟨n, -, hget⟩ := hg.exists_of_child? hb
    obtain ⟨t, -, -, ht⟩ := hg.get? hget
    exact ht
  · obtain ⟨n, rfl, hget⟩ := hg.exists_of_child? hb
    obtain ⟨n', rfl, hget'⟩ := hg.exists_of_child? hb'
    exact hg.separate n n' w w' (fun heq => hne (by rw [heq])) hget hget'

/-- A grove opens the map, the dictionary, and what its values open. -/
theorem opens_cases {r : Ref} (ho : h.Opens .stored (.ref m) r) :
    r = m ∨ r = d ∨ ∃ n v, es.get? (Key.ofText n) = some v ∧ h.Opens .stored v r := by
  rcases ho.cases with hown | ⟨b, w, hb, ho⟩
  · have hmem : r = m ∨ r = d := by simpa [hg.own_eq] using hown
    exact hmem.imp_right .inl
  · obtain ⟨n, -, hget⟩ := hg.exists_of_child? hb
    exact .inr (.inr ⟨n, w, hget, ho⟩)

theorem opens_of_get? {n : String} {r : Ref} (hv : es.get? (Key.ofText n) = some v)
    (ho : h.Opens .stored v r) : h.Opens .stored (.ref m) r :=
  ho.of_child? ((hg.child?_eq n).trans hv)

section Change

variable {name : String} {t' : Tree String} (hm : h'.read m = h.read m)
  (hd : h'.read d = h.read d) (hc : es.get? (Key.ofText name) = some w)
  (hr : h'.Reads .stored (fun r => r ≠ m ∧ r ≠ d) t' w) (ht : IsTree h' w)
  (hothers : ∀ n v, n ≠ name → es.get? (Key.ofText n) = some v → Agree (h.Opens .stored v) h h')
  (hopens : ∀ r, h'.Opens .stored w r → h.Opens .stored w r ∨ h.Vacant r)
include hm hd hc hr ht hothers hopens

/-- A grove stays one if what stands under one name becomes another tree, and nothing else that is
opened is changed. -/
theorem change : Grove h' m d (ts.put name t') es where
  read_map := hm.trans hg.read_map
  read_dict := hd.trans hg.read_dict
  nodup := Entries.nodup_keys_put name t' hg.nodup
  content := by
    refine (hg.content.get?_self hg.nodup).put_named rfl hg.nodup hc ⟨hr, ht⟩ ?_
    rintro n t v hne ⟨⟨hread, htree⟩, hget⟩
    exact ⟨hread.agree_opens (by decide) (hothers n v hne hget),
      htree.agree (hread.opened (by decide)) (hothers n v hne hget)⟩
  separate := by
    -- what is changed keeps to its own cells and to new ones, so it stays apart from every other
    -- value; then it only matters on which side it stands
    have hkeep : ∀ n v, n ≠ name → es.get? (Key.ofText n) = some v → Separate h' v w := by
      intro n v hne hget
      obtain ⟨t, -, hread, -⟩ := hg.get? hget
      exact (hg.separate n name v w hne hget hc).of_opens hread (hothers n v hne hget) hopens
    intro n n' v v' hne hv hv'
    by_cases hn : n = name
    · subst hn
      rw [hc] at hv
      cases hv
      exact (hkeep n' v' (fun heq => hne heq.symm) hv').symm
    · by_cases hn' : n' = name
      · subst hn'
        rw [hc] at hv'
        cases hv'
        exact hkeep n v hn hv
      · obtain ⟨t, -, hread, -⟩ := hg.get? hv
        obtain ⟨t', -, hread', -⟩ := hg.get? hv'
        exact (hg.separate n n' v v' hne hv hv').agree (hread.opened (by decide))
          (hread'.opened (by decide)) (hothers n v hn hv) (hothers n' v' hn' hv')

/-- Then the map opens what it did, and new cells. -/
theorem opens_change {r : Ref} (ho : h'.Opens .stored (.ref m) r) :
    h.Opens .stored (.ref m) r ∨ h.Vacant r := by
  rcases (hg.change hm hd hc hr ht hothers hopens).opens_cases ho with rfl | rfl | ⟨n, v, hv, ho⟩
  · exact .inl (opens_self (own_ref_mem _))
  · exact .inl (opens_self (own_map_mem hg.read_map))
  · by_cases hn : n = name
    · subst hn
      rw [hc] at hv
      cases hv
      exact (hopens r ho).imp_left (hg.opens_of_get? hc)
    · obtain ⟨t, -, hread, -⟩ := hg.get? hv
      -- the other values open what they opened before
      have hold := (hread.opened (by decide)).opens_of_agree (hothers n v hn hv) ho
      exact .inl (hg.opens_of_get? hv hold)

end Change

/-- A grove stays one when the heap grows. -/
theorem of_extends (he : Extends h h') : Grove h' m d ts es where
  read_map := he.read_of_some hg.read_map
  read_dict := he.read_of_some hg.read_dict
  nodup := hg.nodup
  content := hg.content.imp fun _ _ _ hr => ⟨hr.1.extends he, hr.2.extends hr.1 he⟩
  separate n n' v v' hne hv hv' := by
    obtain ⟨t, -, hread, -⟩ := hg.get? hv
    obtain ⟨t', -, hread', -⟩ := hg.get? hv'
    exact (hg.separate n n' v v' hne hv hv').extends hread hread' he

section Write

variable {name : String} {key : Key} {t' : Tree String}

/-- What stands under a name after a write. -/
theorem get?_write (hk : key.text? = some name) :
    (es.put key w).get? (Key.ofText name) = some w ∧
      ∀ n, n ≠ name → (es.put key w).get? (Key.ofText n) = es.get? (Key.ofText n) := by
  have hput : Entries.Match (fun _ _ _ => True) (ts.put name (.leaf w)) (es.put key w) :=
    (hg.content.imp fun _ _ _ _ => trivial).put hk trivial
  refine ⟨?_, fun n hne => Entries.get?_put_of_text? _ _ hk rfl fun heq => hne heq.symm⟩
  rw [← hput.get?_eq_of_text? hk rfl, Entries.get?_put_self]

omit hg in
/-- A write changes no other cell than the dictionary. -/
theorem agree_write (c : Cell) : Agree (fun r => r ≠ m ∧ r ≠ d) h (h.write d c) :=
  ⟨by rw [size_write], fun _ hr => read_write_of_ne _ _ _ _ hr.2.symm⟩

/-- A grove stays one if a tree that has no cell in common with the other values is written. -/
theorem write (hk : key.text? = some name)
    (hr : h.Reads .stored (fun r => r ≠ m ∧ r ≠ d) t' w) (ht : IsTree h w)
    (hsep : ∀ n v, n ≠ name → es.get? (Key.ofText n) = some v → Separate h v w) :
    Grove (h.write d (.dict (es.put key w))) m d (ts.put name t') (es.put key w) := by
  have hagree : Agree (fun r => r ≠ m ∧ r ≠ d) h (h.write d (.dict (es.put key w))) :=
    agree_write _
  obtain ⟨hself, hother⟩ := hg.get?_write (w := w) hk
  refine ⟨(read_write_of_ne _ _ _ _ hg.ne).trans hg.read_map,
    read_write_self _ _ _ (lt_size_of_read hg.read_dict), Entries.nodup_keys_put name t' hg.nodup,
    (hg.content.imp fun _ _ _ hr => ⟨hr.1.agree hagree, hr.2.agree hr.1 hagree⟩).put hk
      ⟨hr.agree hagree, ht.agree hr hagree⟩, ?_⟩
  -- either both values are old ones, or one of them is what was written, and that is apart from
  -- every value under another name
  intro n n' v v' hne hv hv'
  by_cases hn : n = name
  · subst hn
    rw [hself] at hv
    cases hv
    have hne' : n' ≠ n := fun heq => hne heq.symm
    rw [hother n' hne'] at hv'
    obtain ⟨t, -, hread, -⟩ := hg.get? hv'
    exact ((hsep n' v' hne' hv').agree hread hr hagree hagree).symm
  · rw [hother n hn] at hv
    obtain ⟨t, -, hread, -⟩ := hg.get? hv
    by_cases hn' : n' = name
    · subst hn'
      rw [hself] at hv'
      cases hv'
      exact (hsep n v hn hv).agree hread hr hagree hagree
    · rw [hother n' hn'] at hv'
      obtain ⟨t', -, hread', -⟩ := hg.get? hv'
      exact (hg.separate n n' v v' hne hv hv').agree hread hread' hagree hagree

/-- After a write the map opens what it did, and what was written. -/
theorem opens_write (hk : key.text? = some name)
    (hr : h.Reads .stored (fun r => r ≠ m ∧ r ≠ d) t' w) (ht : IsTree h w)
    (hsep : ∀ n v, n ≠ name → es.get? (Key.ofText n) = some v → Separate h v w) {r : Ref}
    (ho : (h.write d (.dict (es.put key w))).Opens .stored (.ref m) r) :
    h.Opens .stored (.ref m) r ∨ h.Opens .stored w r := by
  have hagree : Agree (fun r => r ≠ m ∧ r ≠ d) h (h.write d (.dict (es.put key w))) :=
    agree_write _
  obtain ⟨hself, hother⟩ := hg.get?_write (w := w) hk
  rcases (hg.write hk hr ht hsep).opens_cases ho with rfl | rfl | ⟨n, v, hv, ho⟩
  · exact .inl (opens_self (own_ref_mem _))
  · exact .inl (opens_self (own_map_mem hg.read_map))
  · by_cases hn : n = name
    · subst hn
      rw [hself] at hv
      cases hv
      exact .inr (hr.opens_of_agree hagree ho)
    · rw [hother n hn] at hv
      obtain ⟨t, -, hread, -⟩ := hg.get? hv
      exact .inl (hg.opens_of_get? hv (hread.opens_of_agree hagree ho))

end Write

end Grove

/-- A map that is a tree is a grove. -/
theorem IsTree.grove (hs : h.Sound) (hr : h.Reads .stored within (.map ts) (.ref m))
    (ht : IsTree h (.ref m)) : ∃ d es, Grove h m d ts es := by
  have hst := hr.storable
  obtain ⟨es, he, -, ha, hentries⟩ := hr
  obtain ⟨_, heq, ⟨-, hview⟩ | ⟨d, hm, hd, -⟩⟩ := cell_of_entries? he
  · exact absurd rfl hview
  cases heq
  have hmatch : Entries.Match (fun _ t v => h.Reads .stored within t v) ts es :=
    readsEntries_iff.mp hentries
  have hnodup := hmatch.apart_iff.mp ha
  have hchild : ∀ n, h.child? .stored (.ref m) (.entry n) = es.get? (Key.ofText n) := fun n => by
    rw [Heap.child?, he, Option.bind_some]
    exact get?_named hmatch.exists_text rfl
  refine ⟨d, es, hm, hd, hnodup, (hmatch.get?_self hnodup).imp ?_, ?_⟩
  · rintro n t v ⟨hread, hget⟩
    have hc := (hchild n).trans hget
    -- a value that led back to the map or its dictionary would open them at two places
    refine ⟨(hread.opened (by decide)).mono fun r ho => ⟨?_, ?_⟩, ht.child? hc⟩
    · rintro rfl
      exact ht.not_opens_child? hs hst hc (own_ref_mem r) hm rfl ho
    · rintro rfl
      exact ht.not_opens_child? hs hst hc (own_map_mem hm) hd rfl ho
  · intro n n' v v' hne hv hv'
    exact ht.separate hs hst ((hchild n).trans hv) ((hchild n').trans hv')
      fun heq => hne (Branch.entry.inj heq)

end Heap

end PageMeta
