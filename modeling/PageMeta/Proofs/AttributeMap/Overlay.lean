import PageMeta.Proofs.AttributeMap.Sharing
import PageMeta.Proofs.Heap.Grove
import PageMeta.Proofs.Tree.Overlay

/-!
# Merging whatever has text keys

A mapping that is merged may have different keys with one text, such as a number and its digits.
Then the entries of the second key meet what the first has left behind.  A map that is a tree shows
afterwards what writing the entries one after the other gives, it is a tree again, and no cell that
is not part of it has changed.

## Key results

- `mergeKey_overlay`: one more key is merged
- `mergeTo_overlay`: merging a mapping that shares no cell with a map that is a tree
- `merge_overlay`: the same for the public operation
-/

namespace PageMeta.AttributeMap

open Heap

variable {h g g' : Heap} {m d : Ref} {within : Ref → Prop} {t u : Tree String}
  {ts us : Entries String (Tree String)} {v w : Value} {es : Entries Key Value}

/-! ### What a merge leaves alone -/

/-- A later heap in which no cell was changed but the parts of one map.  The map has no parts but
old ones and new cells. -/
structure Tended (m : Ref) (h h' : Heap) : Prop where
  size_le : h.size ≤ h'.size
  read_eq : ∀ r, r.index < h.size → ¬ Part h m r → h'.read r = h.read r
  opens : ∀ r, h'.Opens .stored (.ref m) r → h.Opens .stored (.ref m) r ∨ h.Vacant r
  vacant : ∀ r, h'.Vacant r → h.Vacant r

namespace Tended

theorem refl (m : Ref) (h : Heap) : Tended m h h :=
  ⟨Nat.le_refl _, fun _ _ _ => rfl, fun _ ho => .inl ho, fun _ hv => hv⟩

/-- What is there and no part of the map does not become one. -/
theorem not_part (ht : Tended m g g') {r : Ref} (hr : r.index < g.size) (hp : ¬ Part g m r) :
    ¬ Part g' m r := by
  rintro ⟨ho, c, hc, hcontainer⟩
  rw [ht.read_eq r hr hp] at hc
  rcases ht.opens r ho with ho | hv
  · exact hp ⟨ho, c, hc, hcontainer⟩
  · rw [hv c hc] at hcontainer
    cases hcontainer

theorem trans (h₁ : Tended m h g) (h₂ : Tended m g g') : Tended m h g' where
  size_le := Nat.le_trans h₁.size_le h₂.size_le
  read_eq r hr hp :=
    (h₂.read_eq r (Nat.lt_of_lt_of_le hr h₁.size_le) (h₁.not_part hr hp)).trans
      (h₁.read_eq r hr hp)
  opens r ho := (h₂.opens r ho).elim (h₁.opens r) fun hv => .inr (h₁.vacant r hv)
  vacant r hv := h₁.vacant r (h₂.vacant r hv)

theorem agree (ht : Tended m g g') (hw : ∀ r, within r → r.index < g.size ∧ ¬ Part g m r) :
    Agree within g g' :=
  ⟨ht.size_le, fun r hr => ht.read_eq r (hw r hr).1 (hw r hr).2⟩

/-- What shows a tree without a part of the map stays as it is. -/
theorem reads {view : View} (ht : Tended m g g') (hr : g.Reads view within t v)
    (hp : ∀ r, within r → ¬ Part g m r) :
    g'.Reads view (fun r => within r ∧ r.index < g.size) t v :=
  hr.allocated.agree (ht.agree fun r hw => ⟨hw.2, hp r hw.1⟩)

end Tended

/-- What merging into a map that is a tree has to leave behind. -/
structure Overlaid (m : Ref) (t : Tree String) (h h' : Heap) : Prop where
  sound : h'.Sound
  reads : Shows h' .stored t (.ref m)
  tree : IsTree h' (.ref m)
  tended : Tended m h h'

theorem Overlaid.trans (h₁ : Overlaid m t h g) (h₂ : Overlaid m u g g') : Overlaid m u h g' :=
  ⟨h₂.sound, h₂.reads, h₂.tree, h₁.tended.trans h₂.tended⟩

/-! ### One key -/

/-- A copy is a tree of new cells. -/
theorem wrap_tree (hs : g.Sound) (hr : g.Reads .given within u v) :
    ∃ w g', wrap v g = .ok w g' ∧ Grows .wrapped g g' ∧ g'.Reads .stored g.Vacant u.norm w ∧
      IsTree g' w := by
  obtain ⟨w, g', hrun, -, hread⟩ := wrap_reads hr
  have hgrows := ((wrap_outcome hs hr.fine).result hrun).1
  obtain ⟨x, hx, hnamed⟩ := Reads.tree .given hr
  have hbuild : build .wrapped x g = .ok w g' := by
    simpa only [wrap, ask, hx, bind, EStateM.bind] using hrun
  exact ⟨w, g', hrun, hgrows, hread, build_isTree hnamed (Tree.distinct_norm u) hbuild⟩

section Grove

variable (hg : Grove g m d ts es)
include hg

/-- The dictionary of the map is part of it. -/
theorem part_dict : Part g m d :=
  ⟨opens_self (own_map_mem hg.read_map), _, hg.read_dict, rfl⟩

/-- A part of a map in the map is a part of it. -/
theorem part_of_get? {inner r : Ref} {n : String} (hv : es.get? (Key.ofText n) = some (.ref inner))
    (hp : Part g inner r) : Part g m r := ⟨hg.opens_of_get? hv hp.1, hp.2⟩

/-- A key that gets a copy. -/
theorem putCopy_overlay (hs : g.Sound) {key : Key} {name : String}
    (hk : key.text? = some name) (hu : g.Reads .given within u v) :
    ∃ g', (do let k ← settleKey key; let w ← wrap v; putEntry m k w) g = .ok () g' ∧
      Overlaid m (.map (ts.put name u.norm)) g g' := by
  obtain ⟨k, g₁, hkey, hk₁, hcells⟩ := settleKey_text? (h := g) hk
  have he₁ := extends_of_cells hcells
  obtain ⟨w, g₂, hwrap, hgrows, hw, htree⟩ := wrap_tree (hs.of_cells hcells) (hu.extends he₁)
  have he := he₁.trans hgrows.cells
  have hg₂ := hg.of_extends he
  have hput := putEntry_ok k w hg₂.read_map hg₂.read_dict
  -- a container that was there is none of the cells of the copy
  have hnew : ∀ r c, g.read r = some c → c.isContainer = true → ¬ g₁.Vacant r :=
    fun r c hr hc => not_vacant_of_read (he₁.read_of_some hr) hc
  have hw' : g₂.Reads .stored (fun r => r ≠ m ∧ r ≠ d) u.norm w :=
    hw.mono fun r hv => ⟨fun heq => hnew m _ hg.read_map rfl (heq ▸ hv),
      fun heq => hnew d _ hg.read_dict rfl (heq ▸ hv)⟩
  have hsep : ∀ n v, n ≠ name → es.get? (Key.ofText n) = some v → Separate g₂ v w := by
    intro n v _ hv
    obtain ⟨t, -, hread, -⟩ := hg.get? hv
    exact separate_of_vacant (hread.extends he₁) hgrows.cells hw
  have hgrove := hg₂.write hk₁ hw' htree hsep
  refine ⟨g₂.write d (.dict (es.put k w)), ?_, ⟨?_, hgrove.reads.mono fun _ _ => trivial,
    hgrove.isTree, ?_⟩⟩
  · simp only [bind, EStateM.bind, hkey, hwrap, hput]
  · exact (write_keeps hgrows.sound hg₂.read_map hg₂.read_dict hk₁ hw.fine hw.storable).sound
  · have hread : ∀ r, r ≠ d → (g₂.write d (.dict (es.put k w))).read r = g₂.read r :=
      fun r hne => read_write_of_ne _ _ _ _ hne.symm
    refine ⟨by rw [size_write]; exact he.size_le, fun r hr hp => ?_, fun r ho => ?_,
      fun r hv => ?_⟩
    · rw [hread r fun heq => hp (heq ▸ part_dict hg)]
      exact he.read_eq r hr
    · rcases hg₂.opens_write hk₁ hw' htree hsep ho with ho | ho
      · exact .inl (hg.reads.opens_of_extends he ho)
      · exact .inr ((hw.within_of_opens ho).of_extends he₁)
    · refine Vacant.of_extends he fun c hc => ?_
      by_cases heq : r = d
      · subst heq
        have hdict := hv _ (read_write_self _ _ _ (lt_size_of_read hg₂.read_dict))
        cases hdict
      · exact hv c ((hread r heq).trans hc)

/-- What shows the map in a value of a grove opens neither the map nor its dictionary. -/
theorem not_part_value {inner : Ref} {n : String}
    (hv : es.get? (Key.ofText n) = some (.ref inner)) :
    ¬ Part g inner m ∧ ¬ Part g inner d := by
  obtain ⟨t, -, hread, -⟩ := hg.get? hv
  exact ⟨fun hp => (hread.within_of_opens hp.1).1 rfl, fun hp => (hread.within_of_opens hp.1).2 rfl⟩

/-- A key whose map is merged. -/
theorem down_overlay {inner : Ref} {name : String}
    (hc : es.get? (Key.ofText name) = some (.ref inner)) (hd : Overlaid inner t g g') :
    Overlaid m (.map (ts.put name t)) g g' := by
  obtain ⟨hm, hdict⟩ := not_part_value hg hc
  obtain ⟨_, -, hold, -⟩ := hg.get? hc
  have hread : g'.Reads .stored (fun r => r ≠ m ∧ r ≠ d) t (.ref inner) := by
    refine (hd.reads.opened (by decide)).mono fun r ho => ?_
    rcases hd.tended.opens r ho with ho | hv
    · exact hold.within_of_opens ho
    · exact ⟨fun heq => not_vacant_of_read hg.read_map rfl (heq ▸ hv),
        fun heq => not_vacant_of_read hg.read_dict rfl (heq ▸ hv)⟩
  -- what stands under other names is no part of the map that is merged
  have hothers : ∀ n v, n ≠ name → es.get? (Key.ofText n) = some v →
      Agree (g.Opens .stored v) g g' := by
    intro n v hne hv
    obtain ⟨_, -, hother, -⟩ := hg.get? hv
    refine hd.tended.agree fun r ho => ⟨hother.opens_lt ho, ?_⟩
    rintro ⟨ho', c, hcell, hcontainer⟩
    exact not_vacant_of_read hcell hcontainer (hg.separate n name v _ hne hv hc r ho ho')
  have hmap := hd.tended.read_eq m (lt_size_of_read hg.read_map) hm
  have hdata := hd.tended.read_eq d (lt_size_of_read hg.read_dict) hdict
  have hgrove := hg.change hmap hdata hc hread hd.tree hothers hd.tended.opens
  refine ⟨hd.sound, hgrove.reads.mono fun _ _ => trivial, hgrove.isTree, hd.tended.size_le,
    fun r hr hp => hd.tended.read_eq r hr fun hin => hp (part_of_get? hg hc hin), fun r => ?_,
    hd.tended.vacant⟩
  exact hg.opens_change hmap hdata hc hread hd.tree hothers hd.tended.opens

end Grove

/-- What is known of merging one level down. -/
def Overlays (descend : Ref → Ref → Heap.Action Unit) (within : Ref → Prop) (u : Tree String) :
    Prop :=
  ∀ {g : Heap} {t : Tree String} {inner source : Ref}, g.Sound → Shows g .stored t (.ref inner) →
    IsTree g (.ref inner) → g.Reads .given within u (.ref source) →
    (∀ r, within r → ¬ Part g inner r) → (t.isMap && u.isMap) = true →
    ∃ g', descend inner source g = .ok () g' ∧ Overlaid inner (t.overlay u) g g'

/-- One more key is merged. -/
theorem mergeKey_overlay {descend : Ref → Ref → Heap.Action Unit} (key : Key) (hs : g.Sound)
    (hr : Shows g .stored (.map ts) (.ref m)) (htree : IsTree g (.ref m))
    (hu : g.Reads .given within u v) (hapart : ∀ r, within r → ¬ Part g m r)
    (hd : Overlays descend within u) :
    ∃ g', mergeKey descend m key v g = .ok () g' ∧
      Overlaid m (.map (ts.put (g.keyText key) (Tree.overlayOn (ts.get? (g.keyText key)) u)))
        g g' := by
  obtain ⟨d, es, hg⟩ := htree.grove hs hr
  have hkey : (g.keyName key).text? = some (g.keyText key) := text?_keyName key
  have hcurrent : (g.entriesAt m).get? (g.keyName key) = es.get? (Key.ofText (g.keyText key)) := by
    rw [entriesAt_map hg.read_map hg.read_dict]
    exact hg.content.get?_eq_of_text? hkey rfl
  -- two maps meet under the name, or what is given is copied over what there may be
  by_cases hdown : ∃ inner source, es.get? (Key.ofText (g.keyText key)) = some (.ref inner) ∧
      g.isMap (.ref inner) = true ∧ g.mapping? v = some source
  · obtain ⟨inner, source, hc, hmap, hsource⟩ := hdown
    obtain ⟨t, ht, hread, htree'⟩ := hg.get? hc
    have hv := eq_of_mapping? hsource
    subst hv
    have hmaps : (t.isMap && u.isMap) = true := by
      rw [Bool.and_eq_true, hread.isMap_iff, hu.isMap_iff]
      exact ⟨hread.isMap_stored.mp hmap, hu.mapping?_given.mp (by rw [hsource]; rfl)⟩
    obtain ⟨g', hrun, hoverlaid⟩ := hd hs (hread.mono fun _ _ => trivial) htree' hu
      (fun r hw hp => hapart r hw (part_of_get? hg hc hp)) hmaps
    refine ⟨g', ?_, ?_⟩
    · rw [mergeKey_descend (by rw [hcurrent, hc]; rfl) hmap hsource, hrun]
    · rw [ht]
      exact down_overlay hg hc hoverlaid
  · have hcopy : ∀ inner source, ((g.entriesAt m).get? (g.keyName key)).getD .none = .ref inner →
        g.isMap (.ref inner) = true → g.mapping? v = some source → False := by
      intro inner source hinner hmap hsource
      rw [hcurrent] at hinner
      cases hget : es.get? (Key.ofText (g.keyText key)) with
      | none => rw [hget] at hinner; cases hinner
      | some c =>
        rw [hget] at hinner
        exact hdown ⟨inner, source, by rw [hget, ← show c = .ref inner from hinner], hmap, hsource⟩
    -- the trees tell as well that no two maps meet
    have hnorm : Tree.overlayOn (ts.get? (g.keyText key)) u = u.norm := by
      refine Tree.overlayOn_of_not_map fun t ht => Bool.eq_false_iff.mpr fun hmaps => hdown ?_
      rw [Bool.and_eq_true] at hmaps
      rcases hg.content.get? (show (Key.ofText (g.keyText key)).text? = some (g.keyText key)
        from rfl) with ⟨hnone, -⟩ | ⟨t', c, ht', hc, hread, -⟩
      · rw [hnone] at ht; cases ht
      · rw [ht'] at ht
        cases ht
        have hmap := hread.isMap_stored.mpr (hread.isMap_iff.mp hmaps.1)
        obtain ⟨source, hsource⟩ :=
          Option.isSome_iff_exists.mp (hu.mapping?_given.mpr (hu.isMap_iff.mp hmaps.2))
        obtain ⟨inner, rfl⟩ : ∃ inner, c = .ref inner := by
          cases c with
          | ref inner => exact ⟨inner, rfl⟩
          | _ => cases hmap
        exact ⟨inner, source, hc, hmap, hsource⟩
    rw [hnorm, mergeKey_copy hcopy]
    exact putCopy_overlay hg hs hkey hu

/-! ### All keys -/

/-- Going through the rest of a source writes the rest. -/
theorem forEntries_overlay {descend : Ref → Ref → Heap.Action Unit} {sy : Ref}
    {ys : Entries Key Value} (hys : ys.Apart) :
    ∀ (rest : Entries String (Tree String)) {ysrest : Entries Key Value} {g : Heap}
      {ts : Entries String (Tree String)}, (∀ p ∈ rest, Overlays descend within p.2) →
      g.Sound → Shows g .stored (.map ts) (.ref m) → IsTree g (.ref m) →
      g.entries? .given (.ref sy) = some ys → (∀ r ∈ g.own (.ref sy), within r) →
      g.ReadsEntries .given within rest ysrest → (∀ p ∈ ysrest, p ∈ ys) →
      (∀ r, within r → r.index < g.size ∧ ¬ Part g m r) →
      ∃ g', forEntries (mergeKey descend m) sy ys.length ysrest.keys g = .ok () g' ∧
        Overlaid m (.map (Tree.overlayEntries ts rest)) g g'
  | [], ysrest, g, ts, _, hs, hr, ht, _, _, hrest, _, _ => by
    rw [ReadsEntries] at hrest
    subst hrest
    rw [Tree.overlayEntries]
    exact ⟨g, rfl, hs, hr, ht, .refl m g⟩
  | (name, u) :: rest, ysrest, g, ts, hd, hs, hr, ht, he, hown, hrest, hmem, hw => by
    obtain ⟨key, v, ysrest, rfl, hkey, hu, hrest⟩ := hrest
    have hcurrent : (g.entriesAt sy).get? key = some v := by
      rw [entriesAt_of_entries? he]
      exact hys.get?_of_mem (hmem _ List.mem_cons_self)
    obtain ⟨g₁, hrun, ho₁⟩ := mergeKey_overlay key hs hr ht hu (fun r h => (hw r h).2)
      (hd _ List.mem_cons_self)
    rw [hkey.keyText_eq] at ho₁
    -- the source is as it was
    have hagree : Agree within g g₁ := ho₁.tended.agree hw
    have he₁ : g₁.entries? .given (.ref sy) = some ys := (entries?_agree hagree hown).trans he
    obtain ⟨g', hloop, ho'⟩ := forEntries_overlay hys rest
      (fun p hp => hd p (List.mem_cons_of_mem _ hp)) ho₁.sound ho₁.reads ho₁.tree he₁
      (by rw [own_agree hagree hown]; exact hown) (hrest.agree hagree)
      (fun p hp => hmem p (List.mem_cons_of_mem _ hp))
      fun r h => ⟨Nat.lt_of_lt_of_le (hw r h).1 ho₁.tended.size_le,
        ho₁.tended.not_part (hw r h).1 (hw r h).2⟩
    refine ⟨g', ?_, ?_⟩
    · simp only [Entries.keys, List.map_cons, forEntries, bind, EStateM.bind, run_get, hcurrent,
        Option.getD_some, hrun, entriesAt_of_entries? he₁, if_true]
      exact hloop
    · rw [Tree.overlayEntries_cons]
      exact ho₁.trans ho'

/-- A merge of a mapping into a map that is a tree and shares no cell with it, however deep. -/
theorem mergeTo_overlay : ∀ (n : Nat) {within : Ref → Prop} {u : Tree String}, u.height ≤ n →
    Overlays (mergeTo n) within u := by
  intro n
  induction n with
  | zero =>
    intro within u hn g t inner source _ _ _ _ _ hmaps
    cases u with
    | map us => simp [Tree.height] at hn
    | _ => simp [Tree.isMap] at hmaps
  | succ n ih =>
    intro within u hn g t inner source hs hr htree hu hapart hmaps
    obtain ⟨⟨ts, rfl⟩, us, rfl⟩ : (∃ ts, t = .map ts) ∧ ∃ us, u = .map us := by
      cases t <;> cases u <;> simp [Tree.isMap] at hmaps ⊢
    obtain ⟨ys, hys, hown, happ, hentries⟩ := hu.allocated
    -- what the source shows is in cells that are there, so that no new cell of the map is one of them
    have hlower : ∀ p ∈ us, Overlays (mergeTo n) (fun r => within r ∧ r.index < g.size) p.2 := by
      refine fun p hp => ih (Nat.le_trans (Tree.height_le_heightEntries hp) ?_)
      rw [Tree.height] at hn
      exact Nat.le_of_succ_le_succ hn
    obtain ⟨g', hloop, ho⟩ := forEntries_overlay happ us hlower hs hr htree hys hown hentries
      (fun p hp => hp) fun r hw => ⟨hw.2, hapart r hw.1⟩
    obtain ⟨d, hd⟩ := dict?_of_entries? hys
    have hitems : g.items source = .ok ys := by rw [Heap.items, hd]
    refine ⟨g', ?_, by rwa [Tree.overlay_map]⟩
    simp only [mergeTo, forEach, ask, bind, EStateM.bind, hitems]
    rw [show ys.keys.length = ys.length by simp [Entries.keys]]
    exact hloop

/-- Merging a mapping into a map that is a tree and shares no cell with it: the map shows what
writing the entries gives. -/
theorem merge_overlay (hs : g.Sound) (hr : Shows g .stored t (.ref m)) (htree : IsTree g (.ref m))
    (hu : g.Reads .given within u v) (hapart : ∀ r, within r → ¬ Part g m r)
    (hmaps : (t.isMap && u.isMap) = true) :
    ∃ g', merge m v g = .ok (.ref m) g' ∧ Overlaid m (t.overlay u) g g' := by
  obtain ⟨source, hsource⟩ := Option.isSome_iff_exists.mp
    (hu.mapping?_given.mpr (hu.isMap_iff.mp (Bool.and_eq_true_iff.mp hmaps).2))
  have hv := eq_of_mapping? hsource
  subst hv
  -- a tree is no higher than there are cells
  obtain ⟨g', hrun, ho⟩ := mergeTo_overlay g.depth (Nat.le_succ_of_le hu.height_le) hs hr htree hu
    hapart hmaps
  refine ⟨g', ?_, ho⟩
  simp only [merge, bind, EStateM.bind, run_get, hsource, hrun]
  rfl

end PageMeta.AttributeMap
