import PageMeta.Proofs.AttributeMap.Overlay
import PageMeta.Proofs.Tree.Layers

/-!
# Layers of attribute maps

Layers may be merged one after the other into the lowest, or the upper ones first into a copy of the
middle one.  The layers share no cells, so each merge is one of trees, and what was there stays.

## Key results

- `merge_given`: whatever form what is merged is given in
- `merge_copy_apart`: merging into a copy of a map, apart from a third
- `merge_layers`: both ways give the same plain data, as long as no value stands between two maps
-/

namespace PageMeta

namespace Heap

variable {h : Heap} {view : View} {within : Ref → Prop} {t u : Tree String} {v : Value}

/-- A path of keys in a tree is one in the value that shows it. -/
theorem Reads.at?_through (hr : h.Reads view within t v) (way : List String) :
    (t.at? way = none ∧ h.at? view v (through way) = none) ∨
      ∃ u w, t.at? way = some u ∧ h.at? view v (through way) = some w ∧ h.Reads view within u w := by
  induction way generalizing t v with
  | nil => exact .inr ⟨t, v, t.at?_nil, rfl, hr⟩
  | cons name way ih =>
    rw [through, List.map_cons, Heap.at?, ← through]
    cases t with
    | map ts =>
      rw [Tree.at?]
      rcases hr.child?_entry name with ⟨ht, hv⟩ | ⟨u, w, ht, hv, hrw⟩
      · rw [ht, hv]
        exact .inl ⟨rfl, rfl⟩
      · rw [ht, hv]
        exact ih hrw
    | leaf x => rw [Heap.child?, hr.2.1.entries?_eq_none]; exact .inl ⟨rfl, rfl⟩
    | list us =>
      obtain ⟨items, hi, -⟩ := hr
      rw [Heap.child?, entries?_eq_none_of_items? hi]
      exact .inl ⟨rfl, rfl⟩

/-- What stands under a path of keys in a tree stands there in the value that shows it. -/
theorem Reads.exists_through (hr : h.Reads view within t v) {way : List String}
    (hu : t.at? way = some u) :
    ∃ w, h.at? view v (through way) = some w ∧ h.Reads view within u w := by
  rcases hr.at?_through way with ⟨hnone, -⟩ | ⟨u', w, hu', hw, hread⟩
  · rw [hu] at hnone; cases hnone
  · rw [hu] at hu'
    cases hu'
    exact ⟨w, hw, hread⟩

/-- What stands under a path of keys in a value stands there in the tree. -/
theorem Reads.of_through (hr : h.Reads view within t v) {way : List String} {w : Value}
    (hw : h.at? view v (through way) = some w) :
    ∃ u, t.at? way = some u ∧ h.Reads view within u w := by
  rcases hr.at?_through way with ⟨-, hnone⟩ | ⟨u, w', hu, hw', hread⟩
  · rw [hw] at hnone; cases hnone
  · rw [hw] at hw'
    cases hw'
    exact ⟨u, hu, hread⟩

end Heap

namespace AttributeMap

open Heap

variable {h g : Heap} {a b c m n : Ref} {within : Ref → Prop} {t u w : Tree String} {v : Value}

/-! ### A copy and what was there -/

/-- What was there before a map is made is no part of the map. -/
theorem not_part_of_vacant (he : Extends h g) (hnew : g.Reads .stored h.Vacant t (.ref m))
    {r : Ref} (hr : r.index < h.size) : ¬ Part g m r := by
  rintro ⟨ho, c, hc, hcontainer⟩
  rw [he.read_eq r hr] at hc
  exact not_vacant_of_read hc hcontainer (hnew.within_of_opens ho)

/-- What is new after a map is made is no part of the map. -/
theorem not_vacant_of_part (hm : h.Reads .stored within t (.ref m)) (he : Extends h g) {r : Ref}
    (hp : Part g m r) : ¬ h.Vacant r := by
  obtain ⟨ho, c, hc, hcontainer⟩ := hp
  rw [he.read_eq r (hm.opens_lt (hm.opens_of_extends he ho))] at hc
  exact not_vacant_of_read hc hcontainer

/-- A map shares nothing with a later one that consists of new cells. -/
theorem apart_of_vacant (hm : h.Reads .stored within t (.ref m)) (he : Extends h g)
    (hnew : g.Reads .stored h.Vacant u (.ref n)) : ∀ r, Part g m r → ¬ Part g n r := fun _ hp hp' =>
  not_vacant_of_part hm he hp (hnew.within_of_opens hp'.1)

/-- A map that is a tree has the deep merge, in whatever form what is merged is given, as long as it has
each name once and shares no part with the map. -/
theorem merge_given (hs : g.Sound) (ha : Shows g .stored t (.ref a)) (htree : IsTree g (.ref a))
    (hr : g.Reads .given within u v) (hd : u.Distinct) (hapart : ∀ r, within r → ¬ Part g a r)
    (hmaps : (t.isMap && u.isMap) = true) :
    ∃ g', merge a v g = .ok (.ref a) g' ∧ Overlaid a (t.deepMerge u) g g' := by
  obtain ⟨g', hrun, ho⟩ := merge_overlay hs ha htree hr hapart hmaps
  rw [Tree.overlay_of_distinct (ha.distinct (by decide)) hd] at ho
  exact ⟨g', hrun, ho⟩

/-- Whatever map is merged into a map that is a tree and shares no part with it, the map has the deep
merge. -/
theorem merge_tree (hs : g.Sound) (ha : Shows g .stored t (.ref a)) (htree : IsTree g (.ref a))
    (hb : Shows g .stored u (.ref b)) (hapart : ∀ r, Part g a r → ¬ Part g b r)
    (hmaps : (t.isMap && u.isMap) = true) :
    ∃ g', merge a (.ref b) g = .ok (.ref a) g' ∧ Overlaid a (t.deepMerge u) g g' :=
  merge_given hs ha htree (hb.opened (by decide)).given (hb.distinct (by decide))
    (fun r ho hp => hapart r hp ⟨ho, hp.2⟩) hmaps

/-- A map that is made of a mapping is a tree of new cells. -/
theorem create_tree (hs : h.Sound) (hr : h.Reads .given within u v) (hm : u.isMap = true) :
    ∃ n g, create v h = .ok (.ref n) g ∧ Grows .wrapped h g ∧
      g.Reads .stored h.Vacant u.norm (.ref n) ∧ IsTree g (.ref n) := by
  obtain ⟨w, g, hwrap, hgrows, hread, htree⟩ := wrap_tree hs hr
  have hmapping : h.isMapping v = true := hr.mapping?_given.mpr (hr.isMap_iff.mp hm)
  obtain ⟨n, rfl⟩ : ∃ n, w = .ref n := by
    have hmap : g.isMap w = true := by
      refine hread.isMap_stored.mpr (hread.isMap_iff.mp ?_)
      cases u <;> first | rfl | cases hm
    cases w with
    | ref n => exact ⟨n, rfl⟩
    | _ => cases hmap
  refine ⟨n, g, ?_, hgrows, hread, htree⟩
  cases v with
  | none => cases hmapping
  | _ => simp only [create, bind, EStateM.bind, run_get, hmapping, if_true, hwrap]

/-- A copy of a map takes what is merged into it, and what was there before stays as it was. -/
theorem merge_copy_apart (hs : h.Sound) (hb : Shows h .stored u (.ref b))
    (hc : Shows h .stored w (.ref c)) (hmaps : (u.isMap && w.isMap) = true) :
    ∃ copy g g', create (.ref b) h = .ok (.ref copy) g ∧
      merge copy (.ref c) g = .ok (.ref copy) g' ∧ g'.Sound ∧
      g'.Reads .stored h.Vacant (u.deepMerge w) (.ref copy) ∧ Extends h g' := by
  obtain ⟨copy, g, hcreate, hgrows, hread, htree⟩ :=
    create_tree hs hb.given (Bool.and_eq_true_iff.mp hmaps).1
  rw [Tree.norm_of_distinct (hb.distinct (by decide))] at hread
  have he := hgrows.cells
  obtain ⟨g', hmerge, ho⟩ := merge_tree hgrows.sound (hread.mono fun _ _ => trivial) htree
    ((hc.extends he).mono fun _ _ => trivial)
    (fun r hp hp' => apart_of_vacant hc he hread r hp' hp) hmaps
  refine ⟨copy, g, g', hcreate, hmerge, ho.sound, ?_, ?_⟩
  · refine (ho.reads.opened (by decide)).mono fun r hr => ?_
    exact (ho.tended.opens r hr).elim hread.within_of_opens fun hv => hv.of_extends he
  · refine ⟨Nat.le_trans he.size_le ho.tended.size_le, fun r hr => ?_⟩
    rw [ho.tended.read_eq r (Nat.lt_of_lt_of_le hr he.size_le) (not_part_of_vacant he hread hr),
      he.read_eq r hr]

/-! ### Three layers -/

/-- Maps on a path of keys that all three layers have are maps in the trees that they show. -/
theorem bridges_of_maps (ha : Shows h .stored t (.ref a)) (hb : Shows h .stored u (.ref b))
    (hc : Shows h .stored w (.ref c))
    (hbetween : ∀ names x y z, h.at? .stored (.ref a) (through names) = some x →
      h.at? .stored (.ref b) (through names) = some y →
      h.at? .stored (.ref c) (through names) = some z →
      h.isMap x = true → h.isMap z = true → h.isMap y = true) : Tree.Bridges u t w := by
  intro way t' u' w' ht hu hw hmt hmw
  obtain ⟨x, hx, hrx⟩ := ha.exists_through ht
  obtain ⟨y, hy, hry⟩ := hb.exists_through hu
  obtain ⟨z, hz, hrz⟩ := hc.exists_through hw
  exact hry.isMap_iff.mpr (hry.isMap_stored.mp (hbetween way x y z hx hy hz
    (hrx.isMap_stored.mpr (hrx.isMap_iff.mp hmt)) (hrz.isMap_stored.mpr (hrz.isMap_iff.mp hmw))))

/-- Merging two layers into a map one after the other gives the same plain data, in the same order,
as merging the second into a copy of the first and the copy into the map, as long as no value stands
between two maps. -/
theorem merge_layers (hs : h.Sound) (ha : h.isMap (.ref a) = true) (hb : h.isMap (.ref b) = true)
    (hc : h.isMap (.ref c) = true) (htree : IsTree h (.ref a)) (hbacyclic : h.Acyclic .stored (.ref b))
    (hcacyclic : h.Acyclic .stored (.ref c)) (hab : ∀ r, Part h a r → ¬ Part h b r)
    (hac : ∀ r, Part h a r → ¬ Part h c r)
    (hbetween : ∀ names x y z, h.at? .stored (.ref a) (through names) = some x →
      h.at? .stored (.ref b) (through names) = some y →
      h.at? .stored (.ref c) (through names) = some z →
      h.isMap x = true → h.isMap z = true → h.isMap y = true) :
    ∃ t u w, GivesDict h a t ∧ GivesDict h b u ∧ GivesDict h c w ∧
      (∃ g g', merge a (.ref b) h = .ok (.ref a) g ∧ merge a (.ref c) g = .ok (.ref a) g' ∧
        GivesDict g' a ((t.deepMerge u).deepMerge w)) ∧
      ∃ copy g g' g'', create (.ref b) h = .ok (.ref copy) g ∧
        merge copy (.ref c) g = .ok (.ref copy) g' ∧ merge a (.ref copy) g' = .ok (.ref a) g'' ∧
        GivesDict g'' a ((t.deepMerge u).deepMerge w) := by
  obtain ⟨t, ht⟩ := hs.exists_reads ha htree.acyclic
  obtain ⟨u, hu⟩ := hs.exists_reads hb hbacyclic
  obtain ⟨w, hw⟩ := hs.exists_reads hc hcacyclic
  have hmt : t.isMap = true := ht.isMap_iff.mpr (ht.isMap_stored.mp ha)
  have hmu : u.isMap = true := hu.isMap_iff.mpr (hu.isMap_stored.mp hb)
  have hmw : w.isMap = true := hw.isMap_iff.mpr (hw.isMap_stored.mp hc)
  refine ⟨t, u, w, givesDict_of_reads ht, givesDict_of_reads hu, givesDict_of_reads hw, ?_, ?_⟩
  · -- the third layer shares nothing with the map after the first merge either
    obtain ⟨g, hrun, ho⟩ := merge_tree hs ht htree hu hab (by rw [hmt, hmu]; rfl)
    have hnot : ∀ r, h.Opens .stored (.ref c) r → ¬ Part h a r :=
      fun r ho hp => hac r hp ⟨ho, hp.2⟩
    have hw' := ho.tended.reads (hw.opened (by decide)) hnot
    have hmaps : ((t.deepMerge u).isMap && w.isMap) = true := by
      rw [Tree.isMap_deepMerge, hmu, hmw]; rfl
    obtain ⟨g', hrun', ho'⟩ := merge_tree ho.sound ho.reads ho.tree (hw'.mono fun _ _ => trivial)
      (fun r hp hp' => ho.tended.not_part (hw'.within_of_opens hp'.1).2
        (hnot r (hw'.within_of_opens hp'.1).1) hp) hmaps
    exact ⟨g, g', hrun, hrun', givesDict_of_reads ho'.reads⟩
  · obtain ⟨copy, g, g', hcreate, hmerge, hs', hread, he⟩ :=
      merge_copy_apart hs hu hw (by rw [hmu, hmw]; rfl)
    have hmaps : (t.isMap && (u.deepMerge w).isMap) = true := by
      rw [Tree.isMap_deepMerge, hmt, hmw]; rfl
    obtain ⟨g'', hrun, ho⟩ := merge_tree hs' (ht.allocated.extends he |>.mono fun _ _ => trivial)
      (htree.extends ht he) (hread.mono fun _ _ => trivial) (apart_of_vacant ht he hread) hmaps
    refine ⟨copy, g, g', g'', hcreate, hmerge, hrun, ?_⟩
    rw [Tree.deepMerge_assoc (ht.distinct (by decide)) (hu.distinct (by decide))
      (hw.distinct (by decide)) (bridges_of_maps ht hu hw hbetween)]
    exact givesDict_of_reads ho.reads

/-! ### A sample -/

/-- A width, a height beside another key, and a width again. -/
def lowerLayer : Tree String := .map [("image", .map [("width", .leaf (.ofInt 1))])]

@[inherit_doc lowerLayer]
def middleLayer : Tree String :=
  .map [("image", .map [("height", .leaf (.ofInt 2))]), ("url", .leaf .none)]

@[inherit_doc lowerLayer]
def upperLayer : Tree String := .map [("image", .map [("width", .leaf (.ofInt 3))])]

/-- Three maps, one for each layer. -/
def layers : Heap where
  cells := #[.dict [(Key.ofText "width", .ofInt 1)], .map (.ref ⟨0⟩),
    .dict [(Key.ofText "image", .ref ⟨1⟩)], .map (.ref ⟨2⟩),
    .dict [(Key.ofText "height", .ofInt 2)], .map (.ref ⟨4⟩),
    .dict [(Key.ofText "image", .ref ⟨5⟩), (Key.ofText "url", .none)], .map (.ref ⟨6⟩),
    .dict [(Key.ofText "width", .ofInt 3)], .map (.ref ⟨8⟩),
    .dict [(Key.ofText "image", .ref ⟨9⟩)], .map (.ref ⟨10⟩)]
  made := 0

/-- A map that is made of plain leaves is a tree of new cells. -/
theorem exists_built (hs : h.Sound) (hp : t.isPlain = true) (hd : t.Distinct) :
    ∃ v g, build .wrapped (t.mapKeys Key.ofText) h = .ok v g ∧ g.Sound ∧ Extends h g ∧
      g.Reads .stored h.Vacant t v ∧ IsTree g v := by
  have hn : (t.mapKeys Key.ofText).Named h.IsLeaf t :=
    Tree.named_mapKeys (fun _ => isLeaf_of_isPlain) hp
  obtain ⟨v, g, hrun, he, hread⟩ := build_reads .wrapped hn hd
  exact ⟨v, g, hrun, (build_grows .wrapped hs hn hd hrun).sound, he, hread,
    build_isTree hn hd hrun⟩

theorem merge_layers_sample : ∃ t u w, GivesDict layers ⟨3⟩ t ∧ GivesDict layers ⟨7⟩ u ∧
    GivesDict layers ⟨11⟩ w ∧
    (∃ g g', merge ⟨3⟩ (.ref ⟨7⟩) layers = .ok (.ref ⟨3⟩) g ∧
      merge ⟨3⟩ (.ref ⟨11⟩) g = .ok (.ref ⟨3⟩) g' ∧
      GivesDict g' ⟨3⟩ ((t.deepMerge u).deepMerge w)) ∧
    ∃ copy g g' g'', create (.ref ⟨7⟩) layers = .ok (.ref copy) g ∧
      merge copy (.ref ⟨11⟩) g = .ok (.ref copy) g' ∧
      merge ⟨3⟩ (.ref copy) g' = .ok (.ref ⟨3⟩) g'' ∧
      GivesDict g'' ⟨3⟩ ((t.deepMerge u).deepMerge w) := by
  obtain ⟨x, h₁, hx, hs₁, -, hrx, htx⟩ := exists_built (t := lowerLayer) sound_empty rfl (by decide)
  obtain ⟨y, h₂, hy, hs₂, he₂, hry, -⟩ := exists_built (t := middleLayer) hs₁ rfl (by decide)
  obtain ⟨z, h₃, hz, hs₃, he₃, hrz, -⟩ := exists_built (t := upperLayer) hs₂ rfl (by decide)
  obtain ⟨rfl, rfl, rfl, rfl⟩ : x = .ref ⟨3⟩ ∧ y = .ref ⟨7⟩ ∧ z = .ref ⟨11⟩ ∧ h₃ = layers := by
    have hrun : (do
        let x ← build .wrapped (lowerLayer.mapKeys Key.ofText)
        let y ← build .wrapped (middleLayer.mapKeys Key.ofText)
        let z ← build .wrapped (upperLayer.mapKeys Key.ofText)
        return (x, y, z)) Heap.empty = .ok (.ref ⟨3⟩, .ref ⟨7⟩, .ref ⟨11⟩) layers := rfl
    simp only [bind, EStateM.bind, hx, hy, hz] at hrun
    cases hrun
    exact ⟨rfl, rfl, rfl, rfl⟩
  have hex := he₂.trans he₃
  have hx' := hrx.extends hex
  have hy' := hry.extends he₃
  refine merge_layers hs₃ rfl rfl rfl (htx.extends hrx hex) hy'.acyclic hrz.acyclic
    (apart_of_vacant hrx hex hy') (apart_of_vacant (hrx.extends he₂) he₃ hrz)
    fun names x y z hatx haty hatz hmx hmz => ?_
  -- the image is a map in all three, and nothing in it
  have hbridges : Tree.Bridges middleLayer lowerLayer upperLayer := by
    refine Tree.bridges_map_iff.mpr fun key t u w ht hu hw => ?_
    obtain ⟨rfl, rfl⟩ : key = "image" ∧ t = .map [("width", .leaf (.ofInt 1))] := by
      simpa using Entries.mem_of_get? ht
    cases hu
    cases hw
    refine Tree.bridges_map_iff.mpr fun key t u w ht hu hw => ?_
    obtain ⟨rfl, -⟩ : key = "width" ∧ t = .leaf (.ofInt 1) := by
      simpa using Entries.mem_of_get? ht
    cases hu
  obtain ⟨t, ht, hrt⟩ := hx'.of_through hatx
  obtain ⟨u, hu, hru⟩ := hy'.of_through haty
  obtain ⟨w, hw, hrw⟩ := hrz.of_through hatz
  exact hru.isMap_stored.mpr (hru.isMap_iff.mp (hbridges names t u w ht hu hw
    (hrt.isMap_iff.mpr (hrt.isMap_stored.mp hmx)) (hrw.isMap_iff.mpr (hrw.isMap_stored.mp hmz))))

end AttributeMap

end PageMeta
