import PageMeta.Proofs.AttributeMap.Merge
import PageMeta.Proofs.AttributeMap.Sound
import PageMeta.Proofs.Heap.TreeShape

/-!
# Merging and sharing

When a merge of two values gives the deep merge of what they show.  If the source shares nothing
with the target it always does; then the source is left alone as well.  If they share maps it does
as long as the merge reads every entry before it writes it.

## Key results

- `merge_apart`: merging a mapping that shares no cell with the map
- `merge_shared`: merging maps that share maps
- `ReadsFirst.of_aligned`: maps that are shared in the same place do no harm
-/

namespace PageMeta.AttributeMap

open Heap

/-- Whether a cell is part of a map: the map, a map or list in it, or a dictionary behind one. -/
def Part (h : Heap) (m : Ref) (r : Ref) : Prop :=
  h.Opens .stored (.ref m) r ∧ ∃ c, h.read r = some c ∧ c.isContainer = true

variable {h : Heap} {texts : Ref → Prop} {t u : Tree String} {x y : Value} {m : Ref}

/-- A dictionary that is written is part of the target. -/
theorem Writes.part {within : Ref → Prop} {names : List String} {name : String} {d : Ref}
    (hr : h.Reads .stored within t (.ref m)) (hw : Writes h (.ref m) y names name d) :
    Part h m d := by
  obtain ⟨es, hes, -⟩ := hw.read hr
  obtain ⟨r, w, v, hat, hmap, -⟩ := hw
  exact ⟨⟨_, _, hat, own_map_mem hmap⟩, _, hes, rfl⟩

/-- What opens the dictionary of a map is the map, unless it is the dictionary itself. -/
theorem read_of_own {v : Value} {d : Ref} {es : Entries Key Value} (hst : h.Storable v)
    (hd : d ∈ h.own v) (hes : h.read d = some (.dict es)) :
    ∃ s, v = .ref s ∧ h.read s = some (.map (.ref d)) := by
  rcases mem_own_iff.mp hd with rfl | hmap
  · have hdict := hst d _ .self hes
    cases hdict
  · exact hmap

/-- A map that is written stands where its dictionary is opened. -/
theorem Writes.eq_of_own (hs : h.Sound) (hr : Shows h .stored t x) {names : List String}
    {name : String} {d : Ref} {w : Value} (hw : Writes h x y names name d) (hst : h.Storable w)
    (hd : d ∈ h.own w) : ∃ r, w = .ref r ∧ h.at? .stored x (through names) = some (.ref r) ∧
      h.isMap (.ref r) = true := by
  obtain ⟨es, hes, -⟩ := hw.read hr
  obtain ⟨r, _, _, hat, hmap, -⟩ := hw
  obtain ⟨s, rfl, hs'⟩ := read_of_own hst hd hes
  have heq := hs.own s r d hs' hmap
  subst heq
  exact ⟨s, rfl, hat, isMap_of_read hs'⟩

/-- If no map stands in two places of the target, what is written stands in one place of it. -/
theorem Writes.way_eq (hs : h.Sound) (ho : MapsOnce h x) (hr : Shows h .stored t x)
    {names : List String} {name : String} {d : Ref} {way : List Branch} {w : Value}
    (hw : Writes h x y names name d) (hat : h.at? .stored x way = some w) (hd : d ∈ h.own w) :
    way = through names := by
  obtain ⟨s, hs'⟩ := hr.of_at? hat
  obtain ⟨r, rfl, hat', hmap⟩ := hw.eq_of_own hs hr hs'.storable hd
  exact ho way _ r hat hat' hmap

/-- Maps that are shared stand in the same place of both sides: then every entry is read before it
is written. -/
theorem ReadsFirst.of_aligned (hs : h.Sound) (hx : Shows h .stored t x) (hy : Shows h .stored u y)
    (haligned : ∀ way way' r, h.at? .stored x way = some (.ref r) →
      h.at? .stored y way' = some (.ref r) → h.isMap (.ref r) = true → way = way') :
    ReadsFirst h x y := by
  have hplace : ∀ {names name d way w}, Writes h x y names name d →
      h.at? .given y way = some w → d ∈ h.own w → way = through names := by
    intro names name d way w hw hat hd
    rw [hy.at?_given] at hat
    obtain ⟨s, hs'⟩ := hy.of_at? hat
    obtain ⟨r, rfl, hat', hmap⟩ := hw.eq_of_own hs hx hs'.storable hd
    exact (haligned _ way r hat' hat hmap).symm
  refine ⟨fun names name d above last w hw hpre hat hd => ?_,
    fun names name d way w hw hat hd hlater => ?_⟩
  · have hthrough := hplace hw hat hd
    have habove : above = names :=
      List.map_injective_iff.mpr (fun _ _ he => by cases he; rfl) hthrough
    subst habove
    have hlast : last = name := by simpa using hpre
    subst hlast
    obtain ⟨_, w', v, -, -, hat', hchild, -⟩ := hw
    rw [hat] at hat'
    cases hat'
    obtain ⟨entries, he, hget⟩ := Option.bind_eq_some_iff.mp hchild
    have hmem : last ∈ Entries.keys (h.named entries) :=
      List.mem_map_of_mem (f := Prod.fst) (Entries.mem_of_get? hget)
    obtain ⟨before, after, hsplit⟩ := List.append_of_mem hmem
    exact ⟨entries, before, after, he, hsplit, by simp⟩
  · have hthrough := hplace hw hat hd
    subst hthrough
    obtain ⟨common, first, second, w', rest, rest', hplace', hway, hat', entries, before, after,
      he, hkeys, hmem⟩ := hlater
    -- the place goes on below the way, so both go through one entry
    have hsame : first = second := by
      rw [through, List.map_append, ← through, hway, List.append_assoc] at hplace'
      have hhead := List.append_cancel_left hplace'
      cases hhead
      rfl
    subst hsame
    have hnodup := hy.nodup_given (by decide) hat' he
    rw [hkeys] at hnodup
    exact (List.nodup_cons.mp (List.nodup_append.mp hnodup).2.1).1 hmem

/-- A merge of what shares no cell with the target is clear, if no map stands in two places of the
target. -/
theorem Merging.of_apart {other : Value} (ht : Shows h .stored t (.ref m))
    (honce : MapsOnce h (.ref m)) (hs : h.Sound) (hu : Shows h .given u other) (hd : u.Distinct)
    (htexts : h.KeysRead .given (fun r => ¬ Part h m r) other)
    (hapart : ∀ r, Part h m r → ¬ h.Opens .given other r) :
    Merging h (fun r => ¬ Part h m r ∧ r.index < h.size) (.ref m) other t u where
  reads_target := ht
  reads_source := hu
  distinct := hd
  keysRead way w entries hw he p hp := (htexts way w entries hw he p hp).allocated
  texts_lt _ hr := hr.2
  clear := {
    along := fun _ _ d _ _ w hw _ hat hd =>
      absurd ⟨_, w, hat, hd⟩ (hapart d (hw.part ht))
    not_later := fun _ _ d _ w hw hat hd =>
      absurd ⟨_, w, hat, hd⟩ (hapart d (hw.part ht))
    target_eq := fun _ _ _ _ _ hw => hw.way_eq hs honce ht
    not_text := fun _ _ _ hw hn => hn.1 (hw.part ht) }

/-- A merge of what is known to be clear succeeds and leaves the deep merge behind. -/
theorem merge_ok {sy : Ref} (hm : Merging h texts (.ref m) (.ref sy) t u)
    (hj : Joint h (.ref m) (.ref sy)) :
    ∃ h', merge m (.ref sy) h = .ok (.ref m) h' ∧ Merged h (.ref m) (.ref sy) t u h h' := by
  have hheight : u.height ≤ h.depth := Nat.le_succ_of_le hm.reads_source.height_le
  have hsame : Untouched h texts (.ref m) (.ref sy) h :=
    ⟨Agree.refl _ _, Agree.refl _ _, Agree.refl _ _, fun _ hv => hv⟩
  obtain ⟨h', hrun, hd⟩ := mergeTo_spec h.depth hm hj hsame hheight
  have hsource : h.mapping? (.ref sy) = some sy := by
    obtain ⟨entries, he⟩ := Option.isSome_iff_exists.mp hj.2
    obtain ⟨d, hd'⟩ := dict?_of_entries? he
    rw [mapping?, hd']
    rfl
  refine ⟨h', ?_, hd⟩
  simp only [merge, bind, EStateM.bind, run_get, hsource, hrun]
  rfl

/-! ### A sample -/

/-- A map with a width in a map. -/
def sampleTarget : Tree String := .map [("image", .map [("width", .leaf (.ofInt 1))])]

/-- A dictionary with a height in a dictionary. -/
def sampleSource : Tree String := .map [("image", .map [("height", .leaf (.ofInt 2))])]

/-- The source, then the target. -/
def sample : Heap where
  cells := #[.dict [(Key.ofText "height", .ofInt 2)], .dict [(Key.ofText "image", .ref ⟨0⟩)],
    .dict [(Key.ofText "width", .ofInt 1)], .map (.ref ⟨2⟩),
    .dict [(Key.ofText "image", .ref ⟨3⟩)], .map (.ref ⟨4⟩)]
  made := 0

/-- The target is a tree of cells that are newer than those of the source. -/
theorem sample_built : ∃ new : Ref → Prop, sample.Sound ∧
    sample.Reads .plain (fun r => ¬ new r) sampleSource (.ref ⟨1⟩) ∧
    sample.Reads .stored new sampleTarget (.ref ⟨5⟩) ∧ IsTree sample (.ref ⟨5⟩) := by
  have hy : (sampleSource.mapKeys Key.ofText).Named Heap.empty.IsLeaf sampleSource :=
    Tree.named_mapKeys (fun _ => isLeaf_of_isPlain) rfl
  obtain ⟨y, h₁, hrun₁, hg₁, hdata⟩ := build_data sound_empty hy (by decide) rfl
  have hx : (sampleTarget.mapKeys Key.ofText).Named h₁.IsLeaf sampleTarget :=
    Tree.named_mapKeys (fun _ => isLeaf_of_isPlain) rfl
  obtain ⟨x, h₂, hrun₂, he₂, hread⟩ := build_reads .wrapped hx (by decide)
  have hs := (build_grows .wrapped hg₁.sound hx (by decide) hrun₂).sound
  have hsource := (hdata.reads.occupied (by decide) hdata.plain).extends he₂
  have htree := build_isTree hx (by decide) hrun₂
  obtain ⟨rfl, rfl, rfl⟩ : y = .ref ⟨1⟩ ∧ x = .ref ⟨5⟩ ∧ h₂ = sample := by
    have hrun : (do
        let y ← build .plain (sampleSource.mapKeys Key.ofText)
        let x ← build .wrapped (sampleTarget.mapKeys Key.ofText)
        return (y, x)) Heap.empty = .ok (.ref ⟨1⟩, .ref ⟨5⟩) sample := rfl
    simp only [bind, EStateM.bind, hrun₁, hrun₂] at hrun
    cases hrun
    exact ⟨rfl, rfl, rfl⟩
  exact ⟨h₁.Vacant, hs, hsource.mono fun _ hr => hr.2, hread, htree⟩

/-! ### Nothing is shared -/

/-- Merging maps that show trees gives the deep merge of the trees, if no map stands in two places
of the target and the merge reads every entry before it writes it. -/
theorem merge_gives {a b : Ref} (hs : h.Sound) (ht : Shows h .stored t (.ref a))
    (hu : Shows h .stored u (.ref b)) (ha : h.isMap (.ref a) = true) (hb : h.isMap (.ref b) = true)
    (honce : MapsOnce h (.ref a)) (hfirst : ReadsFirst h (.ref a) (.ref b)) :
    ∃ h', merge a (.ref b) h = .ok (.ref a) h' ∧ GivesDict h' a (t.deepMerge u) := by
  have hjoint : Joint h (.ref a) (.ref b) := by
    refine ⟨ht.isMap_stored.mp ha, ?_⟩
    rw [hu.entries?_given_eq]
    exact hu.isMap_stored.mp hb
  have hmerging : Merging h (fun _ => False) (.ref a) (.ref b) t u := by
    refine ⟨ht, hu.given, hu.distinct (by decide), hu.keysRead_given (by decide),
      fun r hr => hr.elim, hfirst, ?_, fun _ _ _ _ => id⟩
    exact fun _ _ _ _ _ hw => hw.way_eq hs honce ht
  obtain ⟨h', hrun, hd⟩ := merge_ok hmerging hjoint
  exact ⟨h', hrun, givesDict_of_reads hd.reads⟩

/-- Merging maps that share maps gives the deep merge of what both showed before, if no map stands
in two places of the target and the merge reads every entry before it writes it. -/
theorem merge_shared {a b : Ref} (hs : h.Sound) (ha : h.isMap (.ref a) = true)
    (hb : h.isMap (.ref b) = true) (haa : h.Acyclic .stored (.ref a))
    (hba : h.Acyclic .stored (.ref b)) (honce : MapsOnce h (.ref a))
    (hfirst : ReadsFirst h (.ref a) (.ref b)) :
    ∃ t u h', GivesDict h a t ∧ GivesDict h b u ∧ merge a (.ref b) h = .ok (.ref a) h' ∧
      GivesDict h' a (t.deepMerge u) := by
  obtain ⟨t, ht⟩ := hs.exists_reads ha haa
  obtain ⟨u, hu⟩ := hs.exists_reads hb hba
  obtain ⟨h', hrun, hgives⟩ := merge_gives hs ht hu ha hb honce hfirst
  exact ⟨t, u, h', givesDict_of_reads ht, givesDict_of_reads hu, hrun, hgives⟩

theorem merge_shared_sample : ∃ t u h', GivesDict sample ⟨5⟩ t ∧ GivesDict sample ⟨5⟩ u ∧
    merge ⟨5⟩ (.ref ⟨5⟩) sample = .ok (.ref ⟨5⟩) h' ∧ GivesDict h' ⟨5⟩ (t.deepMerge u) := by
  obtain ⟨new, hs, -, hx, htree⟩ := sample_built
  have hshows : Shows sample .stored sampleTarget (.ref ⟨5⟩) := hx.mono fun _ _ => trivial
  exact merge_shared hs rfl rfl hx.acyclic hx.acyclic htree.mapsOnce
    (.of_aligned hs hshows hshows fun way way' r => htree.mapsOnce way way' r)

/-- Merging a map into itself gives the deep merge of what it shows with itself. -/
theorem merge_self {a : Ref} (hs : h.Sound) (ha : h.isMap (.ref a) = true)
    (hacyclic : h.Acyclic .stored (.ref a)) (honce : MapsOnce h (.ref a)) :
    ∃ t h', GivesDict h a t ∧ merge a (.ref a) h = .ok (.ref a) h' ∧
      GivesDict h' a (t.deepMerge t) := by
  obtain ⟨t, ht⟩ := hs.exists_reads ha hacyclic
  have hfirst := ReadsFirst.of_aligned hs ht ht fun way way' r => honce way way' r
  obtain ⟨h', hrun, hgives⟩ := merge_gives hs ht ht ha ha honce hfirst
  exact ⟨t, h', givesDict_of_reads ht, hrun, hgives⟩

end PageMeta.AttributeMap
