import PageMeta.AttributeMap.Basic
import PageMeta.Proofs.Heap.Changes
import PageMeta.Proofs.Heap.Paths
import PageMeta.Proofs.Outcome
import PageMeta.Proofs.Tree.Merge

/-!
# Half-way through a merge

Merging goes through the source while it writes into the target.  The source may hold maps of the
target; then what is read depends on what was written before.  `ReadsFirst` says that it does not:
no entry is read after it is written, and no map gets a new key while it is gone through.

Everything is said about the heap before the merge.  `Midway` is the invariant of the loop over the
entries of one level; it gives that the heap of the moment has, of what is still to be read, what
the heap before had.

## Key results

- `Clear.child`: a merge that no write disturbs has no disturbed part
- `Midway.agree_target`, `Midway.agree_source`: what is not merged yet is as it was before
- `Midway.source_eq`: the entries that are still to be read are those of the heap before
-/

namespace PageMeta.AttributeMap

open Heap

/-- Whether merging goes down: one side is an attribute map, the other a mapping. -/
def Joint (h : Heap) (v w : Value) : Prop :=
  (h.entries? .stored v).isSome ∧ (h.entries? .given w).isSome

/-- Whether merging writes the entry `name` of the map at the place `names` of the target, which
keeps its entries at `d`. -/
def Writes (h : Heap) (target source : Value) (names : List String) (name : String) (d : Ref) :
    Prop :=
  ∃ r w u, h.at? .stored target (through names) = some (.ref r) ∧
    h.read r = some (.map (.ref d)) ∧
    h.at? .given source (through names) = some w ∧ h.child? .given w (.entry name) = some u ∧
    ∀ c, h.child? .stored (.ref r) (.entry name) = some c → ¬ Joint h c u

/-- Whether a name comes after another among the entries of a value. -/
def Follows (h : Heap) (v : Value) (first second : String) : Prop :=
  ∃ entries before after, h.entries? .given v = some entries ∧
    Entries.keys (h.named entries) = before ++ first :: after ∧ second ∈ after

/-- Whether a place of the source is gone to after another: where the ways part, it goes through a
later entry. -/
def Later (h : Heap) (source : Value) (place way : List Branch) : Prop :=
  ∃ common first second w rest rest', place = common ++ .entry first :: rest ∧
    way = common ++ .entry second :: rest' ∧ h.at? .given source common = some w ∧
    Follows h w first second

/-- Whether a name is one of the entries of a value that are gone through until another. -/
def Until (h : Heap) (v : Value) (last name : String) : Prop :=
  ∃ entries before after, h.entries? .given v = some entries ∧
    Entries.keys (h.named entries) = before ++ last :: after ∧ name ∈ before ++ [last]

/-- Whether a merge reads every entry of a map before it writes it. -/
structure ReadsFirst (h : Heap) (target source : Value) : Prop where
  /-- A map that is gone through while it is written is written where it was gone through. -/
  along : ∀ names name d above last w, Writes h target source names name d →
    above ++ [last] <+: names ++ [name] → h.at? .given source (through above) = some w →
    d ∈ h.own w → Until h w last name
  /-- A map that is written is not gone to later. -/
  not_later : ∀ names name d way w, Writes h target source names name d →
    h.at? .given source way = some w → d ∈ h.own w →
    ¬ Later h source (through (names ++ [name])) way

/-- Whether no write of a merge changes what the merge reads later, or what it must leave alone.
`texts` are the cells on which the texts of the keys of the source depend. -/
structure Clear (h : Heap) (texts : Ref → Prop) (target source : Value) : Prop
    extends ReadsFirst h target source where
  /-- A map that is written stands in one place of the target. -/
  target_eq : ∀ names name d way w, Writes h target source names name d →
    h.at? .stored target way = some w → d ∈ h.own w → way = through names
  not_text : ∀ names name d, Writes h target source names name d → ¬ texts d

/-- What has to be known of a merge before it starts. -/
structure Merging (h : Heap) (texts : Ref → Prop) (target source : Value)
    (t u : Tree String) : Prop where
  reads_target : h.Reads .stored (fun _ => True) t target
  reads_source : h.Reads .given (fun _ => True) u source
  distinct : u.Distinct
  keysRead : h.KeysRead .given texts source
  texts_lt : ∀ r, texts r → r.index < h.size
  clear : Clear h texts target source

/-- Whether a heap has what a merge reads, and no container less than before. -/
structure Untouched (before : Heap) (texts : Ref → Prop) (target source : Value) (h : Heap) :
    Prop where
  target : Agree (before.Opens .stored target) before h
  source : Agree (before.Opens .given source) before h
  texts : Agree texts before h
  vacant : ∀ r, h.Vacant r → before.Vacant r

variable {h g : Heap} {texts : Ref → Prop} {x y : Value} {t u : Tree String}

/-! ### One level down -/

theorem Writes.up {c v : Value} {name n : String} {names : List String} {d : Ref}
    (hc : h.child? .stored x (.entry n) = some c) (hv : h.child? .given y (.entry n) = some v)
    (hw : Writes h c v names name d) : Writes h x y (n :: names) name d := by
  obtain ⟨r, w, u, hx, hr, hy, hu, hn⟩ := hw
  refine ⟨r, w, u, ?_, hr, ?_, hu, hn⟩
  · rw [through, List.map_cons, at?_cons hc]; exact hx
  · rw [through, List.map_cons, at?_cons hv]; exact hy

theorem Later.up {v : Value} {n : String} {place way : List Branch}
    (hv : h.child? .given y (.entry n) = some v) (hl : Later h v place way) :
    Later h y (.entry n :: place) (.entry n :: way) := by
  obtain ⟨common, first, second, w, rest, rest', rfl, rfl, hw, hf⟩ := hl
  exact ⟨.entry n :: common, first, second, w, rest, rest', rfl, rfl,
    (at?_cons hv).trans hw, hf⟩

/-- A merge that no write disturbs has no disturbed part. -/
theorem Clear.child {c v : Value} {n : String} (hcl : Clear h texts x y)
    (hc : h.child? .stored x (.entry n) = some c) (hv : h.child? .given y (.entry n) = some v) :
    Clear h texts c v where
  target_eq names name d way w hw hat hd := by
    have heq := hcl.target_eq _ _ _ _ _ (hw.up hc hv) ((at?_cons hc).trans hat) hd
    exact (List.cons.inj heq).2
  along names name d above last w hw hpre hat hd :=
    hcl.along _ _ _ (n :: above) last w (hw.up hc hv) (List.cons_prefix_cons.mpr ⟨rfl, hpre⟩)
      ((at?_cons hv).trans hat) hd
  not_later names name d way w hw hat hd hl :=
    hcl.not_later _ _ _ _ _ (hw.up hc hv) ((at?_cons hv).trans hat) hd (hl.up hv)
  not_text names name d hw := hcl.not_text _ _ _ (hw.up hc hv)

/-- What is written is the dictionary behind an attribute map, with texts as keys. -/
theorem Writes.read {names : List String} {name : String} {d : Ref} {within : Ref → Prop}
    (hr : h.Reads .stored within t x) (hw : Writes h x y names name d) :
    ∃ es, h.read d = some (.dict es) ∧ ∀ p ∈ es, ∃ s, p.1.text? = some s := by
  obtain ⟨r, w, v, hat, hr', -⟩ := hw
  obtain ⟨s, hs⟩ := hr.of_at? hat
  -- the dictionary stands behind a map, and only what shows a map has one there
  cases s with
  | leaf s =>
    obtain ⟨c, hc, hn⟩ := hs.2.1.2 r rfl
    rw [hr'] at hc
    cases hc
    cases hn
  | list ss =>
    obtain ⟨items, hi, -⟩ := hs
    simp [items?, cell?, hr'] at hi
  | map ss =>
    have hkeys := hs.keysRead
    obtain ⟨entries, he, -⟩ := hs
    obtain ⟨_, heq, ⟨-, hv⟩ | ⟨d', hd', hes, -⟩⟩ := cell_of_entries? he
    · exact absurd rfl hv
    · cases heq
      rw [hr'] at hd'
      cases hd'
      exact ⟨entries, hes, fun p hp => ⟨_, hkeys [] _ _ rfl he p hp⟩⟩

/-- So it is no attribute map itself. -/
theorem Writes.read_ne_map {names : List String} {name : String} {d : Ref} {within : Ref → Prop}
    (hr : h.Reads .stored within t x) (hw : Writes h x y names name d) {data : Value} :
    h.read d ≠ some (.map data) := by
  intro hd
  obtain ⟨es, hes, -⟩ := hw.read hr
  rw [hd] at hes
  cases hes

/-- And it is not vacant. -/
theorem Writes.not_vacant {names : List String} {name : String} {d : Ref} {within : Ref → Prop}
    (hr : h.Reads .stored within t x) (hw : Writes h x y names name d) : ¬ h.Vacant d := by
  intro hv
  obtain ⟨es, hes, -⟩ := hw.read hr
  exact absurd (hv _ hes) (by simp [Cell.isContainer])

/-! ### One level -/

/-- A level of a merge: an attribute map over its dictionary, and the entries of the source. -/
structure Level (h : Heap) (texts : Ref → Prop) (tx dx sy : Ref) (xs ys : Entries Key Value)
    (ts us : Entries String (Tree String)) : Prop where
  merging : Merging h texts (.ref tx) (.ref sy) (.map ts) (.map us)
  read_map : h.read tx = some (.map (.ref dx))
  read_dict : h.read dx = some (.dict xs)
  entries : h.entries? .given (.ref sy) = some ys

variable {tx dx sy : Ref} {xs ys : Entries Key Value} {ts us : Entries String (Tree String)}

/-- Two trees that are maps are merged on a level. -/
theorem Merging.level (hm : Merging h texts x y (.map ts) (.map us)) :
    ∃ tx dx sy xs ys, x = .ref tx ∧ y = .ref sy ∧ Level h texts tx dx sy xs ys ts us := by
  obtain ⟨xs, hxs, -⟩ := hm.reads_target
  obtain ⟨ys, hys, -⟩ := hm.reads_source
  obtain ⟨tx, rfl, ⟨-, hv⟩ | ⟨dx, htx, hdx, -⟩⟩ := cell_of_entries? hxs
  · exact absurd rfl hv
  · obtain ⟨sy, rfl, -⟩ := ref_of_entries? hys
    exact ⟨tx, dx, sy, xs, ys, rfl, rfl, hm, htx, hdx, hys⟩

namespace Level

theorem own_target (hl : Level h texts tx dx sy xs ys ts us) : dx ∈ h.own (.ref tx) :=
  own_map_mem hl.read_map

theorem reads_target (hl : Level h texts tx dx sy xs ys ts us) :
    h.ReadsEntries .stored (fun _ => True) ts xs ∧ xs.Apart := by
  obtain ⟨xs', hxs, -, ha, hr⟩ := hl.merging.reads_target
  have he : h.entries? .stored (.ref tx) = some xs := by
    simp [entries?, cell?, hl.read_map, hl.read_dict]
  rw [he] at hxs
  cases hxs
  exact ⟨hr, ha⟩

theorem reads_source (hl : Level h texts tx dx sy xs ys ts us) :
    h.ReadsEntries .given (fun _ => True) us ys ∧ ys.Apart := by
  obtain ⟨ys', hys, -, ha, hr⟩ := hl.merging.reads_source
  rw [hl.entries] at hys
  cases hys
  exact ⟨hr, ha⟩

theorem match_target (hl : Level h texts tx dx sy xs ys ts us) :
    Entries.Match (fun _ t v => h.Reads .stored (fun _ => True) t v) ts xs :=
  readsEntries_iff.mp hl.reads_target.1

theorem nodup_target (hl : Level h texts tx dx sy xs ys ts us) : (Entries.keys ts).Nodup :=
  hl.match_target.apart_iff.mp hl.reads_target.2

theorem nodup_source (hl : Level h texts tx dx sy xs ys ts us) : (Entries.keys us).Nodup :=
  hl.merging.distinct.1

theorem entries_target (hl : Level h texts tx dx sy xs ys ts us) :
    h.entries? .stored (.ref tx) = some xs := by
  simp [entries?, cell?, hl.read_map, hl.read_dict]

/-- The level itself writes in its own dictionary only. -/
theorem writes_dict (hl : Level h texts tx dx sy xs ys ts us) {names : List String} {name : String}
    (hw : Writes h (.ref tx) (.ref sy) names name dx) : names = [] := by
  have heq := hl.merging.clear.target_eq _ _ _ [] _ hw rfl hl.own_target
  exact List.map_eq_nil_iff.mp heq.symm

end Level

/-- The cells on which the new value of a name depends: those of the old value, and new ones. -/
def Below (h : Heap) (x : Value) (name : String) (r : Ref) : Prop :=
  h.Vacant r ∨ ∃ c, h.child? .stored x (.entry name) = some c ∧ h.Opens .stored c r

/-- Whether an entry is written while some names are merged. -/
def Wrote (h : Heap) (x y : Value) (done : List String) (name : String) (d : Ref) : Prop :=
  ∃ names first, Writes h x y names name d ∧ (names ++ [name]).head? = some first ∧ first ∈ done

/-- The state of a level in the course of a merge: some names are merged, the others are as
before. -/
structure Midway (h : Heap) (tx dx sy : Ref) (ts done : Entries String (Tree String))
    (start g : Heap) : Prop where
  changes : Changes (Wrote h (.ref tx) (.ref sy) (Entries.keys done)) start g
  content : ∃ es, g.read dx = some (.dict es) ∧
    Entries.Match (fun n t v => g.Reads .stored (Below h (.ref tx) n) t v)
      (Tree.mergeEntries ts done) es

/-- What comes up to an item that is in the first part of a list is in the first part. -/
theorem mem_of_until {α : Type} {before after done rest : List α} {last a : α}
    (hsplit : done ++ rest = before ++ last :: after) (hnodup : (done ++ rest).Nodup)
    (hlast : last ∈ done) (ha : a ∈ before ++ [last]) : a ∈ done := by
  have hdisj := (List.nodup_append.mp hnodup).2.2
  have hnot : last ∉ rest := fun hr => hdisj last hlast last hr rfl
  rcases List.append_eq_append_iff.mp hsplit with ⟨between, -, rfl⟩ | ⟨between, rfl, hafter⟩
  · -- otherwise the last item is in the rest
    exact absurd (List.mem_append_right _ List.mem_cons_self) hnot
  · cases between with
    | nil =>
      rw [List.nil_append] at hafter
      exact absurd (by rw [← hafter]; exact List.mem_cons_self) hnot
    | cons b between =>
      cases hafter
      rcases List.mem_append.mp ha with hb | hb
      · exact List.mem_append_left _ hb
      · rw [List.mem_singleton.mp hb]
        exact List.mem_append_right _ List.mem_cons_self

namespace Midway

variable {done : Entries String (Tree String)} {start : Heap}

/-- A map is not written itself. -/
theorem read_map_of (hl : Level h texts tx dx sy xs ys ts us)
    (hs : Untouched h texts (.ref tx) (.ref sy) start) (hm : Midway h tx dx sy ts done start g)
    {r d : Ref} (ho : h.Opens .stored (.ref tx) r ∨ h.Opens .given (.ref sy) r)
    (hr : h.read r = some (.map (.ref d))) : g.read r = some (.map (.ref d)) := by
  have hstart : start.read r = some (.map (.ref d)) :=
    (ho.elim (hs.target.read_eq r) (hs.source.read_eq r)).trans hr
  rw [hm.changes.read_eq r (lt_size_of_read hstart), hstart]
  rintro name ⟨names, first, hw, -⟩
  exact hw.read_ne_map hl.merging.reads_target hr

theorem read_map (hl : Level h texts tx dx sy xs ys ts us)
    (hs : Untouched h texts (.ref tx) (.ref sy) start) (hm : Midway h tx dx sy ts done start g) :
    g.read tx = some (.map (.ref dx)) :=
  hm.read_map_of hl hs (.inl (opens_self (own_ref_mem tx))) hl.read_map

/-- A name that is not merged yet has its old value. -/
theorem get?_eq (hl : Level h texts tx dx sy xs ys ts us)
    (hs : Untouched h texts (.ref tx) (.ref sy) start) (hm : Midway h tx dx sy ts done start g)
    {es : Entries Key Value} (hes : g.read dx = some (.dict es)) {key : Key} {name : String}
    (hk : key.text? = some name) (hn : name ∉ Entries.keys done) :
    Entries.get? key es = Entries.get? key xs := by
  have hstart : start.read dx = some (.dict xs) :=
    (hs.target.read_eq dx (opens_self hl.own_target)).trans hl.read_dict
  obtain ⟨es', hes', -, hget⟩ := hm.changes.get?_eq dx xs hstart
  rw [hes] at hes'
  cases hes'
  refine hget key name hk ?_
  rintro ⟨names, first, hw, hfirst, hdone⟩
  rw [hl.writes_dict hw] at hfirst
  cases hfirst
  exact hn hdone

/-- What stands under a name that is not merged yet is as before. -/
theorem agree_target (hl : Level h texts tx dx sy xs ys ts us)
    (hs : Untouched h texts (.ref tx) (.ref sy) start) (hm : Midway h tx dx sy ts done start g)
    {name : String} {c : Value} (hc : h.child? .stored (.ref tx) (.entry name) = some c)
    (hn : name ∉ Entries.keys done) : Agree (h.Opens .stored c) h g := by
  have hstart : Agree (h.Opens .stored c) h start := hs.target.mono fun _ => Opens.of_child? hc
  refine hstart.trans (hm.changes.agree (fun r hr => ?_) ?_)
  · have hlt := hl.merging.reads_target.opens_lt (Opens.of_child? hc hr)
    exact Nat.lt_of_lt_of_le hlt hstart.size_le
  · rintro r ⟨way, w, hat, hown⟩ name' ⟨names, first, hw, hfirst, hdone⟩
    have heq := hl.merging.clear.target_eq _ _ _ _ w hw ((at?_cons hc).trans hat) hown
    cases names with
    | nil => cases heq
    | cons n names =>
      cases heq
      cases hfirst
      exact hn hdone

/-- What is read later is as before. -/
theorem agree_source (hl : Level h texts tx dx sy xs ys ts us)
    (hs : Untouched h texts (.ref tx) (.ref sy) start) (hm : Midway h tx dx sy ts done start g)
    {name : String} {u : Tree String} {rest : Entries String (Tree String)}
    (hus : us = done ++ (name, u) :: rest) {v : Value}
    (hv : h.child? .given (.ref sy) (.entry name) = some v) : Agree (h.Opens .given v) h g := by
  have hstart : Agree (h.Opens .given v) h start := hs.source.mono fun _ => Opens.of_child? hv
  refine hstart.trans (hm.changes.agree (fun r hr => ?_) ?_)
  · have hlt := hl.merging.reads_source.opens_lt (Opens.of_child? hv hr)
    exact Nat.lt_of_lt_of_le hlt hstart.size_le
  · rintro r ⟨way, w, hat, hown⟩ name' ⟨names, first, hw, hfirst, hdone⟩
    refine hl.merging.clear.not_later _ _ _ _ w hw ((at?_cons hv).trans hat) hown ?_
    -- the entry that is written comes under a name that is merged
    obtain ⟨before, after, hsplit⟩ := List.append_of_mem hdone
    obtain ⟨tail, htail⟩ := List.head?_eq_some_iff.mp hfirst
    refine ⟨[], first, name, .ref sy, through tail, way, by rw [htail]; rfl, rfl, rfl,
      ys, before, after ++ name :: Entries.keys rest, hl.entries, ?_, by simp⟩
    rw [hl.reads_source.1.keys_named, hus]
    have hkeys : Entries.keys (done ++ (name, u) :: rest) =
        Entries.keys done ++ name :: Entries.keys rest := by simp [Entries.keys]
    rw [hkeys, hsplit, List.append_assoc, List.cons_append]

/-- The texts of the keys of the source are as before. -/
theorem agree_texts (hl : Level h texts tx dx sy xs ys ts us)
    (hs : Untouched h texts (.ref tx) (.ref sy) start)
    (hm : Midway h tx dx sy ts done start g) : Agree texts h g := by
  refine hs.texts.trans (hm.changes.agree (fun r hr => ?_) ?_)
  · exact Nat.lt_of_lt_of_le (hl.merging.texts_lt r hr) hs.texts.size_le
  · rintro r hr name ⟨names, first, hw, -⟩
    exact hl.merging.clear.not_text _ _ _ hw hr

/-- Whatever is vacant was vacant. -/
theorem vacant (hs : Untouched h texts (.ref tx) (.ref sy) start)
    (hm : Midway h tx dx sy ts done start g) (r : Ref) (hv : g.Vacant r) : h.Vacant r :=
  hs.vacant r (hm.changes.vacant r hv)

/-- What is written of the dictionary of the source is merged already. -/
theorem mem_done (hl : Level h texts tx dx sy xs ys ts us)
    {rest : Entries String (Tree String)} (hus : us = done ++ rest) {name : String} {d : Ref}
    (hw : Wrote h (.ref tx) (.ref sy) (Entries.keys done) name d) (hd : d ∈ h.own (.ref sy)) :
    name ∈ Entries.keys done := by
  obtain ⟨names, first, hw, hfirst, hdone⟩ := hw
  obtain ⟨tail, htail⟩ := List.head?_eq_some_iff.mp hfirst
  -- the level itself goes through the source, and is at its entry `first` when `name` is written
  have hpre : [] ++ [first] <+: names ++ [name] := by rw [htail]; exact ⟨tail, rfl⟩
  obtain ⟨entries, before, after, he, hkeys, hmem⟩ :=
    hl.merging.clear.along _ _ _ [] first _ hw hpre rfl hd
  rw [hl.entries] at he
  cases he
  rw [hl.reads_source.1.keys_named, hus] at hkeys
  have hnodup := hl.nodup_source
  rw [hus] at hnodup
  simp only [Entries.keys, List.map_append] at hkeys hnodup hdone ⊢
  exact mem_of_until hkeys hnodup hdone hmem

/-- The entries of the source are those of every dictionary that it opens and that is written. -/
theorem entriesAt_of_own (hl : Level h texts tx dx sy xs ys ts us)
    (hs : Untouched h texts (.ref tx) (.ref sy) start) (hm : Midway h tx dx sy ts done start g)
    {d : Ref} {es : Entries Key Value} (hown : d ∈ h.own (.ref sy))
    (hes : h.read d = some (.dict es)) :
    es = ys ∧ ∀ es', g.read d = some (.dict es') → g.entriesAt sy = es' := by
  obtain ⟨_, heq, ⟨hsy, -⟩ | ⟨d', hsy, hd', -⟩⟩ := cell_of_entries? hl.entries <;> cases heq
  · -- the source is a dictionary itself
    have hd : d = sy := by simpa [own, hsy, Cell.backing?] using hown
    subst hd
    rw [hsy] at hes
    cases hes
    exact ⟨rfl, fun es' hes' => entriesAt_dict hes'⟩
  · -- the source is an attribute map over the dictionary
    have hd : d = d' := by
      have hmem : d = sy ∨ d = d' := by simpa [own, hsy, Cell.backing?] using hown
      refine hmem.resolve_left fun he => ?_
      subst he
      rw [hes] at hsy
      cases hsy
    subst hd
    rw [hd'] at hes
    cases hes
    have hread : g.read sy = some (.map (.ref d)) :=
      hm.read_map_of hl hs (.inr (opens_self (own_ref_mem sy))) hsy
    exact ⟨rfl, fun es' hes' => entriesAt_map hread hes'⟩

/-- If the source is written while it is gone through, it gets no new key. -/
theorem keys_of_written (hl : Level h texts tx dx sy xs ys ts us)
    (hs : Untouched h texts (.ref tx) (.ref sy) start) (hm : Midway h tx dx sy ts done start g)
    {rest : Entries String (Tree String)} (hus : us = done ++ rest) {d : Ref}
    (hown : d ∈ h.own (.ref sy)) (hdict : h.read d = some (.dict ys))
    (htexts : ∀ p ∈ ys, ∃ s, p.1.text? = some s) :
    (g.entriesAt sy).keys = ys.keys ∧ ∀ key name, key.text? = some name →
      name ∉ Entries.keys done → (g.entriesAt sy).get? key = ys.get? key := by
  have hstart : start.read d = some (.dict ys) :=
    (hs.source.read_eq d (opens_self hown)).trans hdict
  obtain ⟨es', hes', hkeys, hget⟩ := hm.changes.get?_eq d ys hstart
  rw [(hm.entriesAt_of_own hl hs hown hdict).2 es' hes']
  refine ⟨hkeys fun n hn => ?_, fun key name hk hn =>
    hget key name hk fun hw => hn (mem_done hl hus hw hown)⟩
  -- what is written is merged already, so it has an entry in the source
  have hdone := mem_done hl hus hn hown
  have hnamed : n ∈ Entries.keys (h.named ys) := by
    rw [hl.reads_source.1.keys_named, hus]
    simp only [Entries.keys, List.map_append] at hdone ⊢
    exact List.mem_append_left _ hdone
  simp only [Entries.keys, named, List.map_map, List.mem_map, Function.comp_apply] at hnamed
  obtain ⟨p, hp, rfl⟩ := hnamed
  obtain ⟨s, ht⟩ := htexts p hp
  exact ⟨p, hp, by rw [ht, keyText_of_text? ht]⟩

/-- If the source is not written, it is as before. -/
theorem entriesAt_eq (hl : Level h texts tx dx sy xs ys ts us)
    (hs : Untouched h texts (.ref tx) (.ref sy) start) (hm : Midway h tx dx sy ts done start g)
    (hn : ∀ d ∈ h.own (.ref sy), ∀ name,
      ¬ Wrote h (.ref tx) (.ref sy) (Entries.keys done) name d) : g.entriesAt sy = ys := by
  have hgiven : start.entries? .given (.ref sy) = some ys :=
    (entries?_agree hs.source fun r hr => opens_self hr).trans hl.entries
  have hagree : Agree (fun r => r ∈ h.own (.ref sy)) start g := by
    refine hm.changes.agree (fun r hr => ?_) hn
    exact Nat.lt_of_lt_of_le (hl.merging.reads_source.own_lt r hr) hs.source.size_le
  refine entriesAt_of_entries? ((entries?_agree hagree fun r hr => ?_).trans hgiven)
  rwa [own_agree hs.source fun r hr => opens_self hr] at hr

/-- The source has as many entries as before, and of those that are not merged yet what it had. -/
theorem source_eq (hl : Level h texts tx dx sy xs ys ts us)
    (hs : Untouched h texts (.ref tx) (.ref sy) start) (hm : Midway h tx dx sy ts done start g)
    {rest : Entries String (Tree String)} (hus : us = done ++ rest) :
    (g.entriesAt sy).length = ys.length ∧ ∀ key v, (key, v) ∈ ys →
      h.keyText key ∉ Entries.keys done → Entries.get? key (g.entriesAt sy) = some v := by
  by_cases hw : ∃ d ∈ h.own (.ref sy), ∃ name,
      Wrote h (.ref tx) (.ref sy) (Entries.keys done) name d
  · -- a dictionary that the source opens is one of the target, so its keys are texts
    obtain ⟨d, hown, name, names, -, hwrites, -⟩ := hw
    obtain ⟨es, hes, htexts⟩ := hwrites.read hl.merging.reads_target
    obtain ⟨rfl, -⟩ := hm.entriesAt_of_own hl hs hown hes
    obtain ⟨hkeys, hget⟩ := hm.keys_of_written hl hs hus hown hes htexts
    refine ⟨by simpa [Entries.keys] using congrArg List.length hkeys, fun key v hmem hn => ?_⟩
    obtain ⟨s, ht⟩ := htexts _ hmem
    rw [keyText_of_text? ht] at hn
    rw [hget key s ht hn]
    exact hl.reads_source.2.get?_of_mem hmem
  · have hsame := hm.entriesAt_eq hl hs fun d hd name hwrote => hw ⟨d, hd, name, hwrote⟩
    rw [hsame]
    exact ⟨rfl, fun key v hmem _ => hl.reads_source.2.get?_of_mem hmem⟩

end Midway

end PageMeta.AttributeMap
