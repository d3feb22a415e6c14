import PageMeta.AttributeMap.Basic
import PageMeta.Object.Assign
import PageMeta.Proofs.Heap.PlainData

/-!
# Operations on attribute maps keep the heap sound

Every operation on attribute maps stores copies, or attribute maps that are there.  `CopyUpkeep` and
`Upkeep` say what the single steps have to keep; then every operation keeps it, whether it succeeds or
fails half-way.  The representation invariant is kept, so it holds after any operations.

## Key results

- `set_outcome`, `setItem_outcome`, `setAttribute_outcome`, `merge_outcome`: what steps keep is
  kept by operations
- `upkeep_keeps`: steps keep the representation invariant
- `upkeep_lasts`: steps with plain data keep what shows plain data
- `Reached.sound`: the invariant holds after any operations
- `reached_maps`: what maps hold after any operations
-/

namespace PageMeta.AttributeMap

open Heap

variable {h h' : Heap} {v : Value}

/-! ### What every step keeps -/

/-- A relation between heaps that is kept by the steps of operations that write copies into maps, as
long as what they are given is of one kind, and so are the maps that they write into. -/
structure CopyUpkeep (given : Heap → Value → Prop) (R : Heap → Heap → Prop)
    (target : Heap → Ref → Prop := fun h m => h.isMap (.ref m) = true) : Prop where
  refl : ∀ {h}, h.Sound → R h h
  trans : ∀ {h h' h''}, R h h' → R h' h'' → R h h''
  keeps : ∀ {h h'}, R h h' → Keeps h h'
  cells : ∀ {h h'}, h.Sound → h'.cells = h.cells → R h h'
  /-- What is written into is a map, and stays so; so are the maps in it. -/
  isMap : ∀ {h m}, target h m → h.isMap (.ref m) = true
  remains : ∀ {h h' m}, R h h' → target h m → target h' m
  inner : ∀ {h m inner key}, target h m → (h.entriesAt m).get? key = some (.ref inner) →
    h.isMap (.ref inner) = true → target h inner
  /-- What is given stays given, and so are the values in it. -/
  stays : ∀ {h h' v}, R h h' → given h v → given h' v
  absent : ∀ {h source}, given h (.ref source) → given h .none
  entries : ∀ {h source}, h.Sound → given h (.ref source) →
    ∀ p ∈ h.entriesAt source, given h p.2
  /-- A copy is stored. -/
  store : ∀ {h m key name v}, h.Sound → target h m → key.text? = some name →
    given h v → Outcome (do let w ← wrap v; putEntry m key w) h (fun _ h' => R h h') (R h)

/-- A relation that is kept as well when a map is stored itself. -/
structure Upkeep (given : Heap → Value → Prop) (R : Heap → Heap → Prop)
    (target : Heap → Ref → Prop := fun h m => h.isMap (.ref m) = true) : Prop
    extends CopyUpkeep given R target where
  storeMap : ∀ {h m key name v}, h.Sound → target h m → key.text? = some name →
    given h v → h.isMap v = true → Outcome (putEntry m key v) h (fun _ h' => R h h') (R h)

section Steps

variable {given : Heap → Value → Prop} {R : Heap → Heap → Prop} {target : Heap → Ref → Prop}

/-- Storing a value under a key, where it is known what storing the value itself does if it is a
map. -/
theorem set_outcome_of (hR : CopyUpkeep given R target) {m : Ref} {key : Value} (hs : h.Sound)
    (hm : target h m) (hv : given h v) (hstore : ∀ {g : Heap} {name : Key} {s : String}, R h g →
      name.text? = some s → h.isMap v = true →
      Outcome (putEntry m name v) g (fun _ g' => R g g') (R g)) :
    Outcome (set m key v) h (fun _ h' => R h h') (R h) := by
  have hkey : (h.nameKey key).text? = some (h.keyText (.atom key)) := text?_keyName (.atom key)
  refine Outcome.get_bind (Outcome.bind ((settleKey_outcome hkey).mono ?_ fun _ hf => hf))
  rintro name h₁ ⟨hname, hc⟩
  have hR₁ := hR.cells hs hc
  have hk₁ := hR.keeps hR₁
  have hv₁ := hR.stays hR₁ hv
  split
  · rename_i hmap
    refine Outcome.bind (Outcome.pure (Outcome.bind ?_))
    exact (hstore hR₁ hname hmap).mono (fun _ _ => hR.trans hR₁) fun _ => hR.trans hR₁
  · have hcopy : Outcome ((do let w ← wrap v; putEntry m name w) >>= fun _ => pure (Value.ref m))
        h₁ (fun _ h' => R h h') (R h) :=
      Outcome.bind ((hR.store hk₁.sound (hR.remains hR₁ hm) hname hv₁).mono
        (fun _ _ hR₂ => hR.trans hR₁ hR₂) fun _ => hR.trans hR₁)
    simpa only [bind_assoc] using hcopy

/-- Storing a value that is no map under a key. -/
theorem set_copy_outcome (hR : CopyUpkeep given R target) {m : Ref} {key : Value} (hs : h.Sound)
    (hm : target h m) (hv : given h v) (hmap : h.isMap v = false) :
    Outcome (set m key v) h (fun _ h' => R h h') (R h) :=
  set_outcome_of hR hs hm hv fun _ _ htrue => absurd (hmap.symm.trans htrue) Bool.false_ne_true

/-- Storing a value under a key. -/
theorem set_outcome (hR : Upkeep given R target) {m : Ref} {key : Value} (hs : h.Sound)
    (hm : target h m) (hv : given h v) :
    Outcome (set m key v) h (fun _ h' => R h h') (R h) := by
  refine set_outcome_of hR.toCopyUpkeep hs hm hv fun {g name _} hg hname hmap => ?_
  have hk := hR.keeps hg
  obtain ⟨r, rfl⟩ := ref_of_isMap hmap
  exact hR.storeMap hk.sound (hR.remains hg hm) hname (hR.stays hg hv) (hk.maps r hmap)
where
  /-- A map is a cell. -/
  ref_of_isMap {h : Heap} {v : Value} (hv : h.isMap v = true) : ∃ r, v = .ref r := by
    cases v <;> first | exact ⟨_, rfl⟩ | cases hv

/-- Index assignment to a map over a dictionary is `set`. -/
theorem setMapItem_outcome (hR : Upkeep given R target) {m : Ref} {key : Value} (hs : h.Sound)
    (hm : target h m) (hv : given h v) :
    Outcome (Object.setMapItem m key v) h (fun _ h' => R h h') (R h) := by
  obtain ⟨data, hr⟩ := read_of_isMap (hR.isMap hm)
  obtain ⟨d, es, rfl, hd, -⟩ := hs.cells m _ hr
  refine Outcome.get_bind ?_
  rw [dict?_of_map hr hd]
  exact Outcome.discard (set_outcome hR hs hm hv)

theorem setItem_outcome (hR : Upkeep given R target) {m : Ref} {key : Value} (hs : h.Sound)
    (hm : target h m) (hv : given h v) :
    Outcome (Object.setItem (.ref m) key v) h (fun _ h' => R h h') (R h) := by
  refine Outcome.get_bind ?_
  rw [hR.isMap hm]
  exact setMapItem_outcome hR hs hm hv

/-- Assignment to a public name. -/
theorem setAttribute_outcome (hR : Upkeep given R target) {m : Ref} {name : String} (hs : h.Sound)
    (hm : target h m) (hn : isPrivate name = false) (hv : given h v) :
    Outcome (Object.setAttribute (.ref m) name v) h (fun _ h' => R h h') (R h) := by
  obtain ⟨data, hr⟩ := read_of_isMap (hR.isMap hm)
  refine Outcome.get_bind ?_
  rw [show h.cell? (.ref m) = some (.map data) from hr]
  simp only [hn, Bool.false_eq_true, if_false]
  exact setMapItem_outcome hR hs hm hv

/-- A mapping is a cell. -/
theorem eq_of_mapping? {source : Ref} (hv : h.mapping? v = some source) : v = .ref source := by
  cases v with
  | ref r =>
    obtain ⟨_, -, heq⟩ := Option.map_eq_some_iff.mp hv
    rw [heq]
  | _ => cases hv

/-- Merging the value of one key. -/
theorem mergeKey_outcome (hR : CopyUpkeep given R target) {descend : Ref → Ref → Heap.Action Unit}
    {m : Ref} {key : Key} (hs : h.Sound) (hm : target h m) (hv : given h v)
    (hd : ∀ inner source, target h inner → given h (.ref source) →
      Outcome (descend inner source) h (fun _ h' => R h h') (R h)) :
    Outcome (mergeKey descend m key v) h (fun _ h' => R h h') (R h) := by
  refine Outcome.get_bind ?_
  dsimp only
  split
  · rename_i inner source hcurrent hmap hsource
    rw [hcurrent] at hmap
    have hget : (h.entriesAt m).get? (h.keyName key) = some (.ref inner) := by
      cases hget : (h.entriesAt m).get? (h.keyName key) with
      | none => rw [hget] at hcurrent; cases hcurrent
      | some w => rw [hget] at hcurrent; exact congrArg some hcurrent
    exact hd inner source (hR.inner hm hget hmap) (eq_of_mapping? hsource ▸ hv)
  · refine Outcome.bind ((settleKey_outcome (text?_keyName (h := h) key)).mono ?_ fun _ hf => hf)
    rintro name h₁ ⟨hname, hc⟩
    have hR₁ := hR.cells hs hc
    have hk₁ := hR.keeps hR₁
    exact (hR.store hk₁.sound (hR.remains hR₁ hm) hname (hR.stays hR₁ hv)).mono
      (fun _ _ => hR.trans hR₁) fun _ => hR.trans hR₁

/-- Going through the entries of what is given, whatever is done with them. -/
theorem forEntries_outcome (hR : CopyUpkeep given R target)
    {visit : Key → Value → Heap.Action Unit} {source : Ref} {size : Nat}
    (hv : given h (.ref source)) (hvisit : ∀ key v g, R h g → given g v →
      Outcome (visit key v) g (fun _ g' => R g g') (R g)) :
    ∀ (keys : List Key) {g : Heap}, R h g →
      Outcome (forEntries visit source size keys) g (fun _ g' => R h g') (R h)
  | [], _, hg => hg
  | key :: rest, g, hg => by
    have hsource := hR.stays hg hv
    have hgiven : given g (((g.entriesAt source).get? key).getD .none) := by
      cases hget : (g.entriesAt source).get? key with
      | none => exact hR.absent hsource
      | some v =>
        obtain ⟨k, hmem⟩ := Entries.exists_of_get? hget
        exact hR.entries (hR.keeps hg).sound hsource _ hmem
    refine Outcome.get_bind (Outcome.bind ((hvisit key _ g hg hgiven).mono ?_ fun g' =>
      hR.trans hg))
    intro _ g' hg'
    refine Outcome.get_bind ?_
    split
    · exact forEntries_outcome hR hv hvisit rest (hR.trans hg hg')
    · exact hR.trans hg hg'

/-- Merging a mapping into a map, however deep. -/
theorem mergeTo_outcome (hR : CopyUpkeep given R target) : ∀ (n : Nat) {h : Heap} {m source : Ref},
    h.Sound → target h m → given h (.ref source) →
    Outcome (mergeTo n m source) h (fun _ h' => R h h') (R h)
  | 0, _, _, _, hs, _, _ => hR.refl hs
  | n + 1, h, m, source, hs, hm, hv => by
    refine Outcome.bind (Outcome.ask (fun entries _ => ?_) (hR.refl hs))
    refine forEntries_outcome hR hv (fun key v g hg hgiven => ?_) _ (hR.refl hs)
    have hk := hR.keeps hg
    exact mergeKey_outcome hR hk.sound (hR.remains hg hm) hgiven fun inner source hinner hsource =>
      mergeTo_outcome hR n hk.sound hinner hsource

theorem merge_outcome (hR : CopyUpkeep given R target) {m : Ref} (hs : h.Sound)
    (hm : target h m) (hv : given h v) :
    Outcome (merge m v) h (fun _ h' => R h h') (R h) := by
  refine Outcome.get_bind ?_
  split
  · rename_i source hsource
    have hgiven : given h (.ref source) := eq_of_mapping? hsource ▸ hv
    exact Outcome.bind ((mergeTo_outcome hR _ hs hm hgiven).mono (fun _ _ hk => hk) fun _ hk => hk)
  · exact hR.refl hs

end Steps

/-! ### The representation invariant -/

/-- What is read of a dictionary or map is there. -/
theorem fine_entriesAt (hs : h.Sound) (r : Ref) : ∀ p ∈ h.entriesAt r, h.Fine p.2 := by
  intro p hp
  unfold entriesAt at hp
  cases hd : h.dict? r with
  | none => rw [hd] at hp; cases hp
  | some q =>
    obtain ⟨d, es⟩ := q
    rw [hd] at hp
    exact (hs.cells d _ (read_of_dict? hd)).2 p hp

/-- A new map is a map that can be stored. -/
theorem create_outcome (hs : h.Sound) (hv : h.Fine v) :
    Outcome (create v) h (fun _ h' => Keeps h h') (fun h' => Keeps h h') := by
  refine Outcome.get_bind ?_
  have hfail : Keeps h h := .refl hs
  split
  · have hg := Grows.make hs List.Pairwise.nil (fun p hp => by cases hp) fun p hp => by cases hp
    exact Outcome.of_ok rfl hg.keeps
  · split
    · exact (wrap_outcome hs hv).mono (fun _ _ hw => hw.1.keeps) fun h' he => he ▸ hfail
    · exact hfail

/-- What new cells keep, and storing an entry keeps, is kept by all operations on values that are
there. -/
theorem upkeep_of_putEntry {R : Heap → Heap → Prop} (hrefl : ∀ {h}, h.Sound → R h h)
    (htrans : ∀ {h h' h''}, R h h' → R h' h'' → R h h'') (hkeeps : ∀ {h h'}, R h h' → Keeps h h')
    (hgrows : ∀ {h h'}, Grows .wrapped h h' → R h h')
    (hput : ∀ {h m key name v}, h.Sound → h.isMap (.ref m) = true → key.text? = some name →
      h.Fine v → h.Storable v → Outcome (putEntry m key v) h (fun _ h' => R h h') (R h)) :
    Upkeep Heap.Fine R where
  refl := hrefl
  trans := htrans
  keeps := hkeeps
  cells hs hc := hgrows (.of_cells hs hc)
  isMap := id
  remains hR := (hkeeps hR).maps _
  inner _ _ := id
  stays hR hv := (hkeeps hR).fine hv
  absent _ := ⟨rfl, fun r heq => by cases heq⟩
  entries hs _ := fine_entriesAt hs _
  store hs hm hk hv := by
    -- the copy is made of new cells, and is all that the entry then leads to
    have hfail := hrefl hs
    refine Outcome.bind ((wrap_outcome hs hv).mono ?_ fun h' he => he ▸ hfail)
    rintro w h' ⟨hg, hw, hst⟩
    have hR := hgrows hg
    exact (hput hg.sound (hg.keeps.maps _ hm) hk hw hst).mono (fun _ _ => htrans hR)
      fun _ => htrans hR
  storeMap hs hm hk hv hmap := hput hs hm hk hv (hs.storable_of_isMap hmap)

/-- Operations on values that are there keep the heap sound. -/
theorem upkeep_keeps : Upkeep Heap.Fine Keeps :=
  upkeep_of_putEntry .refl .trans id Grows.keeps fun hs hm hk hv hst =>
    putEntry_outcome hs hm hk hv hst

/-- Operations on plain data keep what holds plain data. -/
theorem upkeep_lasts : Upkeep (fun h v => ∃ t, IsData h t v) Lasts where
  refl := .refl
  trans := .trans
  keeps hl := hl.toKeeps
  cells hs hc := Grows.lasts (.of_cells hs hc : Grows .wrapped _ _)
  isMap := id
  remains hl := hl.maps _
  inner _ _ := id
  stays hl := fun ⟨t, hd⟩ => ⟨t, hd.lasts hl⟩
  absent _ := ⟨_, .of_isPlain rfl⟩
  entries _ := fun ⟨_, hd⟩ => hd.of_entriesAt
  store hs hm hk := fun ⟨_, hd⟩ => store_lasts hs hm hk hd
  storeMap _ _ _ := fun ⟨_, hd⟩ hmap => by rw [hd.not_isMap] at hmap; cases hmap

/-! ### Runs -/

/-- A call of a public operation on attribute maps. -/
inductive MapCall where
  | create (source : Value)
  | set (m : Ref) (key value : Value)
  | setItem (m : Ref) (key value : Value)
  | setAttribute (m : Ref) (name : String) (value : Value)
  | merge (m : Ref) (other : Value)

namespace MapCall

/-- Does what a call says. -/
def run : MapCall → Heap.Action Unit
  | create source => discard (AttributeMap.create source)
  | set m key value => discard (AttributeMap.set m key value)
  | setItem m key value => Object.setItem (.ref m) key value
  | setAttribute m name value => Object.setAttribute (.ref m) name value
  | merge m other => discard (AttributeMap.merge m other)

/-- Whether a call writes a value of some kind into a map that is there, and not under a private
name. -/
def Writes (h : Heap) (kind : Value → Prop) : MapCall → Prop
  | create _ => False
  | set m _ value | setItem m _ value | merge m value => h.isMap (.ref m) = true ∧ kind value
  | setAttribute m name value =>
    h.isMap (.ref m) = true ∧ isPrivate name = false ∧ kind value

/-- Whether a call is one that a caller can make: it makes a map from a value that is there, or
writes one. -/
def Given (h : Heap) : MapCall → Prop
  | create source => h.Fine source
  | call => call.Writes h h.Fine

/-- The heap that a call leaves behind, whether it succeeds or fails. -/
def after (call : MapCall) (h : Heap) : Heap :=
  match call.run h with
  | .ok _ h' | .error _ h' => h'

theorem after_eq (call : MapCall) (h : Heap) : call.after h = stateAfter call.run h := by
  unfold after stateAfter
  cases call.run h <;> rfl

/-- A call that writes keeps what the steps keep. -/
theorem write_outcome {given : Heap → Value → Prop} {R : Heap → Heap → Prop}
    (hR : Upkeep given R) {call : MapCall} (hs : h.Sound) (hw : call.Writes h (given h)) :
    Outcome call.run h (fun _ h' => R h h') (R h) := by
  cases call with
  | create source => exact hw.elim
  | set m key value => exact Outcome.discard (set_outcome hR hs hw.1 hw.2)
  | setItem m key value => exact setItem_outcome hR hs hw.1 hw.2
  | setAttribute m name value => exact setAttribute_outcome hR hs hw.1 hw.2.1 hw.2.2
  | merge m other => exact Outcome.discard (merge_outcome hR.toCopyUpkeep hs hw.1 hw.2)

/-- A call keeps a heap sound. -/
theorem after_sound {call : MapCall} (hs : h.Sound) (hg : call.Given h) : (call.after h).Sound := by
  have houtcome : Outcome call.run h (fun _ h' => Keeps h h') (fun h' => Keeps h h') := by
    cases call with
    | create source => exact Outcome.discard (create_outcome hs hg)
    | _ => exact write_outcome upkeep_keeps hs hg
  rw [after_eq]
  exact houtcome.stateAfter.sound

end MapCall

/-- Whether the cells of a heap beyond a size are arguments that a caller can build: no maps, and
their parts are there. -/
def Arguments (size : Nat) (h : Heap) : Prop :=
  ∀ r c, size ≤ r.index → h.read r = some c → h.FineCell c ∧ ∀ data, c ≠ .map data

/-- Whether a heap can be reached from another by building arguments and calling operations on
maps. -/
inductive Reached (start : Heap) : Heap → Prop
  | start : Reached start start
  | build {h h' : Heap} : Reached start h → Extends h h' → Arguments h.size h' → Reached start h'
  | call {h : Heap} (call : MapCall) : Reached start h → call.Given h →
      Reached start (call.after h)

/-- A heap without maps is sound. -/
theorem sound_of_arguments (hn : Arguments 0 h) : h.Sound where
  cells r c hr := (hn r c (Nat.zero_le _) hr).1
  own m _ d hm := absurd rfl ((hn m _ (Nat.zero_le _) hm).2 (.ref d))
  stored m data hm := absurd rfl ((hn m _ (Nat.zero_le _) hm).2 data)

theorem sound_empty : Heap.empty.Sound :=
  sound_of_arguments fun r c _ hr => by simp [Heap.empty, Heap.read] at hr

/-- Arguments are new cells without maps. -/
theorem grows_of_arguments (hs : h.Sound) (he : Extends h h') (hn : Arguments h.size h') :
    Grows .plain h h' where
  sound := hs.extends he hn
  cells := he
  maps m d hm := by
    rcases Nat.lt_or_ge m.index h.size with hlt | hge
    · exact .inl ((he.read_eq m hlt).symm.trans hm)
    · exact absurd rfl ((hn m _ hge hm).2 (.ref d))

/-- Arguments and calls keep a heap sound. -/
theorem Reached.sound {start : Heap} (hs : start.Sound) (hr : Reached start h) : h.Sound := by
  induction hr with
  | start => exact hs
  | build _ he hn ih => exact ih.extends he hn
  | call call _ hg ih => exact call.after_sound ih hg

/-! ### What maps hold -/

/-- Whether a value shows a tree in a view. -/
abbrev Shows (h : Heap) (view : View) (t : Tree String) (v : Value) : Prop :=
  h.Reads view (fun _ => True) t v

/-- Whether writing a map out as plain data gives data that show a tree, and all of it new. -/
def GivesDict (h : Heap) (m : Ref) (t : Tree String) : Prop :=
  ∃ d h', toDict m h = .ok d h' ∧ Extends h h' ∧ h'.Reads .plain h.Vacant t d

/-- A map that shows a tree is written out as that tree. -/
theorem givesDict_of_reads {within : Ref → Prop} {t : Tree String} {m : Ref}
    (hr : h.Reads .stored within t (.ref m)) : GivesDict h m t := unwrap_reads hr

/-- Whatever operations are called with whatever arguments, every map has texts as keys, and what is
within it at any depth is a map with texts as keys, a list, or a leaf.  A map without cycles is
written out as plain data. -/
theorem reached_maps {start : Heap} (hn : Arguments 0 start) (hr : Reached start h) {m : Ref}
    (hm : h.isMap (.ref m) = true) :
    (∃ entries, h.entries? .stored (.ref m) = some entries ∧ entries.TextKeys) ∧
      (∀ w, h.Within (.ref m) w →
        (∃ entries, h.entries? .stored w = some entries ∧ entries.TextKeys) ∨
          (∃ items, h.items? .stored w = some items) ∨ h.IsLeaf w) ∧
      (h.Acyclic .stored (.ref m) → ∃ t, Shows h .stored t (.ref m) ∧ GivesDict h m t) := by
  have hs := hr.sound (sound_of_arguments hn)
  refine ⟨?_, fun w => hs.cases_within (fine_of_isMap hm) (hs.storable_of_isMap hm), fun ha => ?_⟩
  · obtain ⟨data, hr⟩ := read_of_isMap hm
    obtain ⟨d, entries, rfl, hd, ht⟩ := hs.cells m _ hr
    exact ⟨entries, by simp [entries?, cell?, hr, hd], ht⟩
  · obtain ⟨t, ht⟩ := hs.exists_reads hm ha
    exact ⟨t, ht, givesDict_of_reads ht⟩

/-- A tuple, and a dictionary that has it under a number. -/
def sampleArguments : Heap where
  cells := #[.tuple [.ofInt 1], .dict [(.atom (.ofInt 7), .ref ⟨0⟩)]]
  made := 0

/-- The heap after a map was made of the dictionary. -/
def sampleCreated : Heap := (MapCall.create (.ref ⟨1⟩)).after sampleArguments

theorem reached_maps_created :
    (∃ entries, sampleCreated.entries? .stored (.ref ⟨4⟩) = some entries ∧ entries.TextKeys) ∧
      (∀ w, sampleCreated.Within (.ref ⟨4⟩) w →
        (∃ entries, sampleCreated.entries? .stored w = some entries ∧ entries.TextKeys) ∨
          (∃ items, sampleCreated.items? .stored w = some items) ∨ sampleCreated.IsLeaf w) ∧
      (sampleCreated.Acyclic .stored (.ref ⟨4⟩) →
        ∃ t, Shows sampleCreated .stored t (.ref ⟨4⟩) ∧ GivesDict sampleCreated ⟨4⟩ t) := by
  have harguments : Arguments 0 sampleArguments := by
    rintro ⟨r⟩ cell - hr
    match r, hr with
    | 0, hr =>
      cases hr
      refine ⟨fun v hv => ?_, fun data heq => by cases heq⟩
      cases List.mem_singleton.mp hv
      exact ⟨rfl, fun r heq => by cases heq⟩
    | 1, hr =>
      cases hr
      refine ⟨⟨List.pairwise_singleton _ _, fun p hp => ?_⟩, fun data heq => by cases heq⟩
      cases List.mem_singleton.mp hp
      exact ⟨rfl, fun r heq => by cases heq; decide⟩
    | n + 2, hr => simp [sampleArguments, Heap.read] at hr
  refine reached_maps harguments (.call (.create (.ref ⟨1⟩)) .start ⟨rfl, fun r heq => ?_⟩) ?_
  · cases heq; decide
  · decide +kernel

end PageMeta.AttributeMap
