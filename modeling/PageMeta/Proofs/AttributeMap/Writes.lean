import PageMeta.Proofs.AttributeMap.Merge
import PageMeta.Proofs.AttributeMap.Normal
import PageMeta.Proofs.Value.Writing

/-!
# What maps are written with

Each operation writes values into maps under the texts of keys: storing writes one, merging writes one
for every entry that it goes through, and one for every entry below where two maps meet.  `MapCall.writes`
lists the writes of a call, and `History` those of a map since it was made.

A map holds what it was written with: an entry for every text that was written, in the order in which
the texts came first, and nothing as a value exactly where nothing was written last.

## Key results

- `mergeWrites`, `MapCall.writes`: the writes of merging, and of any call
- `mergeTo_tracked`, `MapCall.after_tracked`: a map holds what it was written with after a call
- `exists_history`: every map that operations lead to has a history
- `History.tracks`: a map holds what it was written with
-/

namespace PageMeta.AttributeMap

open Heap

variable {h h' h'' : Heap} {v w : Value} {m target source : Ref} {key : Key} {name : String}

/-! ### Writes -/

/-- A write into a map: under the text of a key, with the value that is given. -/
structure Write where
  map : Ref
  name : String
  value : Value

/-- What is written into one map. -/
def writesTo (m : Ref) (ws : List Write) : List (String × Value) :=
  (ws.filter fun w => w.map = m).map fun w => (w.name, w.value)

@[simp] theorem writesTo_append (m : Ref) (ws us : List Write) :
    writesTo m (ws ++ us) = writesTo m ws ++ writesTo m us := by
  simp [writesTo]

/-- The map that a map has under a key, and the mapping that is merged into it, if two mappings meet
there. -/
def meeting? (h : Heap) (target : Ref) (key : Key) (incoming : Value) : Option (Ref × Ref) :=
  let current := ((h.entriesAt target).get? (h.keyName key)).getD .none
  match current, h.isMap current, h.mapping? incoming with
  | .ref inner, true, some source => some (inner, source)
  | _, _, _ => none

/-- Writes a copy of a value under a key. -/
def replace (target : Ref) (key : Key) (incoming : Value) : Heap.Action Unit := do
  let name ← settleKey ((← get).keyName key)
  let copy ← wrap incoming
  putEntry target name copy

/-- The writes of merging the value of one key, given those of merging two maps. -/
def keyWrites (inner : Heap → Ref → Ref → List Write) (target : Ref) (h : Heap) (key : Key)
    (incoming : Value) : List Write :=
  let write : Write := ⟨target, h.keyText key, incoming⟩
  match meeting? h target key incoming with
  | some (current, source) => write :: inner h current source
  | none => if succeeded (replace target key incoming h) then [write] else []

/-- The writes of merging a mapping into a map, down to some depth. -/
def mergeWrites : Nat → Heap → Ref → Ref → List Write
  | 0, _, _, _ => []
  | depth + 1, h, target, source =>
    match h.items source with
    | .ok es =>
      entriesWrites (mergeKey (mergeTo depth) target) (keyWrites (mergeWrites depth) target) source
        es.keys.length es.keys h
    | .error _ => []

namespace MapCall

/-- The writes of a call into maps that were there; a call that stores and fails has none. -/
def writes (h : Heap) (call : MapCall) : List Write :=
  let stored := fun write : Write => if succeeded (call.run h) then [write] else []
  match call with
  | create _ => []
  | set m key value | setItem m key value => stored ⟨m, h.keyText (.atom key), value⟩
  | setAttribute m name value => stored ⟨m, name, value⟩
  | merge m other =>
    match h.mapping? other with
    | some source => mergeWrites h.depth h m source
    | none => []

end MapCall

/-! ### Holding what was written -/

/-- Whether a map holds what it was written with: the texts as they first came, and nothing as a value
exactly where nothing was written last. -/
def Tracks (h : Heap) (m : Ref) (ws : List (String × Value)) : Prop :=
  Entries.Match (fun _ v w => w = .none ↔ v = .none) (Entries.ofList ws) (h.entriesAt m)

/-- A later heap that is sound, in which every map holds what it was written with before and between. -/
structure Tracked (ws : List Write) (h h' : Heap) : Prop extends Keeps h h' where
  tracks : ∀ m us, h.isMap (.ref m) = true → Tracks h m us → Tracks h' m (us ++ writesTo m ws)

/-- A larger heap has the entries of every map. -/
theorem entriesAt_of_extends (hs : h.Sound) (hm : h.isMap (.ref m) = true) (he : Extends h h') :
    h'.entriesAt m = h.entriesAt m := by
  obtain ⟨data, hread⟩ := read_of_isMap hm
  obtain ⟨d, es, rfl, hd, -⟩ := hs.cells m _ hread
  rw [entriesAt_map hread hd, entriesAt_map (he.read_of_some hread) (he.read_of_some hd)]

namespace Tracked

variable {ws us : List Write}

theorem of_extends (hs : h.Sound) (hk : Keeps h h') (he : Extends h h') : Tracked [] h h' where
  toKeeps := hk
  tracks m us hm ht := by
    rw [Tracks, entriesAt_of_extends hs hm he, show writesTo m [] = [] from rfl, List.append_nil]
    exact ht

theorem of_grows {building : Building} (hs : h.Sound) (hg : Grows building h h') :
    Tracked [] h h' := of_extends hs hg.keeps hg.cells

theorem refl (hs : h.Sound) : Tracked [] h h := of_extends hs (.refl hs) (.refl _ _)

theorem trans (h₁ : Tracked ws h h') (h₂ : Tracked us h' h'') : Tracked (ws ++ us) h h'' where
  toKeeps := h₁.toKeeps.trans h₂.toKeeps
  tracks m us hm ht := by
    rw [writesTo_append, ← List.append_assoc]
    exact h₂.tracks m _ (h₁.maps m hm) (h₁.tracks m us hm ht)

end Tracked

/-- Where a value is nothing, so is a tree that it shows. -/
theorem reads_none {view : View} {within : Ref → Prop} {t : Tree String}
    (hr : h.Reads view within t v) : v = .none ↔ t = .leaf .none := by
  cases t with
  | leaf w =>
    rw [hr.1]
    simp
  | list ts =>
    obtain ⟨r, rfl, -⟩ := ref_of_items? hr.choose_spec.1
    simp
  | map ts =>
    obtain ⟨r, rfl, -⟩ := ref_of_entries? hr.choose_spec.1
    simp

theorem handedIn_none {t : Tree String} (ht : HandedIn h t v) :
    v = .none ↔ t.norm = .leaf .none := by
  cases t with
  | leaf w =>
    rw [ht.1]
    simp [Tree.norm]
  | list ts =>
    obtain ⟨r, rfl, -⟩ := ref_of_items? ht.choose_spec.1
    simp [Tree.norm]
  | map ts =>
    obtain ⟨r, rfl, -⟩ := ref_of_entries? ht.choose_spec.1
    simp [Tree.norm]

/-- A copy is nothing exactly if nothing is copied. -/
theorem wrap_none (hs : h.Sound) (hv : h.Fine v) (hrun : wrap v h = .ok w h') :
    w = .none ↔ v = .none := by
  obtain ⟨t, ht, -, hread⟩ := reads_of_wrap hs hv hrun
  rw [reads_none hread, handedIn_none ht]

/-! ### Single writes -/

/-- Storing an entry is a write. -/
theorem putEntry_tracked (hs : h.Sound) (hm : h.isMap (.ref m) = true) (hk : key.text? = some name)
    (hw : h.Fine w) (hst : h.Storable w) (hnone : w = .none ↔ v = .none)
    {failed : Heap → Prop} :
    Outcome (putEntry m key w) h (fun _ h' => Tracked [⟨m, name, v⟩] h h') failed := by
  obtain ⟨data, hread⟩ := read_of_isMap hm
  obtain ⟨d, es, rfl, hd, -⟩ := hs.cells m _ hread
  refine Outcome.of_ok (putEntry_ok key w hread hd)
    ⟨write_keeps hs hread hd hk hw hst, fun m' us hm' ht => ?_⟩
  obtain ⟨data', hread'⟩ := read_of_isMap hm'
  obtain ⟨d', es', rfl, hd', -⟩ := hs.cells m' _ hread'
  have hmap : (h.write d (.dict (es.put key w))).read m' = some (.map (.ref d')) := by
    refine (read_write_of_ne _ _ _ _ fun heq => ?_).trans hread'
    rw [heq, hread'] at hd
    cases hd
  rw [Tracks, entriesAt_map hread' hd'] at ht
  by_cases heq : m = m'
  · subst heq
    rw [hread] at hread'
    cases hread'
    rw [hd] at hd'
    cases hd'
    rw [Tracks, entriesAt_map hmap (read_write_self h d _ (lt_size_of_read hd)), Entries.ofList_append]
    simpa [writesTo, Entries.putAll] using ht.put hk hnone
  · -- the dictionary of another map is another dictionary
    have hne : d ≠ d' := fun hdd => heq (hs.own m m' d hread (hdd ▸ hread'))
    rw [Tracks, entriesAt_map hmap ((read_write_of_ne _ _ _ _ hne).trans hd')]
    simpa [writesTo, heq] using ht

/-- Storing a copy is a write. -/
theorem copy_tracked (hs : h.Sound) (hm : h.isMap (.ref m) = true) (hk : key.text? = some name)
    (hv : h.Fine v) :
    Outcome (do let w ← wrap v; putEntry m key w) h (fun _ h' => Tracked [⟨m, name, v⟩] h h')
      (Tracked [] h) := by
  cases hrun : wrap v h with
  | error e h₁ =>
    have hfailed : h₁ = h := by
      have houtcome := wrap_outcome hs hv
      rw [Outcome, hrun] at houtcome
      exact houtcome
    subst hfailed
    exact Outcome.of_error (run_bind_error hrun) (.refl hs)
  | ok w h₁ =>
    obtain ⟨hg, hw, hst⟩ := (wrap_outcome hs hv).result hrun
    rw [Outcome, run_bind_ok hrun]
    refine Outcome.mono (putEntry_tracked (v := v) hg.sound (hg.keeps.maps m hm) hk hw hst
      (wrap_none hs hv hrun)) (fun _ h₂ ht => (Tracked.of_grows hs hg).trans ht) fun _ => id

/-- Replacing the value of a key by a copy is a write. -/
theorem replace_tracked (hs : h.Sound) (hm : h.isMap (.ref m) = true) (hv : h.Fine v) :
    Outcome (replace m key v) h (fun _ h' => Tracked [⟨m, h.keyText key, v⟩] h h')
      (Tracked [] h) := by
  refine Outcome.get_bind (Outcome.bind ((settleKey_outcome (text?_keyName key)).mono ?_
    fun _ => id))
  rintro k h₁ ⟨hk, hc⟩
  have hg : Grows .wrapped h h₁ := .of_cells hs hc
  have ht := Tracked.of_grows hs hg
  exact (copy_tracked hg.sound (hg.keeps.maps m hm) hk (hv.extends hg.cells)).mono
    (fun _ _ => ht.trans) fun _ => ht.trans

/-! ### Merging -/

/-- Two mappings meet under a key where a map stands and a mapping comes in. -/
theorem meeting?_eq_some {inner : Ref} (hmeet : meeting? h m key v = some (inner, source)) :
    ((h.entriesAt m).get? (h.keyName key)).getD .none = .ref inner ∧
      h.isMap (.ref inner) = true ∧ h.mapping? v = some source := by
  unfold meeting? at hmeet
  dsimp only at hmeet
  split at hmeet
  · rename_i hcurrent hmap hsource
    cases hmeet
    exact ⟨hcurrent, hcurrent ▸ hmap, hsource⟩
  · cases hmeet

/-- Where no two mappings meet, the value is replaced. -/
theorem mergeKey_replace {descend : Ref → Ref → Heap.Action Unit}
    (hmeet : meeting? h m key v = none) : mergeKey descend m key v h = replace m key v h := by
  refine mergeKey_copy fun inner source hcurrent hmap hsource => ?_
  rw [meeting?, hcurrent] at hmeet
  simp only [hmap, hsource] at hmeet
  cases hmeet

/-- Where two mappings meet, the map that holds one of them stays, and counts as written. -/
theorem met_tracked {inner : Ref} (hs : h.Sound)
    (hmeet : meeting? h m key v = some (inner, source)) :
    Tracked [⟨m, h.keyText key, v⟩] h h := by
  obtain ⟨hcurrent, -, hsource⟩ := meeting?_eq_some hmeet
  refine ⟨.refl hs, fun m' us _ ht => ?_⟩
  by_cases heq : m = m'
  · subst heq
    have hget : (h.entriesAt m).get? (h.keyName key) = some (.ref inner) := by
      cases hget : (h.entriesAt m).get? (h.keyName key) with
      | none => rw [hget] at hcurrent; cases hcurrent
      | some w => rw [hget] at hcurrent; exact congrArg some hcurrent
    have hv := eq_of_mapping? hsource
    have hnodup : (Entries.keys (Entries.ofList us)).Nodup :=
      Entries.nodup_keys_putAll _ List.nodup_nil
    have hput : Entries.Match (fun _ v w => w = .none ↔ v = .none)
        (Entries.put (h.keyText key) v (Entries.ofList us)) (h.entriesAt m) :=
      ht.put_named (text?_keyName key) hnodup hget (by simp [hv]) fun _ _ _ _ => id
    simpa [Tracks, Entries.ofList_append, writesTo, Entries.putAll] using hput
  · simpa [writesTo, heq] using ht

section Steps

variable {visit : Key → Value → Heap.Action Unit} {writes : Heap → Key → Value → List Write}
  {descend : Ref → Ref → Heap.Action Unit} {inner : Heap → Ref → Ref → List Write}

/-- The value of one key is merged. -/
theorem mergeKey_tracked (hs : h.Sound) (hm : h.isMap (.ref m) = true) (hv : h.Fine v)
    (hdescend : ∀ current source, h.isMap (.ref current) = true → h.Fine (.ref source) →
      Outcome (descend current source) h (fun _ => Tracked (inner h current source) h)
        (Tracked (inner h current source) h)) :
    Outcome (mergeKey descend m key v) h (fun _ => Tracked (keyWrites inner m h key v) h)
      (Tracked (keyWrites inner m h key v) h) := by
  -- either two mappings meet, and merging goes down, or the entry is replaced
  cases hmeet : meeting? h m key v with
  | some p =>
    obtain ⟨current, source⟩ := p
    obtain ⟨hcurrent, hmap, hsource⟩ := meeting?_eq_some hmeet
    have hmet := met_tracked hs hmeet
    rw [Outcome, mergeKey_descend hcurrent hmap hsource]
    simp only [keyWrites, hmeet]
    exact (hdescend current source hmap (eq_of_mapping? hsource ▸ hv)).mono
      (fun _ _ => hmet.trans) fun _ => hmet.trans
  | none =>
    have hreplace : Outcome (replace m key v) h
        (fun _ h' => Tracked [⟨m, h.keyText key, v⟩] h h') (Tracked [] h) :=
      replace_tracked hs hm hv
    rw [Outcome, mergeKey_replace hmeet]
    simp only [keyWrites, hmeet]
    unfold Outcome at hreplace
    cases hrun : replace m key v h with
    | ok _ h' => rw [hrun] at hreplace; exact hreplace
    | error _ h' => rw [hrun] at hreplace; exact hreplace

/-- The entries of a mapping are gone through. -/
theorem forEntries_tracked {size : Nat} (hv : h.Fine (.ref source))
    (hvisit : ∀ key v g, Keeps h g → g.Fine v →
      Outcome (visit key v) g (fun _ => Tracked (writes g key v) g) (Tracked (writes g key v) g)) :
    ∀ (keys : List Key) {g : Heap}, Keeps h g →
      Outcome (forEntries visit source size keys) g
        (fun _ => Tracked (entriesWrites visit writes source size keys g) g)
        (Tracked (entriesWrites visit writes source size keys g) g)
  | [], _, hg => Tracked.refl hg.sound
  | key :: rest, g, hg => by
    -- what stands under the key when its turn comes is there, or is none
    have hgiven : g.Fine (((g.entriesAt source).get? key).getD .none) := by
      cases hget : (g.entriesAt source).get? key with
      | none => exact ⟨rfl, fun r heq => by cases heq⟩
      | some v =>
        obtain ⟨k, hmem⟩ := Entries.exists_of_get? hget
        exact fine_entriesAt hg.sound _ _ hmem
    have hhead := hvisit key _ g hg hgiven
    refine Outcome.get_bind ?_
    simp only [entriesWrites]
    unfold Outcome at hhead
    -- the writes that are told follow the run: they end where it fails or the source has grown
    cases hrun : visit key (((g.entriesAt source).get? key).getD .none) g with
    | error e g' =>
      rw [hrun] at hhead
      rw [Outcome, run_bind_error hrun, List.append_nil]
      exact hhead
    | ok _ g' =>
      rw [hrun] at hhead
      rw [Outcome, run_bind_ok hrun]
      refine Outcome.get_bind ?_
      dsimp only
      split
      · exact (forEntries_tracked hv hvisit rest (hg.trans hhead.toKeeps)).mono
          (fun _ _ => hhead.trans) fun _ => hhead.trans
      · rw [List.append_nil]
        exact hhead

/-- A mapping is merged into a map, however deep. -/
theorem mergeTo_tracked : ∀ (n : Nat) {h : Heap} {m source : Ref}, h.Sound →
    h.isMap (.ref m) = true → h.Fine (.ref source) →
    Outcome (mergeTo n m source) h (fun _ => Tracked (mergeWrites n h m source) h)
      (Tracked (mergeWrites n h m source) h)
  | 0, _, _, _, hs, _, _ => Tracked.refl hs
  | n + 1, h, m, source, hs, hm, hv => by
    cases hitems : h.items source with
    | error e =>
      simp only [mergeWrites, hitems]
      refine Outcome.bind (Outcome.ask (fun entries heq => ?_) (.refl hs))
      rw [hitems] at heq
      cases heq
    | ok es =>
      simp only [mergeWrites, hitems]
      refine Outcome.bind ?_
      rw [Outcome, ask, hitems]
      refine forEntries_tracked hv (fun key v g hg hgiven => ?_) _ (.refl hs)
      exact mergeKey_tracked hg.sound (hg.maps _ hm) hgiven fun current source hmap hsource =>
        mergeTo_tracked n hg.sound hmap hsource

end Steps

theorem merge_tracked (hs : h.Sound) (hm : h.isMap (.ref m) = true) (hv : h.Fine v) :
    Tracked ((MapCall.merge m v).writes h) h ((MapCall.merge m v).after h) := by
  have houtcome : Outcome (merge m v) h (fun _ => Tracked ((MapCall.merge m v).writes h) h)
      (Tracked ((MapCall.merge m v).writes h) h) := by
    refine Outcome.get_bind ?_
    simp only [MapCall.writes]
    cases hsource : h.mapping? v with
    | some source =>
      have hgiven : h.Fine (.ref source) := eq_of_mapping? hsource ▸ hv
      exact Outcome.bind ((mergeTo_tracked _ hs hm hgiven).mono (fun _ _ => id) fun _ => id)
    | none => exact Tracked.refl hs
  rw [MapCall.after_eq]
  exact (Outcome.discard houtcome).stateAfter

/-! ### Calls -/

/-- Storing a value is a write. -/
theorem set_tracked {key : Value} (hs : h.Sound) (hm : h.isMap (.ref m) = true) (hv : h.Fine v) :
    Outcome (set m key v) h (fun _ => Tracked [⟨m, h.keyText (.atom key), v⟩] h)
      (Tracked [] h) := by
  have hkey : (h.nameKey key).text? = some (h.keyText (.atom key)) := text?_keyName (.atom key)
  refine Outcome.get_bind (Outcome.bind ((settleKey_outcome hkey).mono ?_ fun _ => id))
  rintro k h₁ ⟨hk, hc⟩
  have hg : Grows .wrapped h h₁ := .of_cells hs hc
  have ht := Tracked.of_grows hs hg
  have hm₁ := hg.keeps.maps m hm
  have hv₁ := hv.extends hg.cells
  split
  · rename_i hmap
    have hmap₁ : h₁.isMap v = true := by
      obtain ⟨r, rfl⟩ := set_outcome.ref_of_isMap hmap
      exact hg.keeps.maps r hmap
    exact Outcome.bind (Outcome.pure (Outcome.bind ((putEntry_tracked (v := v) hg.sound hm₁ hk hv₁
      (hg.sound.storable_of_isMap hmap₁) Iff.rfl).mono (fun _ _ => ht.trans) fun _ => id)))
  · have hcopy : Outcome ((do let w ← wrap v; putEntry m k w) >>= fun _ => pure (Value.ref m)) h₁
        (fun _ => Tracked [⟨m, h.keyText (.atom key), v⟩] h) (Tracked [] h) :=
      Outcome.bind ((copy_tracked hg.sound hm₁ hk hv₁).mono (fun _ _ => ht.trans) fun _ => ht.trans)
    simpa only [bind_assoc] using hcopy

/-- Index assignment to a map is `set`. -/
theorem setMapItem_eq {key : Value} (hs : h.Sound) (hm : h.isMap (.ref m) = true) :
    Object.setMapItem m key v h = (discard (set m key v)) h := by
  obtain ⟨data, hr⟩ := read_of_isMap hm
  obtain ⟨d, es, rfl, hd, -⟩ := hs.cells m _ hr
  simp only [Object.setMapItem, bind, EStateM.bind, run_get, dict?_of_map hr hd]

theorem setItem_eq {key : Value} (hs : h.Sound) (hm : h.isMap (.ref m) = true) :
    Object.setItem (.ref m) key v h = (discard (set m key v)) h := by
  rw [← setMapItem_eq hs hm]
  simp only [Object.setItem, bind, EStateM.bind, run_get, hm]

/-- Assignment to a public name is `set`. -/
theorem setAttribute_eq (hs : h.Sound) (hm : h.isMap (.ref m) = true)
    (hn : isPrivate name = false) :
    Object.setAttribute (.ref m) name v h = (discard (set m (.ofText name) v)) h := by
  obtain ⟨data, hr⟩ := read_of_isMap hm
  rw [← setMapItem_eq hs hm]
  simp only [Object.setAttribute, bind, EStateM.bind, run_get, cell?, hr, hn, Bool.false_eq_true,
    if_false]

/-- A call that stores writes if it succeeds. -/
theorem stored_tracked {call : Heap.Action Value} {act : Heap.Action Unit} {write : Write}
    (hcall : Outcome call h (fun _ => Tracked [write] h) (Tracked [] h))
    (hact : act h = (discard call) h) :
    Tracked (if succeeded (act h) then [write] else []) h (stateAfter act h) := by
  unfold Outcome at hcall
  unfold stateAfter
  rw [hact]
  cases hrun : call h with
  | ok a h' =>
    rw [hrun] at hcall
    rw [run_discard_ok hrun]
    exact hcall
  | error e h' =>
    rw [hrun] at hcall
    rw [run_discard_error hrun]
    exact hcall

/-- A new map is new cells. -/
theorem create_tracked (hs : h.Sound) (hv : h.Fine v) :
    Outcome (create v) h (fun _ => Tracked [] h) (Tracked [] h) := by
  refine Outcome.get_bind ?_
  split
  · have hg := Grows.make hs List.Pairwise.nil (fun p hp => by cases hp) fun p hp => by cases hp
    exact Outcome.of_ok rfl (.of_grows hs hg)
  · split
    · refine (wrap_outcome hs hv).mono (fun _ _ hw => .of_grows hs hw.1) fun h' he => ?_
      rw [he]
      exact .refl hs
    · exact Tracked.refl hs

/-- After a call, every map holds what it was written with before and in the call. -/
theorem MapCall.after_tracked {call : MapCall} (hs : h.Sound) (hg : call.Given h) :
    Tracked (call.writes h) h (call.after h) := by
  rw [after_eq]
  cases call with
  | create source => exact (Outcome.discard (create_tracked hs hg)).stateAfter
  | set m key value => exact stored_tracked (set_tracked hs hg.1 hg.2) rfl
  | setItem m key value => exact stored_tracked (set_tracked hs hg.1 hg.2) (setItem_eq hs hg.1)
  | setAttribute m name value =>
    exact stored_tracked (set_tracked hs hg.1 hg.2.2) (setAttribute_eq hs hg.1 hg.2.1)
  | merge m other =>
    rw [← after_eq]
    exact merge_tracked hs hg.1 hg.2

/-! ### Histories -/

/-- What a map is written with when it is made of a mapping, or of nothing. -/
def createWrites (h : Heap) (source : Value) : List (String × Value) :=
  match h.mapping? source with
  | some r => h.named (h.entriesAt r)
  | none => []

/-- What a map was written with since it was made.  A caller makes a map of a mapping, or any call makes
it as a part of what it copies. -/
inductive History (start : Heap) (m : Ref) : Heap → List (String × Value) → Prop
  | created {h h' : Heap} {source : Value} : Reached start h → h.Fine source →
      create source h = .ok (.ref m) h' → History start m h' (createWrites h source)
  | part {h : Heap} (call : MapCall) : Reached start h → call.Given h →
      h.isMap (.ref m) = false → (call.after h).isMap (.ref m) = true →
      History start m (call.after h) ((call.after h).named ((call.after h).entriesAt m))
  | build {h h' : Heap} {ws : List (String × Value)} : History start m h ws → Extends h h' →
      Arguments h.size h' → History start m h' ws
  | call {h : Heap} {ws : List (String × Value)} (call : MapCall) : History start m h ws →
      call.Given h → History start m (call.after h) (ws ++ writesTo m (call.writes h))

theorem MapCall.after_create {d : Value} (hrun : AttributeMap.create v h = .ok d h') :
    (MapCall.create v).after h = h' := by
  rw [after_eq]
  exact stateAfter_eq (run_discard_ok hrun)

theorem History.reached {start : Heap} {ws : List (String × Value)} (hw : History start m h ws) :
    Reached start h := by
  induction hw with
  | created hr hv hrun => exact MapCall.after_create hrun ▸ .call (.create _) hr hv
  | part call hr hg _ _ => exact .call call hr hg
  | build _ he hn ih => exact .build ih he hn
  | call call _ hg ih => exact .call call ih hg

/-- What shows a map in normal form holds what was handed in: entries that match those of the mapping,
written one after the other. -/
theorem HandedInEntries.mapValues_norm {ts : List (String × Tree String)} :
    ∀ {es : Entries Key Value}, HandedInEntries h ts es →
      Entries.mapValues (· = .leaf .none) (Tree.normEntries ts) =
        Entries.mapValues (· = .none) (h.named es) := by
  induction ts with
  | nil =>
    rintro es rfl
    rfl
  | cons p ts ih =>
    obtain ⟨name, t⟩ := p
    rintro es ⟨key, v, rest, rfl, rfl, ht, hts⟩
    have hhead := handedIn_none ht
    simp only [Tree.normEntries, named, Entries.mapValues, List.map_cons] at ih ⊢
    rw [ih hts, hhead]

/-- A new map holds what it is written with when it is made. -/
theorem tracks_created (hs : h.Sound) (hv : h.Fine v) (hrun : create v h = .ok (.ref m) h') :
    h'.isMap (.ref m) = true ∧ Tracks h' m (createWrites h v) := by
  cases hmapping : h.mapping? v with
  | none =>
    -- only a map of nothing is made of what is no mapping
    cases v with
    | none =>
      cases hrun
      refine ⟨isMap_of_read (read_alloc_new _ _), ?_⟩
      have hd := (read_alloc_old (h.push (.dict [])) (.map (.ref h.next)) h.next
        (Nat.lt_of_lt_of_eq (Nat.lt_succ_self _) (size_push h _).symm)).trans (read_alloc_new h _)
      rw [Tracks, entriesAt_map (read_alloc_new _ _) hd]
      exact .nil
    | _ =>
      simp only [create, bind, EStateM.bind, run_get, isMapping, hmapping, Option.isSome_none,
        Bool.false_eq_true, if_false] at hrun
      cases hrun
  | some source =>
    obtain rfl := eq_of_mapping? hmapping
    have hismapping : h.isMapping (.ref source) = true := by simp [isMapping, hmapping]
    obtain ⟨es, hes⟩ := exists_entries_of_isMapping hs hismapping
    rw [create_eq_wrap hismapping] at hrun
    obtain ⟨t, ht, -, hread⟩ := reads_of_wrap hs hv hrun
    obtain ⟨ts, rfl⟩ := ht.map_of_entries? hes
    obtain ⟨es₁, hes₁, hts⟩ := ht
    rw [hes] at hes₁
    cases hes₁
    obtain ⟨es', hes', -, -, hreads⟩ := hread
    refine ⟨?_, ?_⟩
    · obtain ⟨_, heq, ⟨-, hne⟩ | ⟨d, hr, -⟩⟩ := cell_of_entries? hes'
      · exact absurd rfl hne
      · cases heq
        exact isMap_of_read hr
    have hmatch : Entries.Match (fun _ t w => w = .none ↔ t = .leaf .none)
        (Entries.ofList (Tree.normEntries ts)) es' :=
      (show Entries.Match (fun _ t w => h'.Reads .stored h.Vacant t w) _ es' from
        readsEntries_iff.mp hreads).imp fun _ _ _ => reads_none
    rw [Tracks, entriesAt_of_entries? hes', createWrites, hmapping]
    dsimp only
    rw [entriesAt_of_entries? hes]
    have hnorm := hts.mapValues_norm
    have hnamed := (Entries.match_mapValues (Q := fun _ empty w => w = Value.none ↔ empty)
      (· = Tree.leaf .none)).mpr hmatch
    rw [Entries.mapValues_ofList, hnorm, ← Entries.mapValues_ofList] at hnamed
    exact (Entries.match_mapValues _).mp hnamed

/-- A map holds its own entries. -/
theorem tracks_own (hs : h.Sound) (hm : h.isMap (.ref m) = true) :
    Tracks h m (h.named (h.entriesAt m)) := by
  obtain ⟨data, hr⟩ := read_of_isMap hm
  obtain ⟨d, es, rfl, hd, ht⟩ := hs.cells m _ hr
  have hapart := (hs.cells d _ hd).1
  have hmatch : Entries.Match (fun _ (v w : Value) => w = .none ↔ v = .none) (h.named es) es := by
    refine List.forall₂_map_left_iff.mpr (List.forall₂_same.mpr fun p hp => ⟨?_, Iff.rfl⟩)
    obtain ⟨name, hname⟩ := ht p hp
    rw [hname, keyText_of_text? hname]
  rw [Tracks, entriesAt_map hr hd, Entries.ofList_eq_self (hmatch.apart_iff.mp hapart)]
  exact hmatch

/-- A map holds what it was written with. -/
theorem History.tracks {start : Heap} {ws : List (String × Value)} (hn : Arguments 0 start)
    (hw : History start m h ws) : h.isMap (.ref m) = true ∧ Tracks h m ws := by
  induction hw with
  | created hr hv hrun => exact tracks_created (hr.sound (sound_of_arguments hn)) hv hrun
  | part call hr hg _ hm =>
    exact ⟨hm, tracks_own (call.after_sound (hr.sound (sound_of_arguments hn)) hg) hm⟩
  | @build h h' ws hw he harguments ih =>
    have hs := hw.reached.sound (sound_of_arguments hn)
    have ht : Tracked [] h h' := .of_grows hs (grows_of_arguments hs he harguments)
    exact ⟨ht.maps m ih.1, by simpa [writesTo] using ht.tracks m ws ih.1 ih.2⟩
  | call call hw hg ih =>
    have ht := call.after_tracked (hw.reached.sound (sound_of_arguments hn)) hg
    exact ⟨ht.maps m ih.1, ht.tracks m _ ih.1 ih.2⟩

/-- Every map that operations lead to has a history. -/
theorem exists_history {start : Heap} (hn : Arguments 0 start) (hr : Reached start h)
    (hm : h.isMap (.ref m) = true) : ∃ ws, History start m h ws := by
  induction hr with
  | start =>
    obtain ⟨data, hread⟩ := read_of_isMap hm
    exact absurd rfl ((hn m _ (Nat.zero_le _) hread).2 data)
  | @build h h' hr he harguments ih =>
    obtain ⟨data, hread⟩ := read_of_isMap hm
    have hlt : m.index < h.size := by
      by_contra hge
      exact (harguments m _ (Nat.le_of_not_lt hge) hread).2 data rfl
    obtain ⟨ws, hw⟩ := ih (isMap_of_read ((he.read_eq m hlt).symm.trans hread))
    exact ⟨ws, .build hw he harguments⟩
  | @call h call hr hg ih =>
    cases hbefore : h.isMap (.ref m) with
    | true =>
      obtain ⟨ws, hw⟩ := ih hbefore
      exact ⟨_, .call call hw hg⟩
    | false => exact ⟨_, .part call hr hg hbefore hm⟩

end PageMeta.AttributeMap
