import PageMeta.Proofs.Builder.Intact
import PageMeta.Proofs.Value.Writing

/-!
# What a builder has filed

A builder files values under texts.  An intact builder never fails to store a value, and what it has
filed then is what it had with one text written.  Merging fails before it stores anything or not at
all, and writes the texts of the keys of what is merged, one after the other.

## Key results

- `filed`: what a builder has stored, by the texts of the keys
- `set_files`, `merge_files`: storing and merging, and what they write
- `set_intact`, `merge_intact`: storing cannot fail, and merging fails only before it stores
-/

namespace PageMeta

namespace Heap

/-- Writing under a text is writing the text. -/
theorem named_put (h : Heap) {es : Entries Key Value} (ht : es.TextKeys) {key : Key} {name : String}
    (hk : key.text? = some name) (v : Value) :
    h.named (es.put key v) = (h.named es).put name v := by
  induction es with
  | nil => simp [named, Entries.put, keyText_of_text? hk]
  | cons p rest ih =>
    obtain ⟨⟨s, hs⟩, hrest⟩ := List.forall_mem_cons.mp ht
    have htail := ih hrest
    simp only [named, Entries.put, List.map_cons, keyText_of_text? hs,
      Key.beq_of_text? hs hk] at htail ⊢
    split
    · simp [keyText_of_text? hs]
    · rw [List.map_cons, htail, keyText_of_text? hs]

end Heap

namespace Builder

open Heap (Extends AgreeBut)

variable {h h' h'' : Heap} {kind : BuilderKind} {c : Cells} {v : Value} {key : Key} {name : String}
  {us ws : List (String × Value)}

/-- What a builder has stored, by the texts of the keys. -/
def filed (h : Heap) (c : Cells) : Entries String Value := h.named (h.entriesAt c.buffer)

/-- A later heap with an intact builder, which has filed some more writes. -/
structure Files (kind : BuilderKind) (c : Cells) (ws : List (String × Value)) (h h' : Heap) :
    Prop where
  intact : Intact h' kind c
  filed_eq : filed h' c = (filed h c).putAll ws

/-- A later heap in which a builder has filed some more writes, under keys that are made, and no other
cell that was there has changed. -/
structure FilesOnly (kind : BuilderKind) (c : Cells) (ws : List (String × Value)) (h h' : Heap) :
    Prop extends Files kind c ws h h' where
  agree : AgreeBut c.buffer h h'
  keys : ∀ key ∈ Entries.keys (h'.entriesAt c.buffer),
    key ∈ Entries.keys (h.entriesAt c.buffer) ∨ key.value.isMade = true

/-- What is filed is read off the buffer. -/
theorem filed_congr (hb : Intact h kind c) (hread : h'.read c.buffer = h.read c.buffer) :
    filed h' c = filed h c := by
  obtain ⟨entries, hentries⟩ := hb.buffer
  have ht := hb.texts entries hentries
  rw [filed, filed, Heap.entriesAt_dict hentries, Heap.entriesAt_dict (hread.trans hentries)]
  refine Heap.named_congr fun p hp => ?_
  obtain ⟨s, hs⟩ := ht p hp
  rw [Heap.keyText_of_text? hs, Heap.keyText_of_text? hs]

/-- A value is filed under a text if it is stored under a key that is the text. -/
theorem get?_filed (hb : Intact h kind c) (hk : key.text? = some name) :
    (filed h c).get? name = (h.entriesAt c.buffer).get? key := by
  obtain ⟨entries, hentries⟩ := hb.buffer
  rw [filed, Heap.entriesAt_dict hentries, Heap.get?_named (hb.texts entries hentries) hk]

namespace Files

theorem of_extends (hb : Intact h kind c) (he : Extends h h') : Files kind c [] h h' := by
  obtain ⟨entries, hentries⟩ := hb.buffer
  exact ⟨hb.of_extends he,
    filed_congr hb ((he.read_of_some hentries).trans hentries.symm)⟩

theorem refl (hb : Intact h kind c) : Files kind c [] h h := ⟨hb, rfl⟩

theorem trans (h₁ : Files kind c us h h') (h₂ : Files kind c ws h' h'') :
    Files kind c (us ++ ws) h h'' where
  intact := h₂.intact
  filed_eq := by
    rw [h₂.filed_eq, h₁.filed_eq]
    simp [Entries.putAll]

end Files

namespace FilesOnly

theorem of_extends (hb : Intact h kind c) (he : Extends h h') : FilesOnly kind c [] h h' := by
  obtain ⟨entries, hentries⟩ := hb.buffer
  refine ⟨.of_extends hb he, he.agreeBut, fun key hkey => .inl ?_⟩
  rwa [Heap.entriesAt_dict (he.read_of_some hentries), ← Heap.entriesAt_dict hentries] at hkey

theorem refl (hb : Intact h kind c) : FilesOnly kind c [] h h := .of_extends hb (Heap.Agree.refl _ _)

theorem trans (h₁ : FilesOnly kind c us h h') (h₂ : FilesOnly kind c ws h' h'') :
    FilesOnly kind c (us ++ ws) h h'' where
  toFiles := h₁.toFiles.trans h₂.toFiles
  agree := h₁.agree.trans h₂.agree
  keys key hkey := by
    rcases h₂.keys key hkey with hold | hmade
    · exact h₁.keys key hold
    · exact .inr hmade

end FilesOnly

/-! ### Storing -/

/-- A text is a key. -/
theorem toKey_of_text? (h : Heap) (hk : key.text? = some name) : h.toKey key.value = .ok key := by
  cases key with
  | tuple r items => cases hk
  | atom v => cases v <;> first | rfl | cases hk

/-- Storing under a text writes an entry into the buffer, and cannot fail. -/
theorem putAt_run (hb : Intact h kind c) (hk : key.text? = some name) (v : Value) :
    ∃ (k : Key) (h₁ : Heap) (entries : Entries Key Value), k.text? = some name ∧
      k.value.isMade = true ∧ h₁.cells = h.cells ∧ h.read c.buffer = some (.dict entries) ∧
      putAt (.ref c.builder) key v h =
        .ok (.ref c.builder) (h₁.write c.buffer (.dict (entries.put k v))) := by
  obtain ⟨k, h₁, hsettle, hk', hmade, hcells⟩ := Heap.settleKey_made (h := h) hk
  obtain ⟨entries, hr⟩ := hb.buffer
  have hr₁ : h₁.read c.buffer = some (.dict entries) :=
    (Heap.extends_of_cells hcells).read_of_some hr
  have hitem : Object.setItem (.ref c.buffer) k.value v h₁ =
      .ok () (h₁.write c.buffer (.dict (entries.put k v))) := by
    rw [setItem_dict hr₁]
    have hask : Heap.ask (fun h => h.toKey k.value) h₁ = .ok k h₁ := by
      simp only [Heap.ask, toKey_of_text? h₁ hk']
    exact run_bind_ok hask
  exact ⟨k, h₁, entries, hk', hmade, hcells, hr,
    (run_bind_ok (getAttribute_buffer hb.toPlaced)).trans
      ((run_bind_ok hsettle).trans (run_bind_ok hitem))⟩

/-- Storing cannot fail, and files the value under the text of the key. -/
theorem putAt_files (hb : Intact h kind c) (hk : key.text? = some name) (v : Value) :
    ∃ h', putAt (.ref c.builder) key v h = .ok (.ref c.builder) h' ∧ FilesOnly kind c [(name, v)] h h' := by
  obtain ⟨k, h₁, entries, hk', hmade, hcells, hr, hrun⟩ := putAt_run hb hk v
  have he := Heap.extends_of_cells hcells
  have hr₁ := he.read_of_some hr
  have hread := Heap.read_write_self h₁ c.buffer (.dict (entries.put k v)) (Heap.lt_size_of_read hr₁)
  refine ⟨_, hrun, ⟨(hb.of_extends he).write hr₁ hk' v, ?_⟩,
    he.agreeBut.trans ((hb.of_extends he).toFirm.write _).agree, fun key hkey => ?_⟩
  · -- making the key leaves what is filed as it was
    rw [← filed_congr hb (hr₁.trans hr.symm), filed, filed, Heap.entriesAt_dict hr₁,
      Heap.entriesAt_dict hread, Heap.named_put _ (hb.texts entries hr) hk' v]
    have htexts : ∀ p ∈ entries, Heap.keyText (h₁.write c.buffer (.dict (entries.put k v))) p.1 =
        h₁.keyText p.1 := fun p hp => by
      obtain ⟨s, hs⟩ := hb.texts entries hr p hp
      rw [Heap.keyText_of_text? hs, Heap.keyText_of_text? hs]
    rw [Heap.named_congr htexts]
    rfl
  · rw [Heap.entriesAt_dict hread] at hkey
    rw [Heap.entriesAt_dict hr]
    obtain ⟨p, hp, rfl⟩ := List.mem_map.mp hkey
    rcases Entries.mem_put hp with ⟨-, heq | ⟨q, hq, heq⟩⟩ | hp
    · exact .inr (heq ▸ hmade)
    · exact .inl (heq ▸ List.mem_map_of_mem hq)
    · exact .inl (List.mem_map_of_mem hp)

theorem set_files (hb : Intact h kind c) (key v : Value) :
    ∃ h', set (.ref c.builder) key v h = .ok (.ref c.builder) h' ∧
      FilesOnly kind c [(h.keyText (.atom key), v)] h h' := by
  obtain ⟨h', hrun, ha⟩ := putAt_files hb (Heap.text?_keyName (.atom key)) v
  exact ⟨h', (run_bind_ok run_get).trans hrun, ha⟩

/-- Storing cannot fail. -/
theorem set_intact (hb : Intact h kind c) (key v : Value) :
    ∃ h', set (.ref c.builder) key v h = .ok (.ref c.builder) h' ∧ Intact h' kind c := by
  obtain ⟨h', hrun, ha⟩ := set_files hb key v
  exact ⟨h', hrun, ha.intact⟩

/-! ### Merging -/

theorem entriesAt_of_dict? {d source : Ref} {es : Entries Key Value}
    (hs : h.dict? source = some (d, es)) : h.entriesAt source = es := by
  rw [Heap.entriesAt, hs]
  rfl

/-- A mapping has the entries of its dictionary after a dictionary is written as well. -/
theorem dict?_write {b d source : Ref} {es entries : Entries Key Value}
    (hb : h.read b = some (.dict entries)) (hs : h.dict? source = some (d, es))
    (new : Entries Key Value) :
    (h.write b (.dict new)).dict? source = some (d, if d = b then new else es) := by
  -- by the number of maps that are gone through: the one that is written is a dictionary, so the
  -- way to the entries stays
  have hto : ∀ (n : Nat) (r : Ref), h.dictTo n r = some (d, es) →
      (h.write b (.dict new)).dictTo n r = some (d, if d = b then new else es) := by
    intro n
    induction n with
    | zero =>
      intro r hr
      cases hr
    | succ n ih =>
      intro r hr
      by_cases heq : r = b
      · subst heq
        simp only [Heap.dictTo, hb, Option.some.injEq, Prod.mk.injEq] at hr
        obtain ⟨rfl, -⟩ := hr
        simp only [Heap.dictTo, Heap.read_write_self _ _ _ (Heap.lt_size_of_read hb), if_true]
      · simp only [Heap.dictTo, Heap.read_write_of_ne _ _ _ _ (Ne.symm heq)] at hr ⊢
        split at hr
        · cases hr
          rw [if_neg heq]
        · exact ih _ hr
        · cases hr
  have hdepth : (h.write b (.dict new)).depth = h.depth := by
    simp only [Heap.depth, Heap.size_write]
  rw [Heap.dict?, hdepth]
  exact hto _ _ hs

theorem dict?_of_cells (hc : h'.cells = h.cells) (r : Ref) : h'.dict? r = h.dict? r := by
  have hto : ∀ (n : Nat) (r : Ref), h'.dictTo n r = h.dictTo n r := by
    intro n
    induction n with
    | zero => exact fun _ => rfl
    | succ n ih =>
      intro r
      simp only [Heap.dictTo, Heap.read, hc, ih]
  have hdepth : h'.depth = h.depth := by simp only [Heap.depth, Heap.size, hc]
  rw [Heap.dict?, Heap.dict?, hdepth, hto]

/-- A text is a key of the entries if it was before it was made. -/
theorem has_of_filed {entries : Entries Key Value} {k : Key} (ht : entries.TextKeys)
    (hkey : key ∈ entries.keys) (hk : k.text? = some (h.keyText key)) : entries.has k = true := by
  obtain ⟨p, hp, rfl⟩ := List.mem_map.mp hkey
  obtain ⟨s, hs⟩ := ht p hp
  rw [Heap.keyText_of_text? hs] at hk
  rw [Entries.has_eq_any, List.any_eq_true]
  exact ⟨p, hp, by simp [Key.beq_of_text? hs hk]⟩

/-- Stores a value that is merged, under the text of its key. -/
def storeKey (b : Value) (key : Key) (v : Value) : Heap.Action Unit := do
  discard (putAt b ((← get).keyName key) v)

/-- What merging a value writes into a builder: the text of each key, as it is when its turn comes. -/
def mergedWrites (b other : Value) (h : Heap) : List (String × Value) :=
  match mergeSource other h with
  | .ok source h₁ =>
    match h₁.mapping? source with
    | some r =>
      let keys := Entries.keys (h₁.entriesAt r)
      Heap.entriesWrites (storeKey b) (fun h key v => [(h.keyText key, v)]) r keys.length keys h₁
    | none => []
  | .error _ _ => []

/-- Storing a value that is merged cannot fail, and no mapping but the buffer changes. -/
theorem storeKey_run {source d : Ref} {es : Entries Key Value} (hb : Intact h kind c) (key : Key)
    (v : Value) (hs : h.dict? source = some (d, es)) :
    ∃ (k : Key) (h₁ : Heap) (entries : Entries Key Value), k.text? = some (h.keyText key) ∧
      h.read c.buffer = some (.dict entries) ∧ storeKey (.ref c.builder) key v h = .ok () h₁ ∧
      h₁.read c.buffer = some (.dict (entries.put k v)) ∧
      FilesOnly kind c [(h.keyText key, v)] h h₁ ∧
      h₁.dict? source = some (d, if d = c.buffer then entries.put k v else es) := by
  obtain ⟨h₁, hrun, ha⟩ := putAt_files hb (Heap.text?_keyName key) v
  obtain ⟨k, h₂, entries, hk, -, hcells, hr, hrun'⟩ := putAt_run hb (Heap.text?_keyName key) v
  obtain rfl : h₁ = h₂.write c.buffer (.dict (entries.put k v)) := by
    rw [hrun] at hrun'
    cases hrun'
    rfl
  have hr₂ := (Heap.extends_of_cells hcells).read_of_some hr
  exact ⟨k, _, entries, hk, hr, (run_bind_ok run_get).trans (run_discard_ok hrun),
    Heap.read_write_self _ _ _ (Heap.lt_size_of_read hr₂), ha,
    dict?_write hr₂ ((dict?_of_cells hcells source).trans hs) (entries.put k v)⟩

/-- Storing what a mapping has under some of its keys cannot fail, even if its entries are those of the
buffer itself: there every key is stored under itself, so that the buffer gets no further key. -/
theorem storeKeys_files {source d : Ref} {size : Nat} : ∀ (keys : List Key) {h : Heap}
    {es : Entries Key Value}, Intact h kind c → h.dict? source = some (d, es) → es.length = size →
      (∀ key ∈ keys, key ∈ Entries.keys es) →
      Outcome (Heap.forEntries (storeKey (.ref c.builder)) source size keys) h
        (fun _ h' => Files kind c (Heap.entriesWrites (storeKey (.ref c.builder))
          (fun h key v => [(h.keyText key, v)]) source size keys h) h h') fun _ => False
  | [], _, _, hb, _, _, _ => .refl hb
  | key :: rest, h, es, hb, hs, hsize, hkeys => by
    obtain ⟨hfirst, hrest⟩ := List.forall_mem_cons.mp hkeys
    obtain ⟨v, hv⟩ : ∃ v, ((h.entriesAt source).get? key).getD .none = v := ⟨_, rfl⟩
    obtain ⟨k, h₁, entries, hk, hr, hvisit, -, hf, hs'⟩ := storeKey_run hb key v hs
    -- the mapping still has as many entries, under the same keys
    have hkeys' : Entries.keys (if d = c.buffer then entries.put k v else es) = Entries.keys es := by
      split
      · rename_i hd
        have hread := Heap.read_of_dict? hs
        rw [hd, hr] at hread
        cases hread
        rw [Entries.keys_put, if_pos (has_of_filed (hb.texts _ hr) hfirst hk)]
      · rfl
    have hlength : (if d = c.buffer then entries.put k v else es).length = size := by
      have hcount := congrArg List.length hkeys'
      simpa only [Entries.keys, List.length_map, hsize] using hcount
    have hrest' : ∀ key ∈ rest, key ∈ Entries.keys (if d = c.buffer then entries.put k v else es) :=
      fun key hkey => hkeys' ▸ hrest key hkey
    refine Outcome.get_bind ?_
    rw [hv]
    refine Outcome.bind (Outcome.of_ok hvisit (Outcome.get_bind ?_))
    simp only [Heap.entriesWrites, hv, hvisit, entriesAt_of_dict? hs', hlength, if_true]
    exact (storeKeys_files rest hf.intact hs' hlength hrest').mono (fun _ _ => hf.toFiles.trans)
      fun _ => id

/-- Merging fails before anything is stored, or not at all, and writes the texts of the keys. -/
theorem merge_files (hb : Intact h kind c) (other : Value) :
    Outcome (merge (.ref c.builder) other) h
      (fun _ h' => Files kind c (mergedWrites (.ref c.builder) other h) h h') (Extends h) := by
  -- what has entries of its own is asked for them first, which files nothing
  have hsource := mergeSource_extends other h
  unfold Outcome at hsource
  cases hrun : mergeSource other h with
  | error e h₁ =>
    rw [hrun] at hsource
    exact Outcome.of_error (run_bind_error hrun) hsource
  | ok source h₁ =>
    rw [hrun] at hsource
    have hf := Files.of_extends hb hsource
    refine Outcome.bind (Outcome.of_ok hrun (Outcome.get_bind ?_))
    cases hmapping : h₁.mapping? source with
    | none => exact hsource
    | some r =>
      simp only [mergedWrites, hrun, hmapping]
      cases source with
      | ref s =>
        obtain ⟨⟨d, es⟩, hs, rfl⟩ := Option.map_eq_some_iff.mp hmapping
        have hitems : h₁.items s = .ok es := by simp only [Heap.items, hs]
        have hask : Heap.ask (fun h => h.items s) h₁ = .ok es h₁ := by simp only [Heap.ask, hitems]
        -- every key is stored in turn, and is one of the source at that time
        rw [entriesAt_of_dict? hs]
        refine Outcome.bind (Outcome.bind (Outcome.of_ok hask ?_))
        exact (storeKeys_files es.keys hf.intact hs (List.length_map (f := Prod.fst)).symm
          fun _ hkey => hkey).mono (fun _ _ => hf.trans) fun _ => False.elim
      | _ => cases hmapping

/-- Merging fails before anything is stored, or not at all. -/
theorem merge_intact (hb : Intact h kind c) (other : Value) :
    Outcome (merge (.ref c.builder) other) h (fun _ h' => Intact h' kind c) (Extends h) :=
  (merge_files hb other).mono (fun _ _ hf => hf.intact) fun _ => id

end Builder

end PageMeta
