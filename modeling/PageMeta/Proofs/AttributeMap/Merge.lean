import PageMeta.Proofs.AttributeMap.Midway
import PageMeta.Proofs.Outcome

/-!
# Merging

A merge that reads every entry before it writes it gives the deep merge of the trees that the two
sides show.  One key is either gone down to, when both sides hold maps there, or gets a copy of what
comes in; each of the two keeps the invariant of the level.

## Key results

- `mergeKey_down`, `mergeKey_over`: one more key is merged
- `forEntries_merge`: the rest of a level is merged
- `mergeTo_spec`: a merge in which no write is read later gives the deep merge of the trees
- `Merged.at?_eq`: where both sides hold maps, the target keeps its map
-/

namespace PageMeta.AttributeMap

open Heap

variable {h g : Heap} {texts : Ref → Prop} {x y : Value} {t u : Tree String}
  {tx dx sy : Ref} {xs ys : Entries Key Value} {ts us : Entries String (Tree String)}

/-! ### One key -/

/-- What a merge has to leave behind. -/
structure Merged (h : Heap) (x y : Value) (t u : Tree String) (g g' : Heap) : Prop where
  changes : Changes (fun name d => ∃ names, Writes h x y names name d) g g'
  reads : g'.Reads .stored (fun r => h.Vacant r ∨ h.Opens .stored x r) (t.deepMerge u) x

/-- A key that is not gone down to gets a copy of what comes in. -/
theorem mergeKey_copy {descend : Ref → Ref → Heap.Action Unit} {target : Ref} {key : Key}
    {v : Value} (hn : ∀ inner source,
      ((g.entriesAt target).get? (g.keyName key)).getD .none = .ref inner →
      g.isMap (.ref inner) = true → g.mapping? v = some source → False) :
    mergeKey descend target key v g = (do
      let name ← settleKey (g.keyName key)
      let copy ← wrap v
      putEntry target name copy) g := by
  simp only [mergeKey, bind, EStateM.bind, run_get]
  generalize ((g.entriesAt target).get? (g.keyName key)).getD .none = current at hn
  cases current with
  | ref inner =>
    cases hmap : g.isMap (.ref inner) with
    | false => rfl
    | true =>
      cases hsource : g.mapping? v with
      | none => rfl
      | some source => exact (hn inner source rfl hmap hsource).elim
  | _ => rfl

/-- A key that has a map on both sides is gone down to. -/
theorem mergeKey_descend {descend : Ref → Ref → Heap.Action Unit} {target inner source : Ref}
    {key : Key} {v : Value}
    (hcur : ((g.entriesAt target).get? (g.keyName key)).getD .none = .ref inner)
    (hmap : g.isMap (.ref inner) = true) (hsource : g.mapping? v = some source) :
    mergeKey descend target key v g = descend inner source g := by
  simp only [mergeKey, bind, EStateM.bind, run_get, hcur, hmap, hsource]

/-- One level down, the same is known. -/
theorem Merging.child (hm : Merging h texts x y (.map ts) (.map us)) {name : String} {c v : Value}
    (hc : h.child? .stored x (.entry name) = some c)
    (hv : h.child? .given y (.entry name) = some v) :
    ∃ t u, Entries.get? name ts = some t ∧ Entries.get? name us = some u ∧
      Merging h texts c v t u := by
  rcases hm.reads_target.child?_entry name with ⟨-, hnone⟩ | ⟨t, c', ht, hc', hrt⟩
  · rw [hnone] at hc; cases hc
  · rcases hm.reads_source.child?_entry name with ⟨-, hnone⟩ | ⟨u, v', hu, hv', hru⟩
    · rw [hnone] at hv; cases hv
    · rw [hc] at hc'
      rw [hv] at hv'
      cases hc'
      cases hv'
      refine ⟨t, u, ht, hu, hrt, hru, ?_, hm.keysRead.child? hv, hm.texts_lt, hm.clear.child hc hv⟩
      exact Tree.distinctEntries_iff.mp hm.distinct.2 _ (Entries.mem_of_get? hu)

/-- Where merging does not go down, the source replaces the target. -/
theorem Merging.deepMerge_eq (hm : Merging h texts x y t u) (hn : ¬ Joint h x y) :
    t.deepMerge u = u := by
  refine Tree.deepMerge_of_not_map (Bool.eq_false_iff.mpr fun hb => hn ?_)
  have hmaps := Bool.and_eq_true_iff.mp hb
  exact ⟨hm.reads_target.isMap_iff.mp hmaps.1, hm.reads_source.isMap_iff.mp hmaps.2⟩

section Step

variable {done rest : Entries String (Tree String)} {start : Heap} {key : Key} {name : String}
  {v : Value}

/-- The value of a name in the target, on the level and in the tree. -/
theorem Level.current (hl : Level h texts tx dx sy xs ys ts us) {nk : Key}
    (hk : nk.text? = some name) :
    h.child? .stored (.ref tx) (.entry name) = Entries.get? nk xs := by
  rw [Heap.child?, hl.entries_target, Option.bind_some]
  exact get?_named hl.reads_target.1.keyReads hk

/-- The key of an entry of the source is read as its name. -/
theorem Midway.keyName (hl : Level h texts tx dx sy xs ys ts us)
    (hs : Untouched h texts (.ref tx) (.ref sy) start) (hm : Midway h tx dx sy ts done start g)
    (hmem : (key, v) ∈ ys) (hname : h.keyText key = name) :
    (g.keyName key).text? = some name := by
  have hkey := hl.merging.keysRead [] _ _ rfl hl.entries _ hmem
  rw [text?_keyName, (hkey.agree (hm.agree_texts hl hs)).keyText_eq, hname]

/-- The names that are merged are those before the next one. -/
theorem Level.split (hl : Level h texts tx dx sy xs ys ts us)
    (hus : us = done ++ (name, u) :: rest) :
    name ∉ Entries.keys done ∧ (Entries.keys done).Nodup ∧ Entries.get? name us = some u := by
  have hnodup := hl.nodup_source
  have hmem : (name, u) ∈ us := by rw [hus]; exact List.mem_append_right _ List.mem_cons_self
  have hget := Entries.get?_of_mem hnodup hmem
  rw [hus] at hnodup
  simp only [Entries.keys, List.map_append, List.map_cons] at hnodup
  obtain ⟨hdone, -, hdisj⟩ := List.nodup_append.mp hnodup
  exact ⟨fun hn => hdisj _ hn _ List.mem_cons_self rfl, hdone, hget⟩

/-- What was merged before one more name is merged. -/
theorem Wrote.mono {done : Entries String (Tree String)} {n : String} {d : Ref}
    (hw : Wrote h x y (Entries.keys done) n d) :
    Wrote h x y (Entries.keys (done ++ [(name, u)])) n d := by
  obtain ⟨names, first, hw, hfirst, hdone⟩ := hw
  refine ⟨names, first, hw, hfirst, ?_⟩
  simp only [Entries.keys, List.map_append] at hdone ⊢
  exact List.mem_append_left _ hdone

/-- The value of the moment under a name that is not merged yet is the one before the merge. -/
theorem Midway.current (hl : Level h texts tx dx sy xs ys ts us)
    (hs : Untouched h texts (.ref tx) (.ref sy) start) (hm : Midway h tx dx sy ts done start g)
    {es : Entries Key Value} (hes : g.read dx = some (.dict es)) {nk : Key}
    (hk : nk.text? = some name) (hn : name ∉ Entries.keys done) :
    Entries.get? nk es = h.child? .stored (.ref tx) (.entry name) := by
  rw [hm.get?_eq hl hs hes hk hn, hl.current hk]

/-- What comes in shows what it showed before the merge. -/
theorem Midway.reads_incoming (hl : Level h texts tx dx sy xs ys ts us)
    (hs : Untouched h texts (.ref tx) (.ref sy) start) (hm : Midway h tx dx sy ts done start g)
    (hus : us = done ++ (name, u) :: rest)
    (hv : h.child? .given (.ref sy) (.entry name) = some v) :
    u.Distinct ∧ g.Reads .given (fun r => h.Opens .given v r ∨ texts r) u v := by
  obtain ⟨-, -, hget⟩ := hl.split hus
  have hd : u.Distinct :=
    Tree.distinctEntries_iff.mp hl.merging.distinct.2 _ (Entries.mem_of_get? hget)
  have hsource := hm.agree_source hl hs hus hv
  rcases hl.merging.reads_source.child?_entry name with ⟨-, hnone⟩ | ⟨u', v', hu', hv', hr⟩
  · rw [hv] at hnone
    cases hnone
  · rw [hv] at hv'
    rw [hget] at hu'
    cases hv'
    cases hu'
    refine ⟨hd, (hr.opens hd (hl.merging.keysRead.child? hv)).agree ⟨hsource.size_le, ?_⟩⟩
    intro r hr
    exact hr.elim (hsource.read_eq r) ((hm.agree_texts hl hs).read_eq r)

/-- Where there were not maps on both sides before the merge, there are none at the moment. -/
theorem Midway.not_descend (hl : Level h texts tx dx sy xs ys ts us)
    (hs : Untouched h texts (.ref tx) (.ref sy) start) (hm : Midway h tx dx sy ts done start g)
    (hus : us = done ++ (name, u) :: rest)
    (hv : h.child? .given (.ref sy) (.entry name) = some v)
    (hj : ∀ c, h.child? .stored (.ref tx) (.entry name) = some c → ¬ Joint h c v)
    {inner source : Ref}
    (hinner : (h.child? .stored (.ref tx) (.entry name)).getD .none = .ref inner)
    (hmap : g.isMap (.ref inner) = true) : g.mapping? v ≠ some source := by
  intro hmapping
  obtain ⟨hnotin, -, -⟩ := hl.split hus
  cases hc : h.child? .stored (.ref tx) (.entry name) with
  | none => rw [hc] at hinner; cases hinner
  | some c =>
    rw [hc] at hinner
    have he : c = .ref inner := hinner
    subst he
    obtain ⟨t, u', -, -, hmerge⟩ := hl.merging.child hc hv
    refine hj _ hc ⟨?_, ?_⟩
    · rw [isMap, cell?_agree (hm.agree_target hl hs hc hnotin) fun r hr => opens_self hr] at hmap
      exact hmerge.reads_target.isMap_stored.mp hmap
    · rw [← entries?_agree (hm.agree_source hl hs hus hv) fun r hr => opens_self hr]
      exact (hm.reads_incoming hl hs hus hv).2.mapping?_given.mp (by rw [hmapping]; rfl)

/-- There the source replaces what the target has in the tree as well. -/
theorem Level.mergeAt_eq (hl : Level h texts tx dx sy xs ys ts us)
    (hget : Entries.get? name us = some u)
    (hv : h.child? .given (.ref sy) (.entry name) = some v)
    (hj : ∀ c, h.child? .stored (.ref tx) (.entry name) = some c → ¬ Joint h c v) :
    Tree.mergeAt ts name u = u := by
  rw [Tree.mergeAt]
  rcases hl.merging.reads_target.child?_entry name with ⟨hnone, -⟩ | ⟨t, c, -, hc, -⟩
  · rw [hnone]
  · obtain ⟨t, u', ht, hu', hmerge⟩ := hl.merging.child hc hv
    rw [hget] at hu'
    cases hu'
    rw [ht]
    exact hmerge.deepMerge_eq (hj c hc)

/-- A written dictionary is below the name through which it is gone to, and below no other. -/
theorem Level.head?_of_below (hl : Level h texts tx dx sy xs ys ts us) {names : List String}
    {n m : String} {d : Ref} (hw : Writes h (.ref tx) (.ref sy) names n d)
    (hb : Below h (.ref tx) m d) : names.head? = some m := by
  rcases hb with hvac | ⟨c, hc, way, w, hat, hown⟩
  · exact absurd hvac (hw.not_vacant hl.merging.reads_target)
  · have heq := hl.merging.clear.target_eq _ _ _ _ w hw ((at?_cons hc).trans hat) hown
    cases names with
    | nil => cases heq
    | cons n names => cases heq; rfl

/-- One more key, where merging goes down. -/
theorem mergeKey_down {descend : Ref → Ref → Heap.Action Unit}
    (hl : Level h texts tx dx sy xs ys ts us) (hs : Untouched h texts (.ref tx) (.ref sy) start)
    (hm : Midway h tx dx sy ts done start g) (hus : us = done ++ (name, u) :: rest)
    (hmem : (key, v) ∈ ys) (hname : h.keyText key = name) {c : Value}
    (hc : h.child? .stored (.ref tx) (.entry name) = some c) (hj : Joint h c v)
    (hd : ∀ rc rv t, c = .ref rc → v = .ref rv → Merging h texts c v t u →
      Untouched h texts c v g → ∃ g', descend rc rv g = .ok () g' ∧ Merged h c v t u g g') :
    ∃ g', mergeKey descend tx key v g = .ok () g' ∧
      Midway h tx dx sy ts (done ++ [(name, u)]) start g' := by
  subst hname
  obtain ⟨hnotin, hdone, hget⟩ := hl.split hus
  have hv := hl.reads_source.1.child?_of_mem hl.entries hl.nodup_source _ hmem
  have hk := hm.keyName hl hs hmem rfl
  obtain ⟨es, hes, hmatch⟩ := hm.content
  have hcur : Entries.get? (g.keyName key) es = some c := by
    rw [hm.current hl hs hes hk hnotin, hc]
  -- both sides stand as they did before the merge
  have htarget := hm.agree_target hl hs hc hnotin
  have hsource := hm.agree_source hl hs hus hv
  obtain ⟨t, u', ht, hu', hmerge⟩ := hl.merging.child hc hv
  rw [hget] at hu'
  cases hu'
  obtain ⟨entries, hentries⟩ := Option.isSome_iff_exists.mp hj.1
  obtain ⟨rc, rfl, ⟨-, hview⟩ | ⟨dc, hrc, -⟩⟩ := cell_of_entries? hentries
  · exact absurd rfl hview
  obtain ⟨entries', hentries'⟩ := Option.isSome_iff_exists.mp hj.2
  obtain ⟨rv, rfl, -⟩ := ref_of_entries? hentries'
  have hmap : g.isMap (.ref rc) = true := by
    have hread := htarget.read_eq rc (opens_self (own_ref_mem rc))
    simp [isMap, cell?, hread, hrc]
  have hmapping : g.mapping? (.ref rv) = some rv := by
    have hgiven := (entries?_agree hsource fun r hr => opens_self hr).trans hentries'
    obtain ⟨d, hd'⟩ := dict?_of_entries? hgiven
    rw [mapping?, hd']
    rfl
  obtain ⟨g', hrun, hmerged⟩ := hd rc rv t rfl rfl hmerge
    ⟨htarget, hsource, hm.agree_texts hl hs, hm.vacant hs⟩
  refine ⟨g', ?_, ?_, es, ?_, ?_⟩
  · rw [mergeKey_descend _ hmap hmapping, hrun]
    rw [entriesAt_map (hm.read_map hl hs) hes, hcur]
    rfl
  · refine (hm.changes.mono fun n d => Wrote.mono).trans (hmerged.changes.mono ?_)
    rintro n d ⟨names, hw⟩
    exact ⟨_ :: names, _, hw.up hc hv, rfl, by simp [Entries.keys]⟩
  · -- below the map its own dictionary is not written
    rw [hmerged.changes.read_eq dx (lt_size_of_read hes), hes]
    rintro n ⟨names, hw⟩
    cases hl.writes_dict (hw.up hc hv)
  · rw [Tree.mergeEntries_concat u hl.nodup_target hnotin, Tree.mergeAt, ht]
    refine hmatch.put_named hk (Tree.nodup_keys_mergeEntries hl.nodup_target hdone) hcur ?_ ?_
    · exact hmerged.reads.mono fun r hr => hr.imp_right fun ho => ⟨_, hc, ho⟩
    · -- what stands under another name shares no written dictionary
      intro n s w hne hw
      refine hmerged.changes.reads hw fun r hr n' hwritten => ?_
      obtain ⟨names, hwrites⟩ := hwritten
      cases hl.head?_of_below (hwrites.up hc hv) hr
      exact hne rfl

/-- One more key, where the source replaces what the target has. -/
theorem mergeKey_over {descend : Ref → Ref → Heap.Action Unit}
    (hl : Level h texts tx dx sy xs ys ts us) (hs : Untouched h texts (.ref tx) (.ref sy) start)
    (hm : Midway h tx dx sy ts done start g) (hus : us = done ++ (name, u) :: rest)
    (hmem : (key, v) ∈ ys) (hname : h.keyText key = name)
    (hj : ∀ c, h.child? .stored (.ref tx) (.entry name) = some c → ¬ Joint h c v) :
    ∃ g', mergeKey descend tx key v g = .ok () g' ∧
      Midway h tx dx sy ts (done ++ [(name, u)]) start g' := by
  subst hname
  obtain ⟨hnotin, hdone, hget⟩ := hl.split hus
  have hv := hl.reads_source.1.child?_of_mem hl.entries hl.nodup_source _ hmem
  have hk := hm.keyName hl hs hmem rfl
  obtain ⟨es, hes, hmatch⟩ := hm.content
  have htx := hm.read_map hl hs
  obtain ⟨hdistinct, hru⟩ := hm.reads_incoming hl hs hus hv
  have hcopy : ∀ inner source,
      ((g.entriesAt tx).get? (g.keyName key)).getD .none = .ref inner →
      g.isMap (.ref inner) = true → g.mapping? v = some source → False := by
    intro inner source hinner hmap
    rw [entriesAt_map htx hes, hm.current hl hs hes hk hnotin] at hinner
    exact hm.not_descend hl hs hus hv hj hinner hmap
  -- the key is made, the copy is made, and both are written
  obtain ⟨nk, g₁, hkey, hnk, hcells⟩ := settleKey_text? (h := g) hk
  have he₁ := extends_of_cells hcells
  obtain ⟨w, g₂, hwrap, he₂, hrw⟩ := wrap_reads (hru.extends he₁)
  rw [Tree.norm_of_distinct hdistinct] at hrw
  have he := he₁.trans he₂
  have hes₂ := he.read_of_some hes
  have hwrites : Writes h (.ref tx) (.ref sy) [] (h.keyText key) dx :=
    ⟨tx, .ref sy, v, rfl, hl.read_map, rfl, hv, hj⟩
  have hwrite := changes_write w hes₂ hnk
  refine ⟨g₂.write dx (.dict (es.put nk w)), ?_, ?_, _,
    read_write_self _ _ _ (lt_size_of_read hes₂), ?_⟩
  · rw [mergeKey_copy hcopy]
    simp only [bind, EStateM.bind, hkey, hwrap]
    exact putEntry_ok nk w (he.read_of_some htx) hes₂
  · refine (hm.changes.mono fun n d => Wrote.mono).trans
      ((Changes.of_extends he).trans (hwrite.mono ?_))
    rintro n d ⟨rfl, rfl⟩
    exact ⟨[], _, hwrites, rfl, by simp [Entries.keys]⟩
  · rw [Tree.mergeEntries_concat u hl.nodup_target hnotin, hl.mergeAt_eq hget hv hj]
    refine Entries.Match.put (hmatch.imp fun n s w' hr => ?_) hnk ?_
    · -- no value of the level opens the dictionary that is written
      refine hwrite.reads (hr.extends he) fun r hr n' hn' => ?_
      obtain ⟨-, rfl⟩ := hn'
      cases hl.head?_of_below hwrites hr
    · -- nor does the copy, which is made of new cells
      refine (hwrite.reads hrw fun r hr n' hn' => ?_).mono fun r hr =>
        .inl (hm.vacant hs r (hr.of_extends he₁))
      obtain ⟨-, rfl⟩ := hn'
      exact absurd (hr _ (he₁.read_of_some hes)) (by simp [Cell.isContainer])

end Step

/-! ### All keys -/

/-- Before the first key, everything is as it was. -/
theorem Level.start (hl : Level h texts tx dx sy xs ys ts us)
    (hs : Untouched h texts (.ref tx) (.ref sy) g) : Midway h tx dx sy ts [] g g := by
  have hread : g.read dx = some (.dict xs) :=
    (hs.target.read_eq dx (opens_self hl.own_target)).trans hl.read_dict
  refine ⟨Changes.refl _ _, xs, hread, ?_⟩
  rw [Tree.mergeEntries_nil]
  refine hl.match_target.imp_mem fun p hp q hq hk hr => ?_
  have hc := hl.reads_target.1.child?_of_mem hl.entries_target hl.nodup_target q hq
  rw [keyText_of_text? hk] at hc
  refine ((hr.opened (by decide)).agree ?_).mono fun r hr => .inr ⟨_, hc, hr⟩
  exact hs.target.mono fun r hr => hr.of_child? hc

/-- Going through the rest of a source merges the rest. -/
theorem forEntries_merge {descend : Ref → Ref → Heap.Action Unit}
    (hl : Level h texts tx dx sy xs ys ts us) {start : Heap}
    (hs : Untouched h texts (.ref tx) (.ref sy) start)
    (hd : ∀ rc rv t u g, (∃ name, (name, u) ∈ us) → Merging h texts (.ref rc) (.ref rv) t u →
      Joint h (.ref rc) (.ref rv) → Untouched h texts (.ref rc) (.ref rv) g →
      ∃ g', descend rc rv g = .ok () g' ∧ Merged h (.ref rc) (.ref rv) t u g g') :
    ∀ (rest : Entries String (Tree String)) {done : Entries String (Tree String)}
      {ysrest : Entries Key Value} {g : Heap}, us = done ++ rest →
      h.ReadsEntries .given (fun _ => True) rest ysrest → (∀ p ∈ ysrest, p ∈ ys) →
      Midway h tx dx sy ts done start g →
      ∃ g', forEntries (mergeKey descend tx) sy ys.length ysrest.keys g = .ok () g' ∧
        Midway h tx dx sy ts us start g' := by
  intro rest
  induction rest with
  | nil =>
    intro done ysrest g hus hr _ hm
    rw [ReadsEntries] at hr
    subst hr
    rw [List.append_nil] at hus
    subst hus
    exact ⟨g, rfl, hm⟩
  | cons p rest ih =>
    obtain ⟨name, u⟩ := p
    intro done ysrest g hus hr hmem hm
    obtain ⟨key, v, ysrest, rfl, hkey, hru, hrest⟩ := hr
    have hname := hkey.keyText_eq
    have hin : (key, v) ∈ ys := hmem _ List.mem_cons_self
    obtain ⟨hnotin, -, -⟩ := hl.split hus
    -- the value of the moment is the one before the merge
    have hcur := (hm.source_eq hl hs hus).2 key v hin (by rw [hname]; exact hnotin)
    have hstep : ∃ g', mergeKey descend tx key v g = .ok () g' ∧
        Midway h tx dx sy ts (done ++ [(name, u)]) start g' := by
      by_cases hj : ∃ c, h.child? .stored (.ref tx) (.entry name) = some c ∧ Joint h c v
      · obtain ⟨c, hc, hj⟩ := hj
        refine mergeKey_down hl hs hm hus hin hname hc hj fun rc rv t hrc hrv hmerge huntouched => ?_
        subst hrc hrv
        have hmem : (name, u) ∈ us := by rw [hus]; exact List.mem_append_right _ List.mem_cons_self
        exact hd rc rv t u g ⟨name, hmem⟩ hmerge hj huntouched
      · exact mergeKey_over hl hs hm hus hin hname fun c hc hj' => hj ⟨c, hc, hj'⟩
    obtain ⟨g₁, hrun, hm₁⟩ := hstep
    have hus₁ : us = (done ++ [(name, u)]) ++ rest := by rw [hus]; simp
    obtain ⟨g', hloop, hm'⟩ := ih hus₁ hrest (fun p hp => hmem p (List.mem_cons_of_mem _ hp)) hm₁
    refine ⟨g', ?_, hm'⟩
    have hlen := (hm₁.source_eq hl hs hus₁).1
    simp only [Entries.keys, List.map_cons, forEntries, bind, EStateM.bind, run_get, hcur,
      Option.getD_some, hrun, hlen, if_true]
    exact hloop

/-- A level of which all names are merged shows the deep merge. -/
theorem Midway.merged (hl : Level h texts tx dx sy xs ys ts us) {start : Heap}
    (hs : Untouched h texts (.ref tx) (.ref sy) start) (hm : Midway h tx dx sy ts us start g) :
    Merged h (.ref tx) (.ref sy) (.map ts) (.map us) start g := by
  refine ⟨hm.changes.mono ?_, ?_⟩
  · rintro name d ⟨names, first, hw, -⟩
    exact ⟨names, hw⟩
  · obtain ⟨es, hes, hmatch⟩ := hm.content
    rw [Tree.deepMerge_map]
    refine ⟨es, ?_, ?_, ?_, readsEntries_iff.mpr ?_⟩
    · simp [entries?, cell?, hm.read_map hl hs, hes]
    · intro r hr
      have hmem : r = tx ∨ r = dx := by simpa [own, hm.read_map hl hs, Cell.backing?] using hr
      refine .inr (opens_self ?_)
      rcases hmem with rfl | rfl
      · exact own_ref_mem r
      · exact hl.own_target
    · exact hmatch.apart_iff.mpr (Tree.nodup_keys_mergeEntries hl.nodup_target hl.nodup_source)
    · refine hmatch.imp fun name t v hr => hr.mono fun r hr => ?_
      rcases hr with hv | ⟨c, hc, ho⟩
      · exact .inl hv
      · exact .inr (ho.of_child? hc)

/-- Merging goes through the entries that the source has before the merge. -/
theorem Level.items (hl : Level h texts tx dx sy xs ys ts us)
    (hs : Untouched h texts (.ref tx) (.ref sy) g) : g.items sy = .ok ys := by
  have he := (entries?_agree hs.source fun r hr => opens_self hr).trans hl.entries
  obtain ⟨d, hd⟩ := dict?_of_entries? he
  rw [Heap.items, hd]

/-- What is merged with each other are maps on both sides. -/
theorem Merging.maps (hm : Merging h texts x y t u) (hj : Joint h x y) :
    (∃ ts, t = .map ts) ∧ ∃ us, u = .map us := by
  have ht := hm.reads_target.isMap_iff.mpr hj.1
  have hu := hm.reads_source.isMap_iff.mpr hj.2
  cases t <;> simp [Tree.isMap] at ht
  cases u <;> simp [Tree.isMap] at hu
  exact ⟨⟨_, rfl⟩, _, rfl⟩

/-- A merge in which no write is read later gives the deep merge of the trees. -/
theorem mergeTo_spec : ∀ (n : Nat) {tx sy : Ref} {t u : Tree String} {g : Heap},
    Merging h texts (.ref tx) (.ref sy) t u → Joint h (.ref tx) (.ref sy) →
      Untouched h texts (.ref tx) (.ref sy) g → u.height ≤ n →
      ∃ g', mergeTo n tx sy g = .ok () g' ∧ Merged h (.ref tx) (.ref sy) t u g g' := by
  intro n
  induction n with
  | zero =>
    intro tx sy t u g hm hj _ hn
    obtain ⟨-, us, rfl⟩ := hm.maps hj
    simp [Tree.height] at hn
  | succ n ih =>
    intro tx sy t u g hm hj hs hn
    obtain ⟨⟨ts, rfl⟩, us, rfl⟩ := hm.maps hj
    obtain ⟨_, dx, _, xs, ys, hx, hy, hl⟩ := hm.level
    cases hx
    cases hy
    -- the trees under the keys of the source are lower
    have hbelow : ∀ rc rv t u g, (∃ name, (name, u) ∈ us) →
        Merging h texts (.ref rc) (.ref rv) t u → Joint h (.ref rc) (.ref rv) →
        Untouched h texts (.ref rc) (.ref rv) g →
        ∃ g', mergeTo n rc rv g = .ok () g' ∧ Merged h (.ref rc) (.ref rv) t u g g' := by
      rintro rc rv t u g ⟨name, hmem⟩ hmerge hj hun
      refine ih hmerge hj hun (Nat.le_trans (Tree.height_le_heightEntries hmem) ?_)
      rw [Tree.height] at hn
      exact Nat.le_of_succ_le_succ hn
    obtain ⟨g', hloop, hm'⟩ := forEntries_merge hl hs hbelow us (List.nil_append us).symm
      hl.reads_source.1 (fun p hp => hp) (hl.start hs)
    refine ⟨g', ?_, hm'.merged hl hs⟩
    simp only [mergeTo, forEach, ask, bind, EStateM.bind, hl.items hs]
    rw [show ys.keys.length = ys.length by simp [Entries.keys]]
    exact hloop

/-! ### The maps stay where they are -/

/-- What has a step down to an entry is opened as a map. -/
theorem isSome_of_child?_entry {view : View} {v w : Value} {name : String}
    (hc : h.child? view v (.entry name) = some w) : (h.entries? view v).isSome := by
  rw [Heap.child?] at hc
  cases he : h.entries? view v with
  | none => rw [he] at hc; cases hc
  | some entries => rfl

/-- Where merging goes down, the entry is not written. -/
theorem Joint.not_writes {names names' : List String} {name : String} {r d : Ref}
    {c w w' : Value} (hcl : Clear h texts x y)
    (hv : h.at? .stored x (through names) = some (.ref r)) (hr : h.read r = some (.map (.ref d)))
    (hw : h.at? .given y (through names) = some w) (hw' : h.child? .given w (.entry name) = some w')
    (hc : h.child? .stored (.ref r) (.entry name) = some c) (hj : Joint h c w') :
    ¬ Writes h x y names' name d := by
  intro hwrites
  have heq := hcl.target_eq _ _ _ _ _ hwrites hv (own_map_mem hr)
  have hnames : names = names' := (List.map_injective_iff.mpr fun _ _ he => by cases he; rfl) heq
  subst hnames
  obtain ⟨r', w₀, w₁, hat, -, hat', hchild, hn⟩ := hwrites
  rw [hv] at hat
  rw [hw] at hat'
  cases hat
  cases hat'
  rw [hw'] at hchild
  cases hchild
  exact hn c hc hj

/-- An entry of an attribute map that is not written keeps its value. -/
theorem Merged.child?_eq {g g' : Heap} (hm : Merging h texts x y t u) (hd : Merged h x y t u g g')
    (hs : Agree (h.Opens .stored x) h g) {names : List String} {name : String} {v c w w' : Value}
    (hv : h.at? .stored x (through names) = some v) (hv' : g'.at? .stored x (through names) = some v)
    (hw : h.at? .given y (through names) = some w) (hw' : h.child? .given w (.entry name) = some w')
    (hc : h.child? .stored v (.entry name) = some c) (hj : Joint h c w') :
    g'.child? .stored v (.entry name) = some c := by
  obtain ⟨tv, htv⟩ := hm.reads_target.of_at? hv
  obtain ⟨tv', htv'⟩ := hd.reads.of_at? hv'
  obtain ⟨es, hes⟩ := Option.isSome_iff_exists.mp (isSome_of_child?_entry hc)
  obtain ⟨r, rfl, ⟨-, hview⟩ | ⟨d, hr, hdict, -⟩⟩ := cell_of_entries? hes
  · exact absurd rfl hview
  have hopen : ∀ s ∈ h.own (.ref r), h.Opens .stored x s := fun s hs => ⟨_, _, hv, hs⟩
  have hrg : g.read r = some (.map (.ref d)) := (hs.read_eq r (hopen r (own_ref_mem r))).trans hr
  have hdg : g.read d = some (.dict es) := (hs.read_eq d (hopen d (own_map_mem hr))).trans hdict
  have hread : g'.read r = some (.map (.ref d)) := by
    rw [hd.changes.read_eq r (lt_size_of_read hrg), hrg]
    rintro n ⟨names', hwrites⟩
    exact hwrites.read_ne_map hm.reads_target hr
  obtain ⟨es', hes', -, hget⟩ := hd.changes.get?_eq d es hdg
  have hentries : g'.entries? .stored (.ref r) = some es' := by
    simp [entries?, cell?, hread, hes']
  -- the entry is found in both heaps under one key
  have htexts : ∀ p ∈ es, ∃ s, p.1.text? = some s := fun p hp => by
    exact ⟨_, htv.keysRead [] _ _ rfl hes p hp⟩
  have htexts' : ∀ p ∈ es', ∃ s, p.1.text? = some s := fun p hp => by
    exact ⟨_, htv'.keysRead [] _ _ rfl hentries p hp⟩
  have hk : (Key.ofText name).text? = some name := rfl
  have hbefore : Entries.get? (Key.ofText name) es = some c := by
    rw [← get?_named htexts hk, ← hc, Heap.child?, hes, Option.bind_some]
  rw [Heap.child?, hentries, Option.bind_some, get?_named htexts' hk]
  refine (hget _ _ hk ?_).trans hbefore
  rintro ⟨names', hwrites⟩
  exact Joint.not_writes hm.clear hv hr hw hw' hc hj hwrites

/-- Where both sides hold maps, the target holds the same map afterwards. -/
theorem Merged.at?_eq {g g' : Heap} (hm : Merging h texts x y t u) (hd : Merged h x y t u g g')
    (hs : Agree (h.Opens .stored x) h g) : ∀ (names : List String) {v w : Value},
    h.at? .stored x (through names) = some v → h.at? .given y (through names) = some w →
      Joint h v w → g'.at? .stored x (through names) = some v := by
  intro names
  induction names using List.reverseRecOn with
  | nil => intro v w hv _ _; exact hv
  | append_singleton names name ih =>
    intro v w hv hw hj
    rw [through, List.map_append, List.map_singleton, at?_append] at hv hw ⊢
    obtain ⟨v₀, hv₀, hv⟩ := Option.bind_eq_some_iff.mp hv
    obtain ⟨w₀, hw₀, hw⟩ := Option.bind_eq_some_iff.mp hw
    rw [at?_singleton] at hv hw
    have hj₀ : Joint h v₀ w₀ := ⟨isSome_of_child?_entry hv, isSome_of_child?_entry hw⟩
    have hv₀' := ih hv₀ hw₀ hj₀
    rw [hv₀', Option.bind_some, at?_singleton]
    exact hd.child?_eq hm hs hv₀ hv₀' hw₀ hw hv hj

end PageMeta.AttributeMap
