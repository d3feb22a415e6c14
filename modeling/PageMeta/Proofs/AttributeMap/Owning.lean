import PageMeta.Proofs.AttributeMap.Hands
import PageMeta.Proofs.Heap.Unlooped

/-!
# Attribute maps own their data

A map keeps copies.  So after data were copied into a map, or out of it, whoever has the data cannot
change the map, and whoever has the map cannot change the data, whatever they do.

## Key results

- `Owns`: whether a map and a value are out of each other's reach
- `owns_created`, `owns_merged`, `owns_stored`, `owns_written`: the operations that copy
-/

namespace PageMeta.AttributeMap

open Heap

variable {h h' h₁ : Heap} {vs : List Value} {v x d : Value} {m : Ref}

/-! ### Writing out again -/

/-- A tree of a value that can be stored is shown by the value, with nothing opened but what it leads
to. -/
theorem exists_reads_of_treeTo (hs : h.Sound) (ht : h.There vs) : ∀ (n : Nat) {v : Value}
    {u : Tree Key}, h.Fine v → h.Storable v → Held (h.Leads vs) v → h.treeTo .stored n v = .ok u →
      ∃ t, h.Reads .stored (h.Leads vs) t v ∧ t.Distinct
  | 0, _, _, _, _, _, hu => by cases hu
  | n + 1, v, u, hv, hst, hheld, hu => by
    have hown : ∀ r ∈ h.own v, h.Leads vs r := fun r hr => by
      rcases mem_own_iff.mp hr with rfl | ⟨m, rfl, hm⟩
      · exact hheld.ref
      · exact hheld.ref.step hm (List.mem_singleton_self r)
    cases hi : h.items? .stored v with
    | some items =>
      rw [treeTo_of_items? .stored n hi] at hu
      obtain ⟨us, hus, -⟩ := exists_of_map_ok hu
      have hparts : ∀ w ∈ items, ∃ t, h.Reads .stored (h.Leads vs) t w ∧ t.Distinct := fun w hw => by
        obtain ⟨u, -, hu⟩ := exists_of_forall₂ (forall₂_of_mapM hus) w hw
        exact exists_reads_of_treeTo hs ht n (hs.fine_items hi w hw) (hst.items hi w hw)
          (ht.closed.items hheld hi w hw).of_live hu
      obtain ⟨ts, hts, hd⟩ := exists_readsItems hparts
      exact ⟨.list ts, ⟨items, hi, hown, hts⟩, hd⟩
    | none =>
      cases he : h.entries? .stored v with
      | some entries =>
        rw [treeTo_stored_of_entries? n he] at hu
        obtain ⟨us, hus, -⟩ := exists_of_map_ok hu
        have hparts : ∀ p ∈ entries, ∃ t, h.Reads .stored (h.Leads vs) t p.2 ∧ t.Distinct :=
          fun p hp => by
            obtain ⟨q, -, hq⟩ := exists_of_forall₂ (forall₂_of_mapM hus) p hp
            obtain ⟨u, hu, -⟩ := exists_of_bind_pure hq
            exact exists_reads_of_treeTo hs ht n ((hs.fine_entries he).2 p hp) (hst.entries he p hp)
              (ht.closed.entries hheld he p hp).of_live hu
        have hkeys : ∀ p ∈ entries, h.KeyReads .stored (h.Leads vs) p.1 (h.keyText p.1) :=
          fun p hp => by
            obtain ⟨s, hk⟩ := hs.textKeys he p hp
            show p.1.text? = some (h.keyText p.1)
            rw [hk, keyText_of_text? hk]
        obtain ⟨ts, hts, hd⟩ := exists_readsEntries hkeys hparts
        refine ⟨.map ts, ⟨entries, he, hown, (hs.fine_entries he).1, hts⟩, ?_, hd⟩
        have hm : Entries.Match (fun _ t v => h.Reads .stored (h.Leads vs) t v) ts entries :=
          readsEntries_iff.mp hts
        exact hm.apart_iff.mp (hs.fine_entries he).1
      | none => exact ⟨.leaf v, ⟨rfl, hs.isLeaf_of_unstored hv hst hi he, hown⟩, trivial⟩

/-- A map that can be written out shows a tree, with nothing opened but what it leads to. -/
theorem exists_reads_of_toDict (hs : h.Sound) (hm : h.isMap (.ref m) = true) (ht : h.There [.ref m])
    (hrun : toDict m h = .ok d h') : ∃ t, h.Reads .stored (h.Leads [.ref m]) t (.ref m) := by
  cases htree : h.tree .stored (.ref m) with
  | error e =>
    simp only [toDict, unwrap, ask, htree, bind, EStateM.bind] at hrun
    cases hrun
  | ok u =>
    obtain ⟨t, ht, -⟩ := exists_reads_of_treeTo hs ht _ (fine_of_isMap hm) (hs.storable_of_isMap hm)
      (held_ref (leads_self m)) htree
    exact ⟨t, ht⟩

/-- What a map is written out as is what it shows, with nothing opened but what it leads to. -/
theorem reads_of_givesDict (hs : h.Sound) (hm : h.isMap (.ref m) = true) (ht : h.There [.ref m])
    {t : Tree String} (hg : GivesDict h m t) : h.Reads .stored (h.Leads [.ref m]) t (.ref m) := by
  obtain ⟨d, h', hrun, -, hread⟩ := hg
  obtain ⟨t', ht'⟩ := exists_reads_of_toDict hs hm ht hrun
  obtain ⟨d', g, hrun', -, hread'⟩ := givesDict_of_reads ht'
  rw [hrun] at hrun'
  cases hrun'
  exact hread.functional hread' ▸ ht'

/-! ### Out of reach -/

/-- Whether a map and a value are out of each other's reach.  Whatever is done by someone who has the
value, the map stays as it is, at any depth, and is written out as before.  Whatever is done by
someone who has the map, the value stays as it is, at any depth. -/
structure Owns (h : Heap) (m : Ref) (x : Value) : Prop where
  map : ∀ h', Touches (h.InHand [x]) h h' → Agree (h.Leads [.ref m]) h h'
  dict : ∀ h', Touches (h.InHand [x]) h h' → ∀ t, GivesDict h m t → GivesDict h' m t
  value : ∀ h', Touches (h.InHand [.ref m]) h h' → Agree (h.Leads [x]) h h'

/-- A map and a value that share nothing but tuples are out of each other's reach. -/
theorem owns_of_aside (hs : h.Sound) (hm : h.isMap (.ref m) = true) (hmt : h.There [.ref m])
    (hxt : h.There [x]) (ha : h.Aside [.ref m] [x]) : Owns h m x where
  map _ ht := ha.symm.agree hmt ht
  dict _ ht _ hg := givesDict_of_reads ((reads_of_givesDict hs hm hmt hg).agree (ha.symm.agree hmt ht))
  value _ ht := ha.agree hxt ht

/-- A map that was made or written with nothing in hand that the data lead to is out of their reach. -/
theorem owns_of_worked {hands : Ref → Prop} (hr : Ready hands h) (hx : h.Pure [x])
    (hout : ∀ r, h.Leads [x] r → ¬ hands r) (hw : Worked hands h h')
    (hm : h'.isMap (.ref m) = true) (hheld : hands m) : Owns h' m x := by
  have hlive : ∀ v ∈ [Value.ref m], Held (h'.Live hands) v := fun v hv => by
    rw [List.mem_singleton.mp hv]
    obtain ⟨_, hread⟩ := read_of_isMap hm
    exact held_ref ⟨hheld, lt_size_of_read hread⟩
  obtain ⟨hagree, hthere, hunshared⟩ := unshared_of_touches hr hw.touches hlive hx.there hout
  exact owns_of_aside hw.sound hm hthere (hx.there.agree hagree) hunshared.aside

/-- New cells are not led to by what is there. -/
theorem not_new_of_leads (hx : h.There vs) {r : Ref} (hr : h.Leads vs r) : ¬ h.size ≤ r.index :=
  Nat.not_le.mpr (hx r hr)

theorem workable_inHand (hm : h.isMap (.ref m) = true) (hmt : h.There [.ref m]) :
    Workable (h.InHand [.ref m]) h m := ⟨hmt.ready, hm, .inl (leads_self m)⟩

/-- A value has what it leads to in hand. -/
theorem supplied_self (hx : h.Pure [x]) : Supplied h [x] h x :=
  ⟨.refl _ h, hx.values x List.mem_cons_self, (hx.there.held List.mem_cons_self).of_live⟩

/-- A mapping is opened as a map when it is handed in. -/
theorem exists_entries_of_isMapping (hs : h.Sound) (hm : h.isMapping v = true) :
    ∃ es, h.entries? .given v = some es := by
  cases v with
  | ref r =>
    cases hread : h.read r with
    | none => simp [isMapping, mapping?, dict?, depth, dictTo, hread] at hm
    | some c =>
      cases c with
      | dict es => exact ⟨es, by simp [entries?, cell?, hread]⟩
      | map data =>
        obtain ⟨d, es, rfl, hd, -⟩ := hs.cells r _ hread
        exact ⟨es, by simp [entries?, cell?, hread, hd]⟩
      | _ => simp [isMapping, mapping?, dict?, depth, dictTo, hread] at hm
  | _ => simp [isMapping, mapping?] at hm

/-- A tree that is a map is built as a map. -/
theorem exists_map_of_build {us : List (Key × Tree Key)} (hrun : build .wrapped (.map us) h = .ok v h') :
    ∃ m, v = .ref m ∧ h'.isMap (.ref m) = true := by
  rw [build] at hrun
  obtain ⟨es, g, -, hmake⟩ := exists_of_bind_ok hrun
  cases hmake
  exact ⟨_, rfl, isMap_of_read (read_alloc_new (g.push (.dict es)) _)⟩

/-- Making a map of a mapping of data without cycles succeeds, the map can be written out, and it is
out of reach of the data. -/
theorem owns_created (hs : h.Sound) (hx : h.Pure [x]) (hu : h.Unlooped [x])
    (hmapping : h.isMapping x = true) :
    ∃ m h₁ t, create x h = .ok (.ref m) h₁ ∧ h₁.isMap (.ref m) = true ∧ GivesDict h₁ m t ∧
      Owns h₁ m x := by
  obtain ⟨-, hdatum, hheld⟩ := supplied_self hx
  have hfine := hx.fine hdatum hheld
  -- the mapping is read as a tree, the tree is a map, and it is built
  obtain ⟨u, htree⟩ := exists_tree hx hs hu hdatum hheld
  obtain ⟨es, hes⟩ := exists_entries_of_isMapping hs hmapping
  obtain ⟨us, rfl⟩ : ∃ us, u = .map us := by
    rw [tree, depth, treeTo_given_of_entries? _ hes] at htree
    obtain ⟨us, -, heq⟩ := exists_of_map_ok htree
    exact ⟨_, heq.symm⟩
  obtain ⟨t, hnamed, hd⟩ := hs.treeTo_named _ hfine htree
  obtain ⟨w, h₁, hbuild, -, hread⟩ := build_reads .wrapped hnamed hd
  obtain ⟨m, rfl, hmap⟩ := exists_map_of_build hbuild
  have hcreate : create x h = .ok (.ref m) h₁ := by
    have hwrap : wrap x h = .ok (.ref m) h₁ := by
      simp only [wrap, ask, htree, bind, EStateM.bind, hbuild]
    obtain ⟨r, rfl, -⟩ := ref_of_entries? hes
    simp only [create, bind, EStateM.bind, run_get, hmapping, if_true, hwrap]
  have hwork := (create_worked hs (ready_new h) hfine ((hx.supply hs).imp fun _ => held_of_isScalar) ⟨hdatum, hheld⟩).result hcreate
  exact ⟨m, h₁, t, hcreate, hmap, givesDict_of_reads hread, owns_of_worked (ready_new h) hx
    (fun _ => not_new_of_leads hx.there) hwork.1 hmap hwork.2.of_live.ref⟩

/-- Merging data into a map that shares nothing with them leaves the map out of their reach, whether it
succeeds or fails. -/
theorem owns_merged (hs : h.Sound) (hx : h.Pure [x]) (hm : h.isMap (.ref m) = true)
    (hmt : h.There [.ref m]) (hapart : h.Unshared [.ref m] [x]) :
    Owns (stateAfter (merge m x) h) m x := by
  have hout : ∀ r, h.Leads [x] r → ¬ h.InHand [.ref m] r := fun _ => hapart.not_inHand hx.there
  have hwork := (merge_outcome (copyUpkeep_data hx hout) hs (workable_inHand hm hmt)
    (supplied_self hx)).stateAfter
  exact owns_of_worked hmt.ready hx hout hwork (hwork.maps m hm) (.inl (leads_self m))

/-- Storing a part of data that is no map in a map that shares nothing with the data leaves the map out
of their reach, whether it succeeds or fails. -/
theorem owns_stored {key : Value} (hs : h.Sound) (hx : h.Pure [x]) (hm : h.isMap (.ref m) = true)
    (hmt : h.There [.ref m]) (hapart : h.Unshared [.ref m] [x])
    (hv : v.isDatum = true ∧ Held (h.Leads [x]) v) (hno : h.isMap v = false) :
    Owns (stateAfter (set m key v) h) m x := by
  have hout : ∀ r, h.Leads [x] r → ¬ h.InHand [.ref m] r := fun _ => hapart.not_inHand hx.there
  have hset : Outcome (set m key v) h (fun _ h' => Worked (h.InHand [.ref m]) h h')
      (Worked (h.InHand [.ref m]) h) :=
    set_copy_outcome (copyUpkeep_data hx hout) hs (workable_inHand hm hmt) ⟨.refl _ h, hv⟩ hno
  have hwork := hset.stateAfter
  exact owns_of_worked hmt.ready hx hout hwork (hwork.maps m hm) (.inl (leads_self m))

/-- Writing out a map that holds data without cycles succeeds. -/
theorem exists_written (hs : h.Sound) (hm : h.isMap (.ref m) = true) (hp : h.Pure [.ref m])
    (hu : h.Unlooped [.ref m]) : ∃ d h₁, toDict m h = .ok d h₁ := by
  obtain ⟨-, -, hheld⟩ := supplied_self hp
  obtain ⟨t, ht⟩ := hs.exists_reads hm (hu.acyclic hheld .stored)
  obtain ⟨d, h₁, hrun, -⟩ := unwrap_grows hs ht
  exact ⟨d, h₁, hrun⟩

/-- What a map of data is written out as is out of reach of the map. -/
theorem owns_written (hs : h.Sound) (hm : h.isMap (.ref m) = true) (hp : h.Pure [.ref m])
    (hrun : toDict m h = .ok d h₁) : Owns h₁ m d := by
  obtain ⟨-, hdatum, hheld⟩ := supplied_self hp
  obtain ⟨htouches, hlive⟩ := (toDict_touches hs (ready_new h)
    ((hp.supplyStored hs).imp fun _ => held_of_isScalar)
    ⟨⟨hdatum, hheld⟩, hs.storable_of_isMap hm⟩).result hrun
  have hheldAll : ∀ v ∈ [d], Held (h₁.Live fun r => h.size ≤ r.index) v := fun v hv => by
    rwa [List.mem_singleton.mp hv]
  obtain ⟨hagree, hthere, hunshared⟩ := unshared_of_touches (ready_new h) htouches hheldAll hp.there
    fun _ => not_new_of_leads hp.there
  -- writing out has made new cells and nothing else
  obtain ⟨t, ht⟩ := exists_reads_of_toDict hs hm hp.there hrun
  obtain ⟨d', h₁', hrun', hg, -⟩ := unwrap_grows hs ht
  have hrun' : toDict m h = .ok d' h₁' := hrun'
  rw [hrun] at hrun'
  cases hrun'
  exact owns_of_aside hg.sound (hg.keeps.maps m hm) (hp.there.agree hagree) hthere
    hunshared.aside.symm

end PageMeta.AttributeMap
