import PageMeta.Proofs.AttributeMap.Layers
import PageMeta.Proofs.Builder.History
import PageMeta.Proofs.Builder.Taking

/-!
# Forms of what is merged

Data can be merged as a dictionary, as an attribute map, or as a builder that was given them.  A
dictionary is read where it stands, while a builder takes a copy of a map or of another builder; but
none of this shows in what is handed out afterwards.

## Key results

- `storeEntries_run`: what a mapping other than the buffer has is written entry by entry
- `handsOutPieces_of_stored`: what a builder hands out, piece by piece
- `sources_agree`: the form of what is merged does not matter
-/

namespace PageMeta

namespace Builder

open Heap (Extends AgreeBut Agree Copies)

variable {h h' g : Heap} {kind : BuilderKind} {c : Cells} {v w : Value} {within : Ref → Prop}
  {t : Tree String} {us : List (String × Tree String)}

/-! ### Pieces -/

/-- What a builder has under a name after data were merged into it. -/
inductive Piece
  /-- A value that it had before. -/
  | kept (v : Value)
  /-- Data that were merged. -/
  | merged (t : Tree String)

/-- What a builder with some values has after data were merged into it: each name of the data is
written as a whole, where it stood or at the end. -/
def pieces (old : Entries String Value) (new : Entries String (Tree String)) : Entries String Piece :=
  (old.mapValues .kept).putAll (new.mapValues .merged)

namespace Piece

/-- Whether a value in a later heap is a copy of what was kept, or shows what was merged. -/
def Shown (h h' : Heap) : Piece → Value → Prop
  | .kept v, w => Copies h v h' w
  | .merged t, w => h'.Reads .plain (fun _ => True) t w

/-- Whether a value is what was kept, and as it was, or shows what was merged. -/
def Stored (h g : Heap) : Piece → Value → Prop
  | .kept v, w => v = w ∧ h.Pure [v] ∧ Agree (h.Leads [v]) h g
  | .merged t, w => g.Reads .plain (fun _ => True) t w ∧ t.isPlain = true

variable {p : Piece}

theorem Stored.pure (hp : p.Stored h g v) : g.Pure [v] := by
  cases p with
  | kept x => obtain ⟨rfl, hpure, hagree⟩ := hp; exact hpure.agree hagree
  | merged t => exact (hp.1.pure hp.2).1

/-- A copy of what is stored shows it. -/
theorem Stored.shown (hp : p.Stored h g v) (hc : Copies g v h' w) : p.Shown h h' w := by
  cases p with
  | kept x => obtain ⟨rfl, -, hagree⟩ := hp; exact hc.of_agree hagree
  | merged t => exact hc.reads hp.1 hp.2

end Piece

/-- Whether a builder hands out pieces, in their order. -/
def HandsOutPieces (h : Heap) (c : Cells) (ps : Entries String Piece) (g : Heap) : Prop :=
  ∃ r h' entries, toDict (.ref c.builder) g = .ok (.ref r) h' ∧ h'.read r = some (.dict entries) ∧
    Entries.Match (fun _ p v => p.Shown h h' v) ps entries

/-- A buffer that has pieces is handed out piece by piece. -/
theorem handsOutPieces_of_stored {ps : Entries String Piece} {entries : Entries Key Value}
    (hb : Intact g kind c) (hread : g.read c.buffer = some (.dict entries))
    (hm : Entries.Match (fun _ p v => p.Stored h g v) ps entries) : HandsOutPieces h c ps g := by
  have hdata : ∀ q ∈ entries, g.Pure [q.2] := fun q hq => by
    obtain ⟨p, -, -, hstored⟩ := hm.exists_named q hq
    exact hstored.pure
  have hpure : g.Pure [.ref c.buffer] := by
    obtain ⟨hdatum, hheld⟩ := Heap.dict_data (hb.texts entries hread) hdata
    refine Heap.pure_of_closed (P := fun r => r = c.buffer ∨ g.DataAt r) (fun v hv => ?_) ?_
    · rw [List.mem_singleton.mp hv]
      exact ⟨rfl, Heap.held_ref (.inl rfl)⟩
    · rintro r (rfl | hr)
      · exact ⟨_, hread, hdatum, hheld.mono fun _ => .inr⟩
      · obtain ⟨cell, hcell, hdatum, hheld⟩ := hr.cell
        exact ⟨cell, hcell, hdatum, hheld.mono fun _ => .inr⟩
  obtain ⟨r, h', hrun, hh⟩ := toDict_handed hb.toPlaced hpure
  obtain ⟨f, heq, hinj, hmoved⟩ := hh.copies
  have hbuffer := hmoved c.buffer _ (Heap.leads_self _) hread
  rw [← Value.ref.inj heq] at hbuffer
  refine ⟨r, h', _, hrun, hbuffer, ?_⟩
  -- each value of the copy is a copy of a value in the buffer
  have hshown : Entries.Match (fun _ p v => p.Shown h h' (v.rename f)) ps entries :=
    hm.imp_mem fun p _ q hq _ hstored => hstored.shown (.part hinj hmoved
      ((hpure.there.closed.dict (Heap.leads_self _) hread q hq).2.of_live))
  exact List.forall₂_map_right_iff.mpr (List.Forall₂.imp (fun p q hpq =>
    ⟨by rw [Heap.mapValues_of_text? f hpq.1]; exact hpq.1, hpq.2⟩) hshown)

/-! ### Storing the entries of a mapping -/

variable {α : Type} {Q : String → α → Value → Prop} {named : Entries String α}
  {es entries : Entries Key Value} {source d e : Ref} {other : Value}

/-- What a mapping other than the buffer has is written entry by entry, and no other cell changes. -/
theorem storeEntries_run (hne : d ≠ c.buffer) {rest : Entries Key Value}
    (hm : Entries.Match Q named rest) (hb : Intact h kind c) (hs : h.dict? source = some (d, es))
    (hread : h.read c.buffer = some (.dict entries))
    (hrest : ∀ p ∈ rest, es.get? p.1 = some p.2) :
    ∃ ws h', Heap.forEntries (storeKey (.ref c.builder)) source es.length rest.keys h = .ok () h' ∧
      Intact h' kind c ∧ AgreeBut c.buffer h h' ∧
      h'.read c.buffer = some (.dict (entries.putAll ws)) ∧ Entries.Match Q named ws := by
  induction hm generalizing h entries with
  | nil => exact ⟨[], h, rfl, hb, Heap.Agree.refl _ _, hread, .nil⟩
  | @cons a p named rest hpq _ ih =>
    obtain ⟨hfirst, hrest⟩ := List.forall_mem_cons.mp hrest
    obtain ⟨k, h₁, entries', hk, hread', hvisit, hread₁, hf, hs₁⟩ := storeKey_run hb p.1 p.2 hs
    rw [hread] at hread'
    cases hread'
    rw [if_neg hne] at hs₁
    rw [Heap.keyText_of_text? hpq.1] at hk
    obtain ⟨ws, h', hrun, hb', ha, hread₂, hm⟩ := ih hf.intact hs₁ hread₁ hrest
    refine ⟨(k, p.2) :: ws, h', ?_, hb', hf.agree.trans ha, hread₂, .cons ⟨hk, hpq.2⟩ hm⟩
    have hvalue : ((h.entriesAt source).get? p.1).getD .none = p.2 := by
      rw [entriesAt_of_dict? hs, hfirst, Option.getD_some]
    have hsize : (h₁.entriesAt source).length = es.length := by rw [entriesAt_of_dict? hs₁]
    rw [Entries.keys, List.map_cons, Heap.forEntries, run_bind_ok run_get, hvalue,
      run_bind_ok hvisit, run_bind_ok run_get, if_pos hsize]
    exact hrun

/-- A builder takes what a mapping other than its buffer has, entry by entry. -/
theorem merge_run (hb : Intact g kind c) (hsource : mergeSource other h = .ok (.ref e) g)
    (he : g.read e = some (.dict es)) (hne : e ≠ c.buffer) (ha : es.Apart)
    (hm : Entries.Match Q named es) (hread : g.read c.buffer = some (.dict entries)) :
    ∃ ws g', merge (.ref c.builder) other h = .ok (.ref c.builder) g' ∧ Intact g' kind c ∧
      AgreeBut c.buffer g g' ∧ g'.read c.buffer = some (.dict (entries.putAll ws)) ∧
      Entries.Match Q named ws := by
  have hdict := Heap.dict?_of_dict he
  obtain ⟨ws, g', hrun, hb', hagree, hread', hm'⟩ :=
    storeEntries_run hne hm hb hdict hread fun p hp => ha.get?_of_mem hp
  have hlength : es.keys.length = es.length := List.length_map _
  have hitems : Heap.ask (·.items e) g = .ok es g := by
    simp only [Heap.ask, Heap.items, hdict]
  have heach : Heap.forEach (storeKey (.ref c.builder)) e g = .ok () g' := by
    rw [Heap.forEach, run_bind_ok hitems, hlength]
    exact hrun
  have hmapping : g.mapping? (.ref e) = some e := by rw [Heap.mapping?, hdict]; rfl
  refine ⟨ws, g', ?_, hb', hagree, hread', hm'⟩
  rw [merge, run_bind_ok hsource, run_bind_ok run_get, hmapping]
  exact run_bind_ok heach

/-- What a builder of data without cycles holds does not lead back to its buffer. -/
theorem HoldsData.not_leads_buffer (hb : HoldsData h kind c)
    (hread : h.read c.buffer = some (.dict entries)) {p : Key × Value} (hp : p ∈ entries) :
    ¬ h.Leads [p.2] c.buffer := fun hl => by
  refine hb.unlooped _ (Heap.leads_self _) ?_
  refine Heap.leads_within (fun v hv r hr => ?_) (fun _ _ hr hc _ hs => ?_) hl
  · rw [List.mem_singleton.mp hv] at hr
    exact Heap.below_of_addresses hread
      (List.mem_flatMap.mpr ⟨p, hp, List.mem_append_right _ hr⟩)
  · exact Heap.Below.trans hr (Heap.below_of_addresses hc hs)

/-- What a builder has filed matches its buffer. -/
theorem filed_match (hb : Intact h kind c) (hread : h.read c.buffer = some (.dict entries)) :
    Entries.Match (fun _ => Eq) (filed h c) entries := by
  rw [filed, Heap.entriesAt_dict hread, Heap.named]
  refine List.forall₂_map_left_iff.mpr (List.forall₂_same.mpr fun p hp => ?_)
  obtain ⟨name, hk⟩ := hb.texts entries hread p hp
  exact ⟨by rw [Heap.keyText_of_text? hk]; exact hk, rfl⟩

/-- Whatever it is read off, a builder takes a dictionary of plain data piece by piece. -/
theorem merge_pieces (hb : HoldsData h kind c) (hlater : Extends h g) {h₁ : Heap}
    (hsource : mergeSource other h₁ = .ok (.ref e) g)
    (he : g.Reads .plain within (.map us) (.ref e)) (hp : (Tree.map us).isPlain = true)
    (hn : ¬ within c.buffer) :
    ∃ g', merge (.ref c.builder) other h₁ = .ok (.ref c.builder) g' ∧
      HandsOutPieces h c (pieces (filed h c) us) g' := by
  obtain ⟨es, hes, hown, hapart, hentries⟩ := he
  obtain ⟨e, heq, ⟨hread, -⟩ | ⟨d, -, -, hview⟩⟩ := Heap.cell_of_entries? hes
  swap
  · exact absurd rfl hview
  cases heq
  obtain ⟨entries, hbuffer⟩ := hb.buffer
  have hb' := hb.toIntact.of_extends hlater
  have hbuffer' := hlater.read_of_some hbuffer
  have hne : e ≠ c.buffer := fun heq => hn (heq ▸ hown e (Heap.own_ref_mem e))
  obtain ⟨ws, g', hrun, hb'', hagree, hread', hm⟩ :=
    merge_run hb' hsource hread hne hapart (hentries.matched (by decide)) hbuffer'
  refine ⟨g', hrun, handsOutPieces_of_stored hb'' hread' (Entries.Match.putAll ?_ ?_)⟩
  · -- what was merged is apart from the buffer
    refine (Entries.match_mapValues _).mpr (hm.imp_mem fun p hmem q _ _ hq => ⟨?_, ?_⟩)
    · refine (hq.allocated.agree (hagree.mono fun r hr => ?_)).mono fun _ _ => trivial
      exact ⟨fun heq => hn (heq ▸ hr.1), hr.2⟩
    · exact Tree.allLeavesEntries_iff.mp hp p hmem
  · -- what was kept does not lead to the buffer
    refine (Entries.match_mapValues _).mpr
      ((filed_match hb.toIntact hbuffer).imp_mem fun p _ q hq _ heq => ⟨heq, ?_⟩)
    have hpure : h.Pure [p.2] := by
      rw [heq]
      exact hb.data.of_held (hb.data.dict (Heap.leads_self _) hbuffer q hq)
        (hb.data.there.closed.dict (Heap.leads_self _) hbuffer q hq).2.of_live
    refine ⟨hpure, (hpure.there.agree_of_extends hlater).trans (hagree.mono fun r hr => ⟨?_, ?_⟩)⟩
    · rintro rfl
      exact hb.not_leads_buffer hbuffer hq (heq ▸ hr)
    · exact Nat.lt_of_lt_of_le (hpure.there r hr) hlater.size_le

/-! ### The forms -/

/-- A dictionary is merged as it stands. -/
theorem mergeSource_dict (hread : h.read d = some (.dict es)) :
    mergeSource (.ref d) h = .ok (.ref d) h := by
  have hcell : h.cell? (.ref d) = some (.dict es) := hread
  rw [mergeSource, run_bind_ok run_get, hcell]
  rfl

/-- A map is merged as it is written out. -/
theorem mergeSource_map {m : Ref} {data : Value} (hread : h.read m = some (.map data)) :
    mergeSource (.ref m) h = AttributeMap.toDict m h := by
  have hcell : h.cell? (.ref m) = some (.map data) := hread
  rw [mergeSource, run_bind_ok run_get, hcell]

/-- A builder is merged as it is handed out. -/
theorem mergeSource_builder (hb : Intact h kind c) :
    mergeSource (.ref c.builder) h = toDict (.ref c.builder) h := by
  have hcell : h.cell? (.ref c.builder) = some (.builder kind c.attributes) := hb.builder
  rw [mergeSource, run_bind_ok run_get, hcell]

section Forms

variable (hb : HoldsData h kind c) (hd : h.Reads .plain within (.map us) (.ref d))
  (hp : (Tree.map us).isPlain = true)
include hb hd hp

theorem merge_dict_pieces (hn : ¬ within c.buffer) :
    ∃ g, merge (.ref c.builder) (.ref d) h = .ok (.ref c.builder) g ∧
      HandsOutPieces h c (pieces (filed h c) us) g := by
  obtain ⟨es, hes, -⟩ := id hd
  obtain ⟨_, heq, ⟨hread, -⟩ | ⟨_, -, -, hview⟩⟩ := Heap.cell_of_entries? hes
  · cases heq
    exact merge_pieces hb (Agree.refl _ _) (mergeSource_dict hread) hd hp hn
  · exact absurd rfl hview

theorem merge_map_pieces (hs : h.Sound) :
    ∃ n g g', AttributeMap.create (.ref d) h = .ok (.ref n) g ∧
      merge (.ref c.builder) (.ref n) g = .ok (.ref c.builder) g' ∧
      HandsOutPieces h c (pieces (filed h c) us) g' := by
  obtain ⟨n, g, hcreate, hgrows, hread, -⟩ := AttributeMap.create_tree hs hd.given rfl
  rw [Tree.norm_of_distinct (hd.distinct (by decide))] at hread
  obtain ⟨es, hes, -⟩ := id hread
  obtain ⟨_, heq, ⟨-, hview⟩ | ⟨data, hmap, -⟩⟩ := Heap.cell_of_entries? hes
  · exact absurd rfl hview
  cases heq
  -- the map is written out in cells that are no buffer
  obtain ⟨e, g₁, hrun, he, hout⟩ := Heap.unwrap_reads hread
  obtain ⟨es', hes', -⟩ := id hout
  obtain ⟨e, rfl, -⟩ := Heap.ref_of_entries? hes'
  obtain ⟨entries, hbuffer⟩ := hb.buffer
  obtain ⟨g', hmerge, hpieces⟩ := merge_pieces hb (hgrows.cells.trans he)
    ((mergeSource_map hmap).trans hrun) hout hp
    (Heap.not_vacant_of_read (hgrows.cells.read_of_some hbuffer) rfl)
  exact ⟨n, g, g', hcreate, hmerge, hpieces⟩

theorem merge_builder_pieces : ∃ x g g' g'', create .plain h = .ok x g ∧
    merge x (.ref d) g = .ok x g' ∧ merge (.ref c.builder) x g' = .ok (.ref c.builder) g'' ∧
    HandsOutPieces h c (pieces (filed h c) us) g'' := by
  obtain ⟨x, g, hcreate, he, hx, -, -, hnew⟩ := create_intact .plain h
  -- the new builder takes the dictionary, and nothing else
  have hempty := (bare_of_create hcreate hx.toPlaced).buffer
  have hlt := Heap.lt_size_of_read hb.buffer.choose_spec
  obtain ⟨es, hes, hown, hapart, hentries⟩ := hd.allocated.extends he
  obtain ⟨_, heq, ⟨hread, -⟩ | ⟨_, -, -, hview⟩⟩ := Heap.cell_of_entries? hes
  swap
  · exact absurd rfl hview
  cases heq
  have hne : ∀ r, within r ∧ r.index < h.size → r ≠ x.buffer := fun r hr heq =>
    absurd (heq ▸ hr.2) (Nat.not_lt.mpr hnew)
  obtain ⟨ws, g', hmerge, hx', hagree, hbuffer, hm⟩ := merge_run hx (mergeSource_dict hread) hread
    (hne d (hown d (Heap.own_ref_mem d))) hapart (hentries.matched (by decide)) hempty
  have hws : Entries.Apart ws := hm.apart_iff.mpr (hd.distinct (by decide)).1
  have hshown : g'.Reads .plain (fun _ => True) (.map us) (.ref x.buffer) := by
    rw [← Entries.ofList, hws.ofList_eq_self] at hbuffer
    have hmatch : Entries.Match (fun _ t v => g'.Reads .plain (fun _ => True) t v) us ws :=
      hm.imp fun _ t v hr => (hr.allocated.agree
        (hagree.mono fun r hr => ⟨hne r hr.1, hr.2⟩)).mono fun _ _ => trivial
    exact ⟨ws, by simp [Heap.entries?, Heap.cell?, hbuffer], fun _ _ => trivial, hws,
      Heap.readsEntries_iff.mpr hmatch⟩
  -- so it hands out the dictionary in new cells
  obtain ⟨copied, -, hrun, hout⟩ := Heap.detach_data hshown hp
  have hdict : toDict (.ref x.builder) g' = _ :=
    (run_bind_ok (getAttribute_buffer hx'.toPlaced)).trans hrun
  have hlater := Heap.extends_of_agreeBut he hagree hnew
  obtain ⟨g'', hmerge', hpieces⟩ := merge_pieces hb
    (hlater.trans (Heap.withCopies_extends g' copied)) ((mergeSource_builder hx').trans hdict) hout hp
    (Nat.not_le.mpr (Nat.lt_of_lt_of_le hlt hlater.size_le))
  exact ⟨_, g, g', g'', hcreate, hmerge, hmerge', hpieces⟩

end Forms

/-- The form of plain data that are merged does not matter.  Merged into an attribute map that is a tree
and shares nothing with them, they give the same plain data in the same order as a dictionary, as a
map that is made of it, and as anything that shows them with maps in place of dictionaries.  Merged
into a builder, whose own buffer is not among them, they give the same as a dictionary, as a map that is
made of it, and as a builder that was given it: what the builder had, overridden name by name. -/
theorem sources_agree {m : Ref} (hs : h.Sound) (hd : h.Reads .plain within (.map us) (.ref d))
    (hp : (Tree.map us).isPlain = true) (hmap : h.isMap (.ref m) = true)
    (htree : Heap.IsTree h (.ref m)) (hapart : ∀ r, within r → ¬ AttributeMap.Part h m r)
    (hb : HoldsData h kind c) (hbuffer : ¬ within c.buffer) :
    (∃ t, AttributeMap.GivesDict h m t ∧
      (∃ g, AttributeMap.merge m (.ref d) h = .ok (.ref m) g ∧
        AttributeMap.GivesDict g m (t.deepMerge (.map us))) ∧
      (∃ n g g', AttributeMap.create (.ref d) h = .ok (.ref n) g ∧
        AttributeMap.merge m (.ref n) g = .ok (.ref m) g' ∧
        AttributeMap.GivesDict g' m (t.deepMerge (.map us))) ∧
      ∀ v within', h.Reads .given within' (.map us) v →
        (∀ r, within' r → ¬ AttributeMap.Part h m r) →
        ∃ g, AttributeMap.merge m v h = .ok (.ref m) g ∧
          AttributeMap.GivesDict g m (t.deepMerge (.map us))) ∧
    (∃ g, merge (.ref c.builder) (.ref d) h = .ok (.ref c.builder) g ∧
      HandsOutPieces h c (pieces (filed h c) us) g) ∧
    (∃ n g g', AttributeMap.create (.ref d) h = .ok (.ref n) g ∧
      merge (.ref c.builder) (.ref n) g = .ok (.ref c.builder) g' ∧
      HandsOutPieces h c (pieces (filed h c) us) g') ∧
    ∃ x g g' g'', create .plain h = .ok x g ∧ merge x (.ref d) g = .ok x g' ∧
      merge (.ref c.builder) x g' = .ok (.ref c.builder) g'' ∧
      HandsOutPieces h c (pieces (filed h c) us) g'' := by
  refine ⟨?_, merge_dict_pieces hb hd hp hbuffer, merge_map_pieces hb hd hp hs,
    merge_builder_pieces hb hd hp⟩
  obtain ⟨t, hm⟩ := hs.exists_reads hmap htree.acyclic
  have hmaps : (t.isMap && (Tree.map us).isMap) = true := by
    rw [hm.isMap_iff.mpr (hm.isMap_stored.mp hmap)]
    rfl
  have hdistinct : (Tree.map us).Distinct := hd.distinct (by decide)
  have hform : ∀ v within', h.Reads .given within' (.map us) v →
      (∀ r, within' r → ¬ AttributeMap.Part h m r) →
      ∃ g, AttributeMap.merge m v h = .ok (.ref m) g ∧
        AttributeMap.GivesDict g m (t.deepMerge (.map us)) := fun v within' hr hnot => by
    obtain ⟨g, hrun, ho⟩ := AttributeMap.merge_given hs hm htree hr hdistinct hnot hmaps
    exact ⟨g, hrun, AttributeMap.givesDict_of_reads ho.reads⟩
  refine ⟨t, AttributeMap.givesDict_of_reads hm, hform _ within hd.given hapart, ?_, hform⟩
  -- the map that is made of the dictionary consists of new cells
  obtain ⟨n, g, hcreate, hgrows, hread, -⟩ := AttributeMap.create_tree hs hd.given rfl
  rw [Tree.norm_of_distinct hdistinct] at hread
  have he := hgrows.cells
  obtain ⟨g', hrun, ho⟩ := AttributeMap.merge_tree hgrows.sound
    ((hm.allocated.extends he).mono fun _ _ => trivial) (htree.extends hm he)
    (hread.mono fun _ _ => trivial) (AttributeMap.apart_of_vacant hm he hread) hmaps
  exact ⟨n, g, g', hcreate, hrun, AttributeMap.givesDict_of_reads ho.reads⟩

/-! ### A sample -/

/-- A height beside a list. -/
def heightAndLocales : Entries String (Tree String) :=
  [("image", .map [("height", .leaf (.ofInt 2))]), ("locales", .list [.leaf (.ofText "fr")])]

/-- Two builders, a map with a width, a map with a height, a dictionary with a height and a list, and a
dictionary with the map and the list. -/
def forms : Heap where
  cells := sharingWorld.heap.cells ++ #[.dict [(Key.ofText "width", .ofInt 1)], .map (.ref ⟨11⟩),
    .dict [(Key.ofText "image", .ref ⟨12⟩)], .map (.ref ⟨13⟩),
    .dict [(Key.ofText "height", .ofInt 2)], .map (.ref ⟨15⟩),
    .dict [(Key.ofText "height", .ofInt 2)], .list [.ofText "fr"],
    .dict [(Key.ofText "image", .ref ⟨17⟩), (Key.ofText "locales", .ref ⟨18⟩)],
    .dict [(Key.ofText "image", .ref ⟨16⟩), (Key.ofText "locales", .ref ⟨18⟩)]]
  made := 0

/-- The heap while the sample is built. -/
def formsUpTo (size : Nat) : Heap := { forms with cells := forms.cells.extract 0 size }

theorem apart_mixed :
    Entries.Apart [(Key.ofText "image", Value.ref ⟨16⟩), (Key.ofText "locales", Value.ref ⟨18⟩)] := by
  simp [Entries.Apart, Key.beq_ofText]

/-- The dictionary with a map in it shows what the map and the list show. -/
theorem reads_mixed (hnew : ∀ r : Ref, 15 ≤ r.index → within r)
    (himage : forms.Reads .given within (.map [("height", .leaf (.ofInt 2))]) (.ref ⟨16⟩)) :
    forms.Reads .given within (.map heightAndLocales) (.ref ⟨20⟩) := by
  have hlist : forms.Reads .given within (.list [.leaf (.ofText "fr")]) (.ref ⟨18⟩) :=
    ⟨_, rfl, fun r hr => hnew r (by revert r; decide), _, _, rfl,
      ⟨rfl, Heap.isLeaf_of_isPlain rfl, fun r hr => by cases hr⟩, rfl⟩
  exact ⟨_, rfl, fun r hr => hnew r (by revert r; decide), apart_mixed, Heap.readsEntries_iff.mpr
    (.cons ⟨fun _ _ => rfl, himage⟩ (.cons ⟨fun _ _ => rfl, hlist⟩ .nil))⟩

theorem sources_agree_forms :
    (∃ t, AttributeMap.GivesDict forms ⟨14⟩ t ∧
      (∃ g, AttributeMap.merge ⟨14⟩ (.ref ⟨19⟩) forms = .ok (.ref ⟨14⟩) g ∧
        AttributeMap.GivesDict g ⟨14⟩ (t.deepMerge (.map heightAndLocales))) ∧
      (∃ n g g', AttributeMap.create (.ref ⟨19⟩) forms = .ok (.ref n) g ∧
        AttributeMap.merge ⟨14⟩ (.ref n) g = .ok (.ref ⟨14⟩) g' ∧
        AttributeMap.GivesDict g' ⟨14⟩ (t.deepMerge (.map heightAndLocales))) ∧
      ∃ g, AttributeMap.merge ⟨14⟩ (.ref ⟨20⟩) forms = .ok (.ref ⟨14⟩) g ∧
        AttributeMap.GivesDict g ⟨14⟩ (t.deepMerge (.map heightAndLocales))) ∧
    (∃ g, merge (.ref ⟨10⟩) (.ref ⟨19⟩) forms = .ok (.ref ⟨10⟩) g ∧
      HandsOutPieces forms ⟨⟨10⟩, ⟨8⟩, ⟨7⟩⟩
        (pieces (filed forms ⟨⟨10⟩, ⟨8⟩, ⟨7⟩⟩) heightAndLocales) g) ∧
    (∃ n g g', AttributeMap.create (.ref ⟨19⟩) forms = .ok (.ref n) g ∧
      merge (.ref ⟨10⟩) (.ref n) g = .ok (.ref ⟨10⟩) g' ∧
      HandsOutPieces forms ⟨⟨10⟩, ⟨8⟩, ⟨7⟩⟩
        (pieces (filed forms ⟨⟨10⟩, ⟨8⟩, ⟨7⟩⟩) heightAndLocales) g') ∧
    ∃ x g g' g'', create .plain forms = .ok x g ∧ merge x (.ref ⟨19⟩) g = .ok x g' ∧
      merge (.ref ⟨10⟩) x g' = .ok (.ref ⟨10⟩) g'' ∧
      HandsOutPieces forms ⟨⟨10⟩, ⟨8⟩, ⟨7⟩⟩
        (pieces (filed forms ⟨⟨10⟩, ⟨8⟩, ⟨7⟩⟩) heightAndLocales) g'' := by
  -- all but the last dictionary are built one after the other
  obtain ⟨m, h₁, hm, hs₁, he₁, hrm, htm⟩ := AttributeMap.exists_built
    (t := AttributeMap.lowerLayer) sound_sharingWorld rfl (by decide)
  obtain ⟨n, h₂, hn, hs₂, he₂, hrn, -⟩ := AttributeMap.exists_built
    (t := .map [("height", .leaf (.ofInt 2))]) hs₁ rfl (by decide)
  have hplain : (Tree.map heightAndLocales).isPlain = true := rfl
  have hnamed := Tree.named_mapKeys (fun _ => Heap.isLeaf_of_isPlain (h := h₂)) hplain
  obtain ⟨d, h₃, hd, he₃, hrd⟩ := Heap.build_reads .plain hnamed (by decide)
  have hs₃ := (Heap.build_grows .plain hs₂ hnamed (by decide) hd).sound
  have hrun₁ : Heap.build .wrapped (AttributeMap.lowerLayer.mapKeys Key.ofText)
      sharingWorld.heap = .ok (.ref ⟨14⟩) (formsUpTo 15) := rfl
  cases hm.symm.trans hrun₁
  have hrun₂ : Heap.build .wrapped ((Tree.map [("height", .leaf (.ofInt 2))]).mapKeys Key.ofText)
      (formsUpTo 15) = .ok (.ref ⟨16⟩) (formsUpTo 17) := rfl
  cases hn.symm.trans hrun₂
  have hrun₃ : Heap.build .plain ((Tree.map heightAndLocales).mapKeys Key.ofText)
      (formsUpTo 17) = .ok (.ref ⟨19⟩) (formsUpTo 20) := rfl
  cases hd.symm.trans hrun₃
  -- the last dictionary holds nothing but what is there
  have hs : forms.Sound := hs₃.push_plain (c := .dict _)
    ⟨apart_mixed, by simp [Heap.Fine, Value.isMade]; decide⟩ (fun _ heq => by cases heq)
  have he₄ : Extends (formsUpTo 20) forms := Heap.extends_push _ _
  have he₃₄ := he₃.trans he₄
  have he₂₄ := he₂.trans he₃₄
  have hnew : ∀ r, AttributeMap.Part forms ⟨14⟩ r → ¬ (formsUpTo 15).Vacant r :=
    fun r hp => AttributeMap.not_vacant_of_part hrm he₂₄ hp
  have hmixed : forms.Reads .given (formsUpTo 15).Vacant (.map heightAndLocales) (.ref ⟨20⟩) :=
    reads_mixed (fun _ hr => Heap.vacant_of_size_le hr) (hrn.extends he₃₄).given
  have hb : HoldsData forms .plain ⟨⟨10⟩, ⟨8⟩, ⟨7⟩⟩ :=
    (holdsData_sharingWorld rfl rfl rfl (by decide)).extends (he₁.trans he₂₄)
  obtain ⟨⟨t, hgives, hdict, hwrapped, hforms⟩, hbuilder⟩ := sources_agree hs (hrd.extends he₄)
    hplain rfl (htm.extends hrm he₂₄) (fun r hr hp => hnew r hp (hr.of_extends he₂)) hb
    (Heap.not_vacant_of_read (c := .dict _) rfl rfl)
  exact ⟨⟨t, hgives, hdict, hwrapped, hforms _ _ hmixed fun r hr hp => hnew r hp hr⟩, hbuilder⟩

end Builder

end PageMeta
