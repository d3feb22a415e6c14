import PageMeta.Plain.Sequence
import PageMeta.Proofs.AttributeMap.Data
import PageMeta.Proofs.Settings.Again
import PageMeta.Proofs.Settings.Owning

/-!
# Nothing is shared by copying

Maps and stores keep copies of the data that they are given, at every depth.  So whoever has the data
does not reach the maps, whoever has a map does not reach the data, and stores that have loaded the same
data, in any order and any number of times, do not reach one another.

What is assigned to a scalar of a store is kept itself.  So stores do share what one of them gives and
the other is given.

## Key results

- `Strangers.loadedBoth`, `Strangers.undisturbed`: stores that share nothing do not influence one
  another
- `own_data`: data, maps and stores are out of reach of one another
- `own_shared`: a list that was handed over from one store to the other is shared
-/

namespace PageMeta.Settings

open Heap
open AttributeMap (GivesDict Owns Filled)

variable {h h' : Heap} {c c' : Cells} {scalar : String → Value} {v x : Value} {κ : Type}
  {call : Caller κ} {w w' : World κ} {part : SectionName → Tree String} {within : Ref → Prop}

/-! ### Two stores -/

/-- Whether two stores have loaded data, in any order and any number of times, whether it succeeded or
failed. -/
inductive LoadedBoth (call : Caller κ) (c c' : Cells) (x : Value) (w : World κ) : World κ → Prop
  | start : LoadedBoth call c c' x w w
  | left {w' : World κ} : LoadedBoth call c c' x w w' →
      LoadedBoth call c c' x w (stateAfter (load call (.ref c.store) x) w')
  | right {w' : World κ} : LoadedBoth call c c' x w w' →
      LoadedBoth call c c' x w (stateAfter (load call (.ref c'.store) x) w')

/-- Stores and data that share nothing share nothing after the stores have loaded the data. -/
theorem Strangers.loadedBoth (hs : Strangers w.heap c c' x) (hl : LoadedBoth call c c' x w w') :
    Strangers w'.heap c c' x := by
  induction hl with
  | start => exact hs
  | left _ ih => exact ih.loaded call
  | right _ ih => exact (ih.symm.loaded call).symm

/-- Whether a store is out of reach of another store and of data.  Whatever is done by someone who has
the other store and the data, the store stays as it is, at any depth, and is written down as before. -/
structure Undisturbed (call : Caller κ) (w : World κ) (c c' : Cells) (x : Value) : Prop where
  cells : ∀ h', Touches (w.heap.InHand [.ref c.store, x]) w.heap h' →
    Agree (w.heap.Leads [.ref c'.store]) w.heap h'
  dict : ∀ h', Touches (w.heap.InHand [.ref c.store, x]) w.heap h' → h'.Sound →
    ∀ scalar part, Displays w.heap c' scalar part →
      ∃ t h₁, toDict call (.ref c'.store) { w with heap := h' } = .ok (.ref t) { w with heap := h₁ } ∧
        WrittenDown h'.Vacant scalar part t h₁

/-- What a map in a store shows, it shows with nothing opened but what the store leads to. -/
theorem Displays.reads_within (hx : Displays h c scalar part) (ht : h.There [.ref c.store])
    (name : SectionName) :
    h.Reads .stored (h.Leads [.ref c.store]) (part name) (.ref (c.map name)) := by
  have hmap := hx.layout.leads.2.2 name
  exact (AttributeMap.reads_of_givesDict hx.sound (hx.layout.map name)
    (fun r hr => ht r (hmap.trans hr)) (AttributeMap.givesDict_of_reads (hx.reads name))).mono
    fun _ => hmap.trans

/-- Stores that share nothing are out of reach of one another. -/
theorem Strangers.undisturbed (hs : Strangers w.heap c c' x) : Undisturbed call w c c' x := by
  have hthere := hs.there.cons hs.data.there
  have hapart : w.heap.Unshared [.ref c.store, x] [.ref c'.store] :=
    hs.apart.cons hs.apartData'.symm
  have hout := fun r => hapart.not_inHand hs.there' (r := r)
  refine ⟨fun h' ht => hapart.aside.agree hs.there' ht, fun h' ht hsound scalar part hx => ?_⟩
  have ha := hapart.aside.agree hs.there' ht
  have hx' : Displays h' c' scalar part :=
    ⟨hsound, hx.layout.touches hs.there' hthere.ready ht hout, fun name =>
      ((hx.reads_within hs.there' name).agree ha).mono fun _ _ => trivial⟩
  obtain ⟨t, h₁, hrun, -, hwritten⟩ := toDict_displays (w := { w with heap := h' }) call hx'
  exact ⟨t, h₁, hrun, hwritten⟩

/-- Two new stores share nothing, neither with each other nor with what was there. -/
theorem create_strangers (hs : h.Sound) (hx : h.Pure [x]) (hsettings : PlainSettings h x) :
    ∃ c h₁ c' h₂, Store.create h = .ok (.ref c.store) h₁ ∧
      Store.create h₁ = .ok (.ref c'.store) h₂ ∧ Grows .wrapped h h₂ ∧ Strangers h₂ c c' x := by
  obtain ⟨c, h₁, hrun₁, hp₁, hg₁, hthere₁, hapart₁⟩ := create_unshared hs hx.there
  have hx₁ := hx.extends hg₁.cells
  obtain ⟨c', h₂, hrun₂, hp₂, hg₂, hthere₂, hapart₂⟩ :=
    create_unshared hp₁.1 (hthere₁.cons hx₁.there)
  have ha := hthere₁.agree_of_extends hg₂.cells
  have hax := hx₁.there.agree_of_extends hg₂.cells
  refine ⟨c, h₁, c', h₂, hrun₁, hrun₂, hg₁.trans hg₂, hp₁.keepsFree hg₂.keepsFree, hp₂,
    hthere₁.agree ha, hthere₂, hx₁.agree hax,
    hsettings.agree hx (hx.there.agree_of_extends (hg₁.cells.trans hg₂.cells)), fun r hr hr' => ?_,
    hapart₁.agree ha hax, fun r hr hr' => ?_⟩
  · exact hapart₂ r hr' (hr.mono fun v hv => by
      rw [List.mem_singleton.mp hv]
      exact List.mem_cons_self)
  · exact hapart₂ r hr (hr'.mono fun v => List.mem_cons_of_mem _)

/-! ### Data, maps and stores -/

/-- Data without cycles are out of reach of what has copied them, and what has copied them is out of
reach of the data: a map that is made of them, a map that they are merged into, a map that a part of
them is stored in, and stores that load them.  What a map of data is written out as is out of reach of
the map, whatever operations have filled the map. -/
theorem own_data (call : Caller κ) (hs : w.heap.Sound) (hx : w.heap.Pure [x])
    (hu : w.heap.Unlooped [x]) :
    (w.heap.isMapping x = true → ∃ m h t, AttributeMap.create x w.heap = .ok (.ref m) h ∧
      h.isMap (.ref m) = true ∧ h.Pure [.ref m] ∧ GivesDict h m t ∧ Owns h m x) ∧
    (∀ m, w.heap.isMap (.ref m) = true → w.heap.There [.ref m] → w.heap.Unshared [.ref m] [x] →
      Owns (stateAfter (AttributeMap.merge m x) w.heap) m x ∧
      ∀ key v, v.isDatum = true → Held (w.heap.Leads [x]) v → w.heap.isMap v = false →
        Owns (stateAfter (AttributeMap.set m key v) w.heap) m x) ∧
    (∀ h, Filled w.heap h → (∀ vs, w.heap.Pure vs → h.Pure vs) ∧
      ∀ m, h.isMap (.ref m) = true → h.Pure [.ref m] → ∀ d h', AttributeMap.toDict m h = .ok d h' →
        Owns h' m d) ∧
    ∀ c c', Strangers w.heap c c' x → ∀ w', LoadedBoth call c c' x w w' →
      Undisturbed call w' c c' x ∧ Undisturbed call w' c' c x := by
  refine ⟨fun hmapping => ?_, fun m hm hmt hapart => ⟨AttributeMap.owns_merged hs hx hm hmt hapart,
    fun key v hv hheld => AttributeMap.owns_stored hs hx hm hmt hapart ⟨hv, hheld⟩⟩,
    fun h hf => ?_, fun c c' hstrangers w' hl => ?_⟩
  · obtain ⟨m, h, t, hrun, hm, hg, howns⟩ := AttributeMap.owns_created hs hx hu hmapping
    exact ⟨m, h, t, hrun, hm, ((AttributeMap.create_data hs hx).result hrun).2, hg, howns⟩
  · have hkept := hf.kept hs
    exact ⟨fun vs hvs => hvs.later hkept.data, fun m hm hp d h' hrun =>
      AttributeMap.owns_written hkept.sound hm hp hrun⟩
  · have hlater := hstrangers.loadedBoth hl
    exact ⟨hlater.undisturbed, hlater.symm.undisturbed⟩

/-- Whether a tree is a leaf. -/
def isLeaf : Tree String → Bool
  | .leaf _ => true
  | _ => false

/-- Whether a tree is a leaf, or a list of leaves. -/
def isSetting : Tree String → Bool
  | .leaf _ => true
  | .list ts => ts.all isLeaf
  | .map _ => false

/-- A leaf of plain data is a scalar. -/
theorem isScalar_of_isLeaf {t : Tree String} (hr : h.Reads .plain within t v) (hp : t.isPlain = true)
    (ht : isLeaf t = true) : v.isScalar = true := by
  cases t with
  | leaf u =>
    obtain ⟨rfl, hl, -⟩ := hr
    exact isScalar_of_isPlain hp hl.1
  | _ => cases ht

/-- A leaf, or a list of leaves, shows in plain data as a scalar, or as a list of scalars. -/
theorem isSetting_of_reads {t : Tree String} (hr : h.Reads .plain within t v) (hp : t.isPlain = true)
    (ht : isSetting t = true) : IsSetting h v := by
  cases t with
  | leaf u => exact .inl (isScalar_of_isLeaf hr hp rfl)
  | list ts =>
    obtain ⟨items, hi, -, hts⟩ := hr
    obtain ⟨r, rfl, -⟩ := ref_of_items? hi
    refine .inr ⟨items, read_of_items? (by decide) hi, fun w hw => ?_⟩
    obtain ⟨u, hu, hread⟩ := hts.exists_mem w hw
    exact isScalar_of_isLeaf hread (Tree.allLeavesList_iff.mp hp u hu) (List.all_eq_true.mp ht u hu)
  | map ts => cases ht

/-- Plain data have plain settings if there are only leaves and lists of leaves for the scalars. -/
theorem plainSettings_of_isData {ts : Entries String (Tree String)} (hd : IsData h (.map ts) x)
    (hts : ∀ name ∈ scalarNames, ∀ t, ts.get? name = some t → isSetting t = true) :
    PlainSettings h x := by
  intro es hcell name hn v hget
  obtain ⟨r, rfl⟩ := ref_of_cell? hcell
  obtain ⟨_, heq, hm⟩ := hd.match_of_dict hcell
  cases heq
  have hkey : (Key.ofText name).text? = some name := rfl
  obtain ⟨-, hnone⟩ | ⟨t, v', ht, hv', hdata⟩ := hm.get? hkey
  · rw [hget] at hnone
    cases hnone
  · rw [hget] at hv'
    cases hv'
    exact isSetting_of_reads hdata.reads hdata.plain (hts name hn t ht)

/-- Settings of a shop. -/
def shopData : Entries String (Tree String) :=
  [("site_name", text "Shop"), ("available_locales", .list [text "en", text "de"]),
    ("images", .map [("sizes", .list [.map [("alt", text "small")]])])]

theorem own_data_shop : ∃ x h₁ h₂ h₃, ∃ c c' : Cells,
    buildText .plain (.map shopData) .empty = .ok x h₁ ∧
    Store.create h₁ = .ok (.ref c.store) h₂ ∧ Store.create h₂ = .ok (.ref c'.store) h₃ ∧
    (∃ m h₄ t d h₅, AttributeMap.create x h₃ = .ok (.ref m) h₄ ∧ Owns h₄ m x ∧
      GivesDict h₄ m t ∧ AttributeMap.toDict m h₄ = .ok d h₅ ∧ Owns h₅ m d) ∧
    Owns (stateAfter (AttributeMap.merge (c.map .images) x) h₃) (c.map .images) x ∧
    Owns (stateAfter (AttributeMap.set (c.map .images) (.ofText "all") x) h₃) (c.map .images) x ∧
    ∃ w' : World Unit,
      w' = stateAfter (load (fun v _ => pure v) (.ref c'.store) x)
        (stateAfter (load (fun v _ => pure v) (.ref c.store) x) (newWorld h₃)) ∧
      Undisturbed (fun v _ => pure v) w' c c' x ∧ Undisturbed (fun v _ => pure v) w' c' c x := by
  obtain ⟨r, h₁, hbuild, hs₁, hd₁⟩ := @build_settings shopData rfl (by decide)
  have hsettings : PlainSettings h₁ (.ref r) := plainSettings_of_isData hd₁ (by
    simp only [scalarNames, List.forall_mem_cons, List.not_mem_nil, false_implies, implies_true]
    decide)
  obtain ⟨c, h₂, c', h₃, hrun₂, hrun₃, hg, hstrangers⟩ :=
    create_strangers hs₁ (hd₁.reads.pure hd₁.plain).1 hsettings
  have hd := hd₁.lasts hg.lasts
  obtain ⟨hx, hu⟩ := hd.reads.pure hd.plain
  obtain ⟨es, hes⟩ : ∃ es, h₃.read r = some (.dict es) := by
    obtain ⟨data, es, heq, hes⟩ := dict_of_reads hd.reads
    cases heq
    exact ⟨es, hes⟩
  obtain ⟨hcreated, hshared, -, hloaded⟩ :=
    own_data (w := newWorld h₃) (fun v _ => pure v) hg.sound hx hu
  -- a map is made of the settings, and written out
  obtain ⟨m, h₄, t, hrun₄, hm, hp, hgives, howns⟩ := hcreated
    (by simp [newWorld, isMapping, mapping?, dict?, depth, dictTo, hes])
  obtain ⟨d, h₅, hrun₅, -⟩ := id hgives
  have hs₄ := ((AttributeMap.create_outcome hg.sound (hd.reads.fine)).result hrun₄).sound
  obtain ⟨hx₄, hu₄⟩ : h₄.Pure [.ref r] ∧ h₄.Unlooped [.ref r] := by
    have he := ((AttributeMap.create_data hg.sound hx).result hrun₄).1
    exact (hd.reads.extends he).pure hd.plain
  obtain ⟨-, -, hwritten, -⟩ := own_data (w := newWorld h₄) (fun v _ => pure v) hs₄ hx₄ hu₄
  have howns₅ := (hwritten h₄ .start).2 m hm hp d h₅ hrun₅
  -- the images of one store are a map that the settings are merged into, and stored in
  obtain ⟨scalar, hl⟩ := hstrangers.placed.2
  have hmap := hl.leads.2.2 .images
  obtain ⟨hmerged, hset⟩ := hshared (c.map .images) (hl.map .images)
    (fun s hs => hstrangers.there s (hmap.trans hs))
    fun s hs => hstrangers.apartData s (hmap.trans hs)
  have hstored := hset (.ofText "all") (.ref r) rfl (held_ref (leads_self r))
    (by simp [newWorld, isMap, cell?, hes])
  exact ⟨.ref r, h₁, h₂, h₃, c, c', hbuild, hrun₂, hrun₃,
    ⟨m, h₄, t, d, h₅, hrun₄, howns, hgives, hrun₅, howns₅⟩, hmerged, hstored, _, rfl,
    hloaded c c' hstrangers _ (.right (.left .start))⟩

/-- Two stores load the same data, one of them is given the list of locales that the other gives, and an
item is appended to the list of the one.  Tells whether the other is written down as before. -/
def handOver : Action Unit Bool := do
  let x ← Action.onHeap (buildText .plain (.map shopData))
  let s ← Action.onHeap Store.create
  let s' ← Action.onHeap Store.create
  discard (load (fun v _ => pure v) s x)
  discard (load (fun v _ => pure v) s' x)
  let before ← toDict (fun v _ => pure v) s'
  Action.onHeap do
    Object.setAttribute s "available_locales" (← Object.getAttribute s' "available_locales")
    match ← Object.getAttribute s "available_locales" with
    | .ref r => discard (Plain.callListHere r "append" [some (Value.ofText "fr")])
    | _ => pure ()
  let after ← toDict (fun v _ => pure v) s'
  return (← get).heap.same after before

/-- A list that one store gives and the other is given is shared: what is appended to it through one
store shows in the other. -/
theorem own_shared : ∃ w', handOver (newWorld .empty) = .ok false w' :=
  exists_of_given? (by decide +kernel)

end PageMeta.Settings
