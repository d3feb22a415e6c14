import PageMeta.Proofs.Heap.PlainData
import PageMeta.Proofs.Heap.Touch

/-!
# Copies made by hand

Building a tree from what is in hand is a run of touches, and gives what is in hand.  A copy is built
from the leaves of what it copies.  So if all of what is copied is in hand the copy is, and if what is
copied is data, whoever has it, there is nothing but scalars among the leaves and the copy holds
nothing but new cells.

## Key results

- `Making.build_outcome`: what holds of what a tree is built of, and of every cell that is made of such
  values, holds of what is built
- `treeTo_supplied`: what holds of the leaves that are supplied holds of the leaves of the tree
- `wrap_touches`, `unwrap_touches`: copies into and out of maps
- `putEntry_touches`: writing an entry
-/

namespace PageMeta.Heap

variable {h h' : Heap} {hands : Ref → Prop} {v w : Value}

/-! ### Making scalars -/

/-- Making a scalar of what is in hand: the scalar holds what it held before. -/
theorem settle_touches (hv : Held (h.Live hands) v) :
    Outcome (settle v) h (fun u h' => Touches hands h h' ∧ Held (h'.Live hands) u) fun _ => False := by
  have haddresses : ∀ mark, (v.withMark mark).addresses = v.addresses := fun mark => by
    cases v <;> rfl
  have hheld : ∀ mark, Held (h.Live hands) (v.withMark mark) := fun mark r hr =>
    hv r (haddresses mark ▸ hr)
  obtain ⟨mark, -, hrun | hrun⟩ := settle_withMark h v
  · exact Outcome.of_ok hrun ⟨.refl, hheld mark⟩
  · exact Outcome.of_ok hrun ⟨.single .count, hheld mark⟩

/-! ### Building -/

/-- What holds of every value that is made of cells, if it holds of what they are made of. -/
structure Making (building : Building) (R : Heap → Heap → Prop) (P : Heap → Value → Prop)
    (ready : Heap → Prop) : Prop where
  refl : ∀ {h}, R h h
  trans : ∀ {h h' h''}, R h h' → R h' h'' → R h h''
  stays : ∀ {h h'}, R h h' → ready h → ready h'
  later : ∀ {h h' v}, R h h' → P h v → P h' v
  cells : ∀ {h h'}, h'.cells = h.cells → R h h'
  settle : ∀ {h v}, P h v → Outcome (settle v) h (fun w h' => R h h' ∧ P h' w) fun _ => False
  list : ∀ {h vs}, ready h → (∀ v ∈ vs, P h v) →
    Outcome (newList vs) h (fun w h' => R h h' ∧ P h' w) fun _ => False
  make : ∀ {h} {es : Entries Key Value}, ready h → es.TextKeys →
    (∀ p ∈ es, p.1.value.isMade = true) → (∀ p ∈ es, P h p.2) →
    Outcome (building.make es) h (fun w h' => R h h' ∧ P h' w) fun _ => False

namespace Making

variable {building : Building} {R : Heap → Heap → Prop} {P : Heap → Value → Prop}
  {ready : Heap → Prop}

mutual

/-- Building a tree with leaves for which it holds. -/
theorem build_outcome (hm : Making building R P ready) : ∀ {u : Tree Key} {t : Tree String} {h : Heap},
    ready h → u.Named (P h) t →
    Outcome (build building u) h (fun w h' => R h h' ∧ P h' w) fun _ => False
  | .leaf v, _, h, _, hu => by
    rw [build]
    exact hm.settle hu.2
  | .list us, _, h, hg, ⟨_, _, hu⟩ => by
    rw [build]
    refine Outcome.bind ((hm.buildList_outcome hg hu).mono ?_ fun _ => id)
    rintro vs h₁ ⟨hR, hvs⟩
    exact (hm.list (hm.stays hR hg) hvs).mono (fun _ _ hw => ⟨hm.trans hR hw.1, hw.2⟩) fun _ => id
  | .map us, _, h, hg, ⟨_, _, hu⟩ => by
    rw [build]
    refine Outcome.bind ((hm.buildEntries_outcome hg hu).mono ?_ fun _ => id)
    rintro es h₁ ⟨hR, hkeys, hmade, hes⟩
    exact (hm.make (hm.stays hR hg) hkeys hmade hes).mono (fun _ _ hw => ⟨hm.trans hR hw.1, hw.2⟩)
      fun _ => id

/-- `build_outcome`, item by item. -/
theorem buildList_outcome (hm : Making building R P ready) : ∀ {us : List (Tree Key)}
    {ts : List (Tree String)} {h : Heap}, ready h → Tree.NamedItems (P h) us ts →
    Outcome (buildList building us) h (fun vs h' => R h h' ∧ ∀ v ∈ vs, P h' v) fun _ => False
  | [], _, h, _, _ => ⟨hm.refl, fun _ hv => absurd hv List.not_mem_nil⟩
  | u :: us, _, h, hg, ⟨_, _, _, hu, hus⟩ => by
    rw [buildList]
    refine Outcome.bind ((hm.build_outcome hg hu).mono ?_ fun _ => id)
    rintro v h₁ ⟨hR, hv⟩
    refine Outcome.bind ((hm.buildList_outcome (hm.stays hR hg) (hus.imp (hm.later hR))).mono ?_
      fun _ => id)
    rintro vs h₂ ⟨hR', hvs⟩
    exact ⟨hm.trans hR hR', List.forall_mem_cons.mpr ⟨hm.later hR' hv, hvs⟩⟩

/-- `build_outcome`, entry by entry. -/
theorem buildEntries_outcome (hm : Making building R P ready) : ∀ {us : List (Key × Tree Key)}
    {ts : List (String × Tree String)} {h : Heap}, ready h → Tree.NamedEntries (P h) us ts →
    Outcome (buildEntries building us) h (fun (es : Entries Key Value) h' =>
      R h h' ∧ es.TextKeys ∧ (∀ p ∈ es, p.1.value.isMade = true) ∧ ∀ p ∈ es, P h' p.2) fun _ => False
  | [], _, h, _, _ => ⟨hm.refl, fun _ hp => absurd hp List.not_mem_nil,
      fun _ hp => absurd hp List.not_mem_nil, fun _ hp => absurd hp List.not_mem_nil⟩
  | (key, u) :: us, _, h, hg, ⟨name, _, _, _, hk, hu, hus⟩ => by
    rw [buildEntries]
    obtain ⟨k, h₁, hkey, hk', hmade, hc⟩ := settleKey_made (h := h) hk
    refine Outcome.bind (Outcome.of_ok hkey ?_)
    have hR₁ := hm.cells hc
    have hg₁ := hm.stays hR₁ hg
    refine Outcome.bind ((hm.build_outcome hg₁ (hu.imp (hm.later hR₁))).mono ?_ fun _ => id)
    rintro v h₂ ⟨hR₂, hv⟩
    have hR := hm.trans hR₁ hR₂
    refine Outcome.bind ((hm.buildEntries_outcome (hm.stays hR₂ hg₁) (hus.imp (hm.later hR))).mono ?_
      fun _ => id)
    rintro es h₃ ⟨hR₃, hkeys, hmades, hes⟩
    exact ⟨hm.trans hR hR₃, List.forall_mem_cons.mpr ⟨⟨name, hk'⟩, hkeys⟩,
      List.forall_mem_cons.mpr ⟨hmade, hmades⟩, List.forall_mem_cons.mpr ⟨hm.later hR₃ hv, hes⟩⟩

end

end Making

/-- Making a cell of what is in hand. -/
theorem alloc_touches {c : Cell} (hc : HeldCell (h.Live hands) c) (hr : Ready hands h) :
    Outcome (alloc c) h (fun r h' => Touches hands h h' ∧ h'.Live hands r) fun _ => False :=
  ⟨.push hc, hr.spare _ (Nat.le_refl _), lt_size_of_read (read_alloc_new h c)⟩

theorem make_touches (building : Building) {es : Entries Key Value} (hr : Ready hands h)
    (hes : ∀ p ∈ es, HeldKey (h.Live hands) p.1 ∧ Held (h.Live hands) p.2) :
    Outcome (building.make es) h (fun w h' => Touches hands h h' ∧ Held (h'.Live hands) w)
      fun _ => False := by
  refine Outcome.bind ((alloc_touches (heldCell_dict.mpr hes) hr).mono ?_ fun _ => id)
  rintro d h₁ ⟨ht, hd⟩
  cases building with
  | plain => exact ⟨ht, held_ref hd⟩
  | wrapped =>
    refine Outcome.bind ((alloc_touches (c := .map (.ref d)) (held_ref hd) (ht.ready hr)).mono ?_
      fun _ => id)
    rintro m h₂ ⟨ht', hm⟩
    exact ⟨ht.trans ht', held_ref hm⟩

/-- What is made of what is in hand is in hand. -/
theorem making_touches (building : Building) (hands : Ref → Prop) :
    Making building (Touches hands) (fun h v => Held (h.Live hands) v) (Ready hands) where
  refl := .refl
  trans := .trans
  stays := Touches.ready
  later ht hv := hv.later ht.size_le
  cells := .of_cells
  settle := settle_touches
  list hr hvs := Outcome.bind ((alloc_touches (heldCell_list.mpr hvs) hr).mono
    (fun _ _ hw => ⟨hw.1, held_ref hw.2⟩) fun _ => id)
  make hr hkeys _ hes := make_touches building hr fun p hp => by
    obtain ⟨_, hk⟩ := hkeys p hp
    exact ⟨heldKey_of_text? hk, hes p hp⟩

/-- Building a tree of plain constants takes nothing in hand. -/
theorem buildText_touches (building : Building) (hr : Ready hands h) {t : Tree String}
    (ht : t.isPlain = true) :
    Outcome (buildText building t) h (fun w h' => Touches hands h h' ∧ Held (h'.Live hands) w)
      fun _ => False :=
  (making_touches building hands).build_outcome hr (Tree.named_mapKeys (fun v hv =>
    held_of_addresses (by cases v <;> first | rfl | cases hv)) ht)

/-! ### Reading -/

/-- What is opened when values of some kind are read, and what holds of their leaves. -/
structure Supply (P : Value → Prop) (h : Heap) (reading : Reading) (given : Value → Prop) :
    Prop where
  items : ∀ {v items}, given v → h.items? reading.opened v = some items → ∀ w ∈ items, given w
  entries : ∀ {v entries}, given v → h.entries? reading.opened v = some entries →
    ∀ p ∈ entries, given p.2
  leaf : ∀ {v}, given v → h.items? reading.opened v = none →
    h.entries? reading.opened v = none → h.IsLeaf v ∧ P v

theorem Supply.imp {P Q : Value → Prop} {reading : Reading} {given : Value → Prop}
    (hs : Supply P h reading given) (hq : ∀ v, P v → Q v) : Supply Q h reading given :=
  ⟨hs.items, hs.entries, fun hv hi he => (hs.leaf hv hi he).imp_right (hq _)⟩

/-- What a function of a computation gives is the function of what the computation gives. -/
theorem exists_of_map_ok {α β : Type} {f : α → β} {x : Except Error α} {b : β}
    (hx : f <$> x = .ok b) : ∃ a, x = .ok a ∧ f a = b := by
  cases x with
  | error e => cases hx
  | ok a => cases hx; exact ⟨a, rfl, rfl⟩

theorem exists_of_bind_pure {α β : Type} {f : α → β} {x : Except Error α} {b : β}
    (hx : (do return f (← x)) = Except.ok b) : ∃ a, x = .ok a ∧ b = f a := by
  cases x with
  | error e => cases hx
  | ok a => cases hx; exact ⟨a, rfl, rfl⟩

/-- Whatever a traversal gives comes from an element. -/
theorem forall_of_mapM {α β : Type} {f : α → Except Error β} {as : List α} {bs : List β}
    {P : β → Prop} (hbs : as.mapM f = .ok bs) (hf : ∀ a ∈ as, ∀ b, f a = .ok b → P b) :
    ∀ b ∈ bs, P b := fun b hb => by
  obtain ⟨a, ha, hab⟩ := exists_of_forall₂ (List.Forall₂.flip (forall₂_of_mapM hbs)) b hb
  exact hf a ha b hab

/-- Trees that are named are named one by one. -/
theorem exists_namedItems {P : Value → Prop} : ∀ {us : List (Tree Key)},
    (∀ u ∈ us, ∃ t, u.Named P t) → ∃ ts, Tree.NamedItems P us ts
  | [], _ => ⟨[], rfl⟩
  | u :: us, hus => by
    obtain ⟨⟨t, ht⟩, hrest⟩ := List.forall_mem_cons.mp hus
    obtain ⟨ts, hts⟩ := exists_namedItems hrest
    exact ⟨t :: ts, t, ts, rfl, ht, hts⟩

theorem exists_namedEntries {P : Value → Prop} : ∀ {us : Entries Key (Tree Key)}, us.TextKeys →
    (∀ p ∈ us, ∃ t, p.2.Named P t) → ∃ ts, Tree.NamedEntries P us ts
  | [], _, _ => ⟨[], rfl⟩
  | (key, u) :: us, hkeys, hus => by
    obtain ⟨⟨name, hk⟩, hkeys⟩ := List.forall_mem_cons.mp hkeys
    obtain ⟨⟨t, ht⟩, hrest⟩ := List.forall_mem_cons.mp hus
    obtain ⟨ts, hts⟩ := exists_namedEntries hkeys hrest
    exact ⟨(name, t) :: ts, name, t, ts, rfl, hk, ht, hts⟩

/-- What holds of the leaves that are supplied holds of the leaves of the tree, which has texts as
keys. -/
theorem treeTo_supplied (hs : h.Sound) {P : Value → Prop} {reading : Reading} {given : Value → Prop}
    (hsupply : Supply P h reading given) : ∀ (n : Nat) {v : Value} {u : Tree Key}, given v →
      h.treeTo reading n v = .ok u → ∃ t, u.Named P t
  | 0, _, _, _, hu => by cases hu
  | n + 1, v, u, hv, hu => by
    cases hi : h.items? reading.opened v with
    | some items =>
      rw [treeTo_of_items? reading n hi] at hu
      obtain ⟨us, hus, rfl⟩ := exists_of_map_ok hu
      obtain ⟨ts, hts⟩ := exists_namedItems (forall_of_mapM hus fun w hw u hu =>
        treeTo_supplied hs hsupply n (hsupply.items hv hi w hw) hu)
      exact ⟨.list ts, ts, rfl, hts⟩
    | none =>
      cases he : h.entries? reading.opened v with
      | some entries =>
        have hinner : ∀ p ∈ entries, ∀ u, h.treeTo reading n p.2 = .ok u → ∃ t, u.Named P t :=
          fun p hp u => treeTo_supplied hs hsupply n (hsupply.entries hv he p hp)
        cases reading with
        | stored =>
          rw [treeTo_stored_of_entries? n he] at hu
          obtain ⟨us, hus, rfl⟩ := exists_of_map_ok hu
          have hparts : ∀ q ∈ us, (∃ name, q.1.text? = some name) ∧ ∃ t, q.2.Named P t :=
            forall_of_mapM hus fun p hp q hq => by
              obtain ⟨u, hu, rfl⟩ := exists_of_bind_pure hq
              exact ⟨hs.textKeys he p hp, hinner p hp u hu⟩
          obtain ⟨ts, hts⟩ := exists_namedEntries (fun q hq => (hparts q hq).1)
            fun q hq => (hparts q hq).2
          exact ⟨.map ts, ts, rfl, hts⟩
        | given =>
          rw [treeTo_given_of_entries? n he] at hu
          obtain ⟨us, hus, rfl⟩ := exists_of_map_ok hu
          have hparts : ∀ q ∈ us, (∃ name, q.1.text? = some name) ∧ ∃ t, q.2.Named P t :=
            forall_of_mapM hus fun p hp q hq => by
              obtain ⟨u, hu, rfl⟩ := exists_of_bind_pure hq
              exact ⟨⟨_, text?_keyName p.1⟩, hinner p hp u hu⟩
          obtain ⟨ts, hts⟩ := exists_namedEntries (fun q hq => (hparts q hq).1)
            fun q hq => (hparts q hq).2
          exact ⟨.map (Entries.ofList ts), _, rfl,
            Tree.namedEntries_iff.mpr (Tree.namedEntries_iff.mp hts).ofList⟩
      | none =>
        obtain ⟨hleaf, hP⟩ := hsupply.leaf hv hi he
        rw [treeTo_of_isLeaf reading n hleaf] at hu
        cases hu
        exact ⟨.leaf v, rfl, hP⟩

/-! ### Copies -/

/-- A copy into an attribute map. -/
theorem wrap_touches (hs : h.Sound) (hr : Ready hands h) {given : Value → Prop}
    (hsupply : Supply (Held (h.Live hands)) h .given given) (hv : given v) :
    Outcome (wrap v) h (fun w h' => Touches hands h h' ∧ Held (h'.Live hands) w) (Touches hands h) := by
  refine Outcome.bind (Outcome.ask (fun u hu => ?_) .refl)
  obtain ⟨t, ht⟩ := treeTo_supplied hs hsupply _ hv hu
  exact ((making_touches .wrapped hands).build_outcome hr ht).mono (fun _ _ => id) fun _ => False.elim

/-- A copy out of an attribute map. -/
theorem unwrap_touches (hs : h.Sound) (hr : Ready hands h) {given : Value → Prop}
    (hsupply : Supply (Held (h.Live hands)) h .stored given) (hv : given v) :
    Outcome (unwrap v) h (fun w h' => Touches hands h h' ∧ Held (h'.Live hands) w) (Touches hands h) := by
  refine Outcome.bind (Outcome.ask (fun u hu => ?_) .refl)
  obtain ⟨t, ht⟩ := treeTo_supplied hs hsupply _ hv hu
  exact ((making_touches .plain hands).build_outcome hr ht).mono (fun _ _ => id) fun _ => False.elim

/-! ### Writing -/

/-- Entries in hand, with one more. -/
theorem held_put {key : Key} {es : Entries Key Value}
    (hes : ∀ p ∈ es, HeldKey hands p.1 ∧ Held hands p.2) (hk : HeldKey hands key)
    (hv : Held hands v) : ∀ p ∈ es.put key v, HeldKey hands p.1 ∧ Held hands p.2 := by
  intro p hp
  rcases Entries.mem_put hp with ⟨heq, rfl | ⟨q, hq, hkey⟩⟩ | hp
  · exact ⟨hk, heq ▸ hv⟩
  · exact ⟨hkey ▸ (hes q hq).1, heq ▸ hv⟩
  · exact hes p hp

/-- What a dictionary in hand has in it is in hand. -/
theorem Closed.dict (hcl : h.Closed hands) {d : Ref} {es : Entries Key Value} (hd : hands d)
    (hes : h.read d = some (.dict es)) :
    ∀ p ∈ es, HeldKey (h.Live hands) p.1 ∧ Held (h.Live hands) p.2 :=
  heldCell_dict.mp (hcl d _ hd hes)

/-- Writing a dictionary in hand. -/
theorem write_touches {d : Ref} {es es' : Entries Key Value} (hd : hands d)
    (hes : h.read d = some (.dict es))
    (hes' : ∀ p ∈ es', HeldKey (h.Live hands) p.1 ∧ Held (h.Live hands) p.2) :
    Touches hands h (h.write d (.dict es')) := by
  refine .single (.write hd (fun ⟨items, ht⟩ => ?_) (heldCell_dict.mpr hes'))
  rw [hes] at ht
  cases ht

/-- Storing what is in hand in a map in hand. -/
theorem putEntry_touches (hs : h.Sound) (hr : Ready hands h) {m : Ref} (hm : hands m)
    (hmap : h.isMap (.ref m) = true) {key : Key} {name : String} (hk : key.text? = some name)
    (hv : Held (h.Live hands) v) {failed : Heap → Prop} :
    Outcome (putEntry m key v) h (fun _ h' => Touches hands h h') failed := by
  obtain ⟨data, hread⟩ := read_of_isMap hmap
  obtain ⟨d, es, rfl, hd, -⟩ := hs.cells m _ hread
  have hdata : hands d := (Held.ref (hr.closed m _ hm hread)).1
  exact Outcome.of_ok (putEntry_ok key v hread hd) (write_touches hdata hd
    (held_put (hr.closed.dict hdata hd) (heldKey_of_text? hk) hv))

end PageMeta.Heap
