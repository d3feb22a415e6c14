import PageMeta.Proofs.Heap.Additions
import PageMeta.Proofs.Heap.Pure

/-!
# Attribute maps in hand

What a program does to maps in hand, through the operations of the maps, is a run of touches of what it
has in hand.  That is so whatever is in hand is written into them, and as well if somebody else's data
are copied into them.

## Key results

- `upkeep_worked`: operations with what is in hand are runs of touches
- `copyUpkeep_data`: so are operations that copy data
- `MapCall.after_worked`: calls on maps in hand
-/

namespace PageMeta.AttributeMap

open Heap

variable {h h' h₀ : Heap} {hands : Ref → Prop} {vs : List Value} {v : Value} {m : Ref}

/-- A later heap that comes from working with what is in hand, and is sound. -/
structure Worked (hands : Ref → Prop) (h h' : Heap) : Prop extends Keeps h h' where
  touches : Touches hands h h'

namespace Worked

theorem refl (hs : h.Sound) : Worked hands h h := ⟨.refl hs, .refl⟩

theorem trans {h'' : Heap} (h₁ : Worked hands h h') (h₂ : Worked hands h' h'') :
    Worked hands h h'' := ⟨h₁.toKeeps.trans h₂.toKeeps, h₁.touches.trans h₂.touches⟩

/-- What keeps a heap sound and is a run of touches is work. -/
theorem of_outcome {α : Type} {x : Heap.Action α} (hk : Outcome x h (fun _ h' => Keeps h h') (Keeps h))
    (ht : Outcome x h (fun _ h' => Touches hands h h') (Touches hands h)) :
    Outcome x h (fun _ h' => Worked hands h h') (Worked hands h) :=
  (hk.and ht).mono (fun _ _ hw => ⟨hw.1, hw.2⟩) fun _ hw => ⟨hw.1, hw.2⟩

end Worked

/-- Whether a map is in hand, and can be worked with. -/
structure Workable (hands : Ref → Prop) (h : Heap) (m : Ref) : Prop where
  ready : Ready hands h
  isMap : h.isMap (.ref m) = true
  held : hands m

namespace Workable

theorem remains (hw : Workable hands h m) (hwork : Worked hands h h') : Workable hands h' m :=
  ⟨hwork.touches.ready hw.ready, hwork.maps m hw.isMap, hw.held⟩

end Workable

/-- The entries of what is in hand stand in a dictionary in hand. -/
theorem exists_dict_of_entriesAt (hcl : h.Closed hands) (hm : hands m) {p : Key × Value}
    (hp : p ∈ h.entriesAt m) : ∃ d es, hands d ∧ h.read d = some (.dict es) ∧ p ∈ es := by
  unfold entriesAt at hp
  cases hd : h.dict? m with
  | none => rw [hd] at hp; cases hp
  | some q =>
    obtain ⟨d, es⟩ := q
    rw [hd] at hp
    obtain ⟨hd', hread⟩ := held_dictTo _ hm hd
    exact ⟨d, es, hd', hread, hp⟩
where
  /-- The dictionary behind maps in hand is in hand. -/
  held_dictTo : ∀ (n : Nat) {r d : Ref} {es : Entries Key Value}, hands r →
      h.dictTo n r = some (d, es) → hands d ∧ h.read d = some (.dict es)
    | 0, _, _, _, _, hd => by cases hd
    | n + 1, r, d, es, hr, hd => by
      rw [dictTo] at hd
      split at hd
      · rename_i hread
        cases hd
        exact ⟨hr, hread⟩
      · rename_i data hread
        exact held_dictTo n (Held.ref (hcl r _ hr hread)).1 hd
      · cases hd

/-- What keeps its entries in hand has the values in hand. -/
theorem held_entriesAt (hcl : h.Closed hands) (hm : hands m) :
    ∀ p ∈ h.entriesAt m, Held (h.Live hands) p.2 := by
  intro p hp
  obtain ⟨d, es, hd, hread, hmem⟩ := exists_dict_of_entriesAt hcl hm hp
  exact (hcl.dict hd hread p hmem).2

/-- A map in a map in hand is in hand. -/
theorem Workable.inner {inner : Ref} {key : Key} (hw : Workable hands h m)
    (hget : (h.entriesAt m).get? key = some (.ref inner)) (hmap : h.isMap (.ref inner) = true) :
    Workable hands h inner := by
  obtain ⟨k, hmem⟩ := Entries.exists_of_get? hget
  exact ⟨hw.ready, hmap, (Held.ref (held_entriesAt hw.ready.closed hw.held _ hmem)).1⟩

/-- A copy that is made of leaves in hand is stored. -/
theorem store_touches (hs : h.Sound) (hw : Workable hands h m) {key : Key} {name : String}
    (hk : key.text? = some name) (hv : h.Fine v) {given : Value → Prop}
    (hsupply : Supply (Held (h.Live hands)) h .given given) (hgiven : given v) :
    Outcome (do let w ← wrap v; putEntry m key w) h (fun _ h' => Worked hands h h')
      (Worked hands h) := by
  have hwrap : Outcome (wrap v) h (fun u h' => Worked hands h h' ∧ Held (h'.Live hands) u)
      (Worked hands h) :=
    ((wrap_outcome hs hv).and (wrap_touches hs hw.ready hsupply hgiven)).mono
      (fun _ _ hu => ⟨⟨hu.1.1.keeps, hu.2.1⟩, hu.2.2⟩) fun h' hf => by
        rw [hf.1]
        exact .refl hs
  refine Worked.of_outcome (upkeep_keeps.store hs hw.isMap hk hv) (Outcome.bind (hwrap.mono ?_
    fun _ => Worked.touches))
  rintro u h₁ ⟨hwork, hu⟩
  have hw₁ := hw.remains hwork
  have hput : Outcome (putEntry m key u) h₁ (fun _ h' => Touches hands h₁ h') (Touches hands h) :=
    putEntry_touches hwork.sound hw₁.ready hw₁.held hw₁.isMap hk hu
  exact hput.mono (fun _ _ => hwork.touches.trans) fun _ => id

/-- Operations on maps in hand with what is in hand are runs of touches. -/
theorem upkeep_worked (hands : Ref → Prop) :
    Upkeep (fun h v => Ready hands h ∧ h.Fine v ∧ Held (h.Live hands) v) (Worked hands)
      (Workable hands) where
  refl := .refl
  trans := .trans
  keeps hw := hw.toKeeps
  cells hs hc := ⟨upkeep_keeps.cells hs hc, .of_cells hc⟩
  isMap hw := hw.isMap
  remains hwork hw := hw.remains hwork
  inner hw := hw.inner
  stays hwork hv := ⟨hwork.touches.ready hv.1, hwork.fine hv.2.1, hv.2.2.later (Touches.size_le hwork.touches)⟩
  absent hv := ⟨hv.1, ⟨rfl, fun r heq => by cases heq⟩, held_of_addresses rfl⟩
  entries hs hv p hp :=
    ⟨hv.1, fine_entriesAt hs _ p hp, held_entriesAt hv.1.closed hv.2.2.of_live.ref p hp⟩
  store hs hw hk hv := store_touches hs hw hk hv.2.1 (held_supply hs hv.1.closed) hv.2
  storeMap hs hw hk hv hmap := Worked.of_outcome (upkeep_keeps.storeMap hs hw.isMap hk hv.2.1 hmap)
    (putEntry_touches hs hw.ready hw.held hw.isMap hk hv.2.2)

/-- Whether a value belongs to data that are as they were in an earlier heap. -/
def Supplied (h₀ : Heap) (vs : List Value) (h : Heap) (v : Value) : Prop :=
  Agree (h₀.Leads vs) h₀ h ∧ v.isDatum = true ∧ Held (h₀.Leads vs) v

/-- Data are supplied by the cells that they lead to. -/
theorem Supplied.pure (hp : h₀.Pure vs) (hv : Supplied h₀ vs h v) :
    h.Pure vs ∧ v.isDatum = true ∧ Held (h.Leads vs) v :=
  ⟨hp.agree hv.1, hv.2.1, hv.2.2.mono fun _ => Leads.agree hv.1⟩

/-- Operations that copy data into maps in hand are runs of touches of what is in hand, if nothing of
the data is. -/
theorem copyUpkeep_data (hp : h₀.Pure vs) (hout : ∀ r, h₀.Leads vs r → ¬ hands r) :
    CopyUpkeep (Supplied h₀ vs) (Worked hands) (Workable hands) where
  refl := .refl
  trans := .trans
  keeps hw := hw.toKeeps
  cells hs hc := ⟨upkeep_keeps.cells hs hc, .of_cells hc⟩
  isMap hw := hw.isMap
  remains hwork hw := hw.remains hwork
  inner hw := hw.inner
  stays hwork hv := by
    rename_i h h' v
    have hlater : Agree (h₀.Leads vs) h h' := hwork.touches.agree fun r hr =>
      ⟨Nat.lt_of_lt_of_le (hp.there r hr) hv.1.size_le, fun hh => absurd hh (hout r hr)⟩
    exact ⟨⟨Nat.le_trans hv.1.size_le hlater.size_le,
      fun r hr => (hlater.read_eq r hr).trans (hv.1.read_eq r hr)⟩, hv.2⟩
  absent hv := ⟨hv.1, rfl, held_of_addresses rfl⟩
  entries hs hv p hmem := by
    obtain ⟨hpure, -, hheld⟩ := hv.pure hp
    obtain ⟨d, es, hd, hread, hp⟩ := exists_dict_of_entriesAt hpure.there.closed hheld.ref hmem
    exact ⟨hv.1, hpure.dict hd hread p hp,
      (hpure.there.closed.dict hd hread p hp).2.of_live.mono fun _ => Leads.of_agree hv.1⟩
  store hs hw hk hv := by
    obtain ⟨hpure, hdatum, hheld⟩ := hv.pure hp
    exact store_touches hs hw hk (hpure.fine hdatum hheld) ((hpure.supply hs).imp fun _ => held_of_isScalar) ⟨hdatum, hheld⟩

/-! ### Calls -/

/-- Making a map of what supplies leaves in hand. -/
theorem create_worked (hs : h.Sound) (hr : Ready hands h) (hv : h.Fine v) {given : Value → Prop}
    (hsupply : Supply (Held (h.Live hands)) h .given given) (hgiven : given v) :
    Outcome (create v) h (fun u h' => Worked hands h h' ∧ Held (h'.Live hands) u)
      (Worked hands h) := by
  have htouches : Outcome (create v) h (fun u h' => Touches hands h h' ∧ Held (h'.Live hands) u)
      (Touches hands h) := by
    refine Outcome.get_bind ?_
    split
    · exact (make_touches .wrapped hr fun _ hp => absurd hp List.not_mem_nil).mono (fun _ _ => id)
        fun _ => False.elim
    · split
      · exact wrap_touches hs hr hsupply hgiven
      · exact .refl
  exact ((create_outcome hs hv).and htouches).mono (fun _ _ hw => ⟨⟨hw.1, hw.2.1⟩, hw.2.2⟩)
    fun _ hw => ⟨hw.1, hw.2⟩

/-- Writing out a map of what supplies leaves in hand. -/
theorem toDict_touches (hs : h.Sound) (hr : Ready hands h) {given : Value → Prop}
    (hsupply : Supply (Held (h.Live hands)) h .stored given) (hgiven : given (.ref m)) :
    Outcome (toDict m) h (fun d h' => Touches hands h h' ∧ Held (h'.Live hands) d)
      (Touches hands h) :=
  unwrap_touches hs hr hsupply hgiven

namespace MapCall

/-- Whether the maps and values of a call are in hand. -/
def InHands (hands : Ref → Prop) (h : Heap) : MapCall → Prop
  | create source => h.Fine source ∧ Held (h.Live hands) source
  | set m _ value | setItem m _ value | merge m value =>
    (h.isMap (.ref m) = true ∧ hands m) ∧ h.Fine value ∧ Held (h.Live hands) value
  | setAttribute m name value =>
    (h.isMap (.ref m) = true ∧ hands m) ∧ isPrivate name = false ∧ h.Fine value ∧ Held (h.Live hands) value

/-- Calls on maps in hand with values in hand are runs of touches. -/
theorem after_worked {call : MapCall} (hs : h.Sound) (hr : Ready hands h)
    (hc : call.InHands hands h) : Worked hands h (call.after h) := by
  have hR := upkeep_worked hands
  have houtcome : Outcome call.run h (fun _ h' => Worked hands h h') (Worked hands h) := by
    cases call with
    | create source =>
      exact Outcome.discard ((create_worked hs hr hc.1 (held_supply hs hr.closed) hc).mono
        (fun _ _ hw => hw.1) fun _ => id)
    | set m key value =>
      exact Outcome.discard (set_outcome hR hs ⟨hr, hc.1.1, hc.1.2⟩ ⟨hr, hc.2⟩)
    | setItem m key value => exact setItem_outcome hR hs ⟨hr, hc.1.1, hc.1.2⟩ ⟨hr, hc.2⟩
    | setAttribute m name value =>
      exact setAttribute_outcome hR hs ⟨hr, hc.1.1, hc.1.2⟩ hc.2.1 ⟨hr, hc.2.2⟩
    | merge m other =>
      exact Outcome.discard (merge_outcome hR.toCopyUpkeep hs ⟨hr, hc.1.1, hc.1.2⟩ ⟨hr, hc.2⟩)
  rw [after_eq]
  exact houtcome.stateAfter

end MapCall

end PageMeta.AttributeMap
