import PageMeta.Proofs.Heap.Detached

/-!
# Work on some cells, and copies that are out of its way

Whoever has some values in hand can put anything into the cells that they lead to, and make new cells.
Tuples stay.  A value that leads to nothing but new cells and tuples is out of the way of all that is
done with what was there before, and what was there before is out of the way of all that is done with
the value.  A detached copy of data is such a value.

## Key results

- `Reworked.trans`, `Touches.reworked`: work in several steps
- `Copies`: values with the same content in other cells
- `SetApart.kept`, `SetApart.extends`: a value and what was there before are out of each other's way
- `SetApart.aside`: what is made of what was there before is out of the way of the value as well
- `detach_copies`: a detached copy of data is a copy, and set apart
-/

namespace PageMeta.Heap

/-- A later heap in which nothing has changed but cells in hand, and no tuples. -/
def Reworked (hands : Ref → Prop) (h h' : Heap) : Prop :=
  Agree (fun r => r.index < h.size ∧ (hands r → h.IsTuple r)) h h'

/-- Whether a value has in one heap what another has in another heap: the same scalars in the same
places, in cells of the same kinds, where exactly those are the same cell that are in the other. -/
def Copies (h : Heap) (v : Value) (h' : Heap) (w : Value) : Prop :=
  ∃ f : Ref → Ref, w = v.rename f ∧
    (∀ r s, h.Leads [v] r → h.Leads [v] s → f r = f s → r = s) ∧
    ∀ r c, h.Leads [v] r → h.read r = some c → h'.read (f r) = some (c.rename f)

/-- Whether a value leads to nothing that was there in an earlier heap, apart from tuples. -/
def SetApart (h h' : Heap) (w : Value) : Prop :=
  ∀ r, h'.Leads [w] r → h.size ≤ r.index ∨ h.IsTuple r

/-- Whether every attribute map that values lead to keeps its entries in a dictionary. -/
def Mapped (h : Heap) (vs : List Value) : Prop := ∀ m data, h.Leads vs m →
  h.read m = some (.map data) → ∃ d es, data = .ref d ∧ h.read d = some (.dict es)

variable {h h' h'' : Heap} {hands within : Ref → Prop} {vs : List Value} {v w : Value} {r : Ref}

/-! ### Work -/

theorem IsTuple.read_eq (hr : h.IsTuple r) (heq : h'.read r = h.read r) : h'.IsTuple r := by
  obtain ⟨items, hitems⟩ := hr
  exact ⟨items, heq.trans hitems⟩

theorem IsTuple.index_lt (hr : h.IsTuple r) : r.index < h.size := by
  obtain ⟨items, hitems⟩ := hr
  exact lt_size_of_read hitems

namespace Reworked

theorem refl (hands : Ref → Prop) (h : Heap) : Reworked hands h h := Agree.refl _ _

/-- Work goes on. -/
theorem trans (h₁ : Reworked hands h h') (h₂ : Reworked hands h' h'') : Reworked hands h h'' := by
  refine ⟨Nat.le_trans h₁.size_le h₂.size_le, fun r hr => ?_⟩
  have heq := h₁.read_eq r hr
  have hlater : r.index < h'.size ∧ (hands r → h'.IsTuple r) :=
    ⟨Nat.lt_of_lt_of_le hr.1 h₁.size_le, fun hh => (hr.2 hh).read_eq heq⟩
  exact (h₂.read_eq r hlater).trans heq

/-- Cells that are out of hand, and tuples, stay as they are. -/
theorem agree (hw : Reworked hands h h')
    (hr : ∀ r, within r → r.index < h.size ∧ (hands r → h.IsTuple r)) : Agree within h h' :=
  Agree.mono hw hr

end Reworked

/-- Whatever a program does with what it has in hand is work on that. -/
theorem Touches.reworked (ht : Touches hands h h') : Reworked hands h h' :=
  Touches.agree ht fun _ => id

/-! ### Copies -/

/-- What values lead to is among cells that lead nowhere else. -/
theorem leads_within {P : Ref → Prop} (hv : ∀ v ∈ vs, Held P v)
    (hstep : ∀ r c, P r → h.read r = some c → HeldCell P c) (hr : h.Leads vs r) : P r := by
  induction hr with
  | held hmem hr => exact hv _ hmem _ hr
  | step _ hc hs ih => exact hstep _ _ ih hc _ hs

namespace Copies

/-- A copy of what has stayed as it was is a copy of what was there. -/
theorem of_agree (hc : Copies h' v h'' w) (ha : Agree (h.Leads [v]) h h') : Copies h v h'' w := by
  obtain ⟨f, heq, hinj, hread⟩ := hc
  refine ⟨f, heq, fun r s hr hs => hinj r s (hr.agree ha) (hs.agree ha), fun r c hr hcell => ?_⟩
  exact hread r c (hr.agree ha) ((ha.read_eq r hr).trans hcell)

/-- A copy of plain data shows what they show. -/
theorem reads {t : Tree String} (hc : Copies h v h' w) (hr : h.Reads .plain within t v)
    (hp : t.isPlain = true) : h'.Reads .plain (fun _ => True) t w := by
  obtain ⟨f, rfl, -, hread⟩ := hc
  have hm : Moves (h.Leads [v]) f h h' := by
    refine ⟨fun r hr s hs => ?_, hread⟩
    cases hc : h.read r with
    | none => simp [targets, heldBy, hc] at hs
    | some c => exact hr.step hc (mem_addresses_of_mem_targets hc hs)
  exact (moved_reads hm hr hp fun r ht =>
    .held (List.mem_singleton_self v) (Value.mem_addresses_of_target? ht)).mono fun _ _ => trivial

/-- What a copy is made of is copied with it. -/
theorem part {x : Value} {f : Ref → Ref}
    (hinj : ∀ r s, h.Leads [v] r → h.Leads [v] s → f r = f s → r = s)
    (hread : ∀ r c, h.Leads [v] r → h.read r = some c → h'.read (f r) = some (c.rename f))
    (hx : Held (h.Leads [v]) x) : Copies h x h' (x.rename f) := by
  have hleads : ∀ r, h.Leads [x] r → h.Leads [v] r := fun r hr =>
    leads_within (fun y hy => by rw [List.mem_singleton.mp hy]; exact hx)
      (fun _ _ hr hc _ hs => hr.step hc hs) hr
  exact ⟨f, rfl, fun r s hr hs => hinj r s (hleads r hr) (hleads s hs),
    fun r c hr => hread r c (hleads r hr)⟩

end Copies

theorem Sound.mapped (hs : h.Sound) (vs : List Value) : h.Mapped vs := fun m data _ hread => by
  obtain ⟨d, es, rfl, hd, -⟩ := hs.cells m _ hread
  exact ⟨d, es, rfl, hd⟩

theorem Mapped.agree (hm : h.Mapped vs) (ha : Agree (h.Leads vs) h h') : h'.Mapped vs := by
  intro m data hl hread
  have hl := hl.of_agree ha
  have hread := (ha.read_eq m hl).symm.trans hread
  obtain ⟨d, es, rfl, hd⟩ := hm m data hl hread
  exact ⟨d, es, rfl, (ha.read_eq d (hl.step hread (List.mem_singleton_self d))).trans hd⟩

/-- A copy of data has maps over dictionaries if the data have. -/
theorem Mapped.copy (hm : h.Mapped [v]) (hp : h.Pure [v]) :
    (h.copyOf v).Mapped [v.rename (h.moved v)] := by
  intro m data hl hread
  obtain ⟨r, -, hr, rfl⟩ := exists_of_leads_copy hp hp.self.1 hp.self.2 hl
  obtain ⟨c, hc, -⟩ := hp.cells r hr
  have hmoved := read_moved hp hr hc
  rw [hread] at hmoved
  cases c with
  | map data' =>
    cases hmoved
    obtain ⟨d, es, rfl, hd⟩ := hm r data' hr hc
    exact ⟨h.moved v d, _, rfl, read_moved hp (hr.step hc (List.mem_singleton_self d)) hd⟩
  | _ => cases hmoved

/-- A detached copy of data can be made.  It is a copy, made of data, and set apart. -/
theorem detach_copies (hp : h.Pure [v]) : detach v h = .ok (v.rename (h.moved v)) (h.copyOf v) ∧
    Extends h (h.copyOf v) ∧ Copies h v (h.copyOf v) (v.rename (h.moved v)) ∧
    (h.copyOf v).Pure [v.rename (h.moved v)] ∧ SetApart h (h.copyOf v) (v.rename (h.moved v)) := by
  obtain ⟨hrun, hpure, hapart⟩ := detach_pure hp
  refine ⟨hrun, withCopies_extends h _, ⟨h.moved v, rfl, ?_, ?_⟩, hpure, hapart⟩
  · exact fun r s hr hs => moved_inj hp hr hs
  · exact fun r c hr hc => read_moved hp hr hc

/-! ### Values that are set apart -/

/-- A value stays set apart as long as it stays as it is. -/
theorem SetApart.agree (hs : SetApart h h' w) (ha : Agree (h'.Leads [w]) h' h'') :
    SetApart h h'' w := fun r hr => hs r (hr.of_agree ha)

/-- Whatever is done with a value that is set apart, all that was there before stays as it is. -/
theorem SetApart.extends (hs : SetApart h h' w) (he : Extends h h')
    (hw : Reworked (h'.InHand [w]) h' h'') : Extends h h'' := by
  refine ⟨Nat.le_trans he.size_le hw.size_le, fun r hr => ?_⟩
  have hlt := Nat.lt_of_lt_of_le hr he.size_le
  refine (hw.read_eq r ⟨hlt, fun hand => ?_⟩).trans (he.read_eq r hr)
  rcases hand with hl | hge
  · rcases hs r hl with hnew | htuple
    · omega
    · exact htuple.read_eq (he.read_eq r hr)
  · omega

/-- Whoever has what was there before has nothing but tuples in hand of a value that is set apart. -/
theorem SetApart.isTuple (hs : SetApart h h' w) (he : Extends h h') (hw : h'.There [w])
    (hvs : h.There vs) (hr : h'.Leads [w] r) (hand : h'.InHand vs r) : h'.IsTuple r := by
  rcases hs r hr with hnew | htuple
  · -- what was there before leads to no new cell, and later cells are newer still
    rcases hand with hl | hge
    · have hold := hvs r (hl.of_agree (hvs.agree_of_extends he))
      omega
    · have hlt := hw r hr
      omega
  · exact htuple.read_eq (he.read_eq r htuple.index_lt)

/-- Whatever is done with what was there before, a value that is set apart stays as it is. -/
theorem SetApart.kept (hs : SetApart h h' w) (he : Extends h h') (hw : h'.There [w])
    (hvs : h.There vs) (hrun : Reworked (h'.InHand vs) h' h'') : Agree (h'.Leads [w]) h' h'' :=
  hrun.agree fun r hr => ⟨hw r hr, hs.isTuple he hw hvs hr⟩

/-- Whatever is made of what was there before shares nothing but tuples with a value that is set
apart. -/
theorem SetApart.aside (hs : SetApart h h' w) (he : Extends h h') (hw : h'.There [w])
    (hvs : h.There vs) (hrun : Touches (h'.InHand vs) h' h'')
    (hv : Held (h''.Live (h'.InHand vs)) v) : h''.Aside [w] [v] := by
  have hkept := hs.kept he hw hvs hrun.reworked
  have hready := hrun.ready (hvs.agree (hvs.agree_of_extends he)).ready
  intro r hr hl
  have hr := hr.of_agree hkept
  have hand := leads_of_closed hready.closed (fun u hu => by rwa [List.mem_singleton.mp hu]) hl
  exact (hs.isTuple he hw hvs hr hand.1).read_eq (hkept.read_eq r hr)

end PageMeta.Heap
