import Mathlib.Logic.Relation
import PageMeta.Proofs.Heap.Reading

/-!
# What can be done with what is in hand

A program that has some values in hand gets hold of the cells that they lead to, and of the cells that
it makes.  A touch is one thing that it can do: make a cell of what is in hand, or put something else
into a cell in hand.  Tuples are never written.  Whatever an operation does to the cells it is given is
a run of touches, so what no run of touches changes is safe from any program without a way to it.

## Key results

- `Touch.closed`, `Touch.read_eq`: what a touch keeps
- `Touches.ready`, `Touches.read_eq`: what a run of touches keeps
- `Aside.agree`: values that share nothing with what is in hand stay as they are
-/

namespace PageMeta

/-- The addresses that a value holds. -/
def Value.addresses : Value → List Ref
  | .ref r => [r]
  | .method receiver _ _ _ => receiver.addresses
  | _ => []

mutual

/-- The addresses that a key holds. -/
def Key.addresses : Key → List Ref
  | .atom v => v.addresses
  | .tuple r items => r :: Key.addressesList items

/-- The addresses that keys hold. -/
def Key.addressesList : List Key → List Ref
  | [] => []
  | key :: rest => key.addresses ++ Key.addressesList rest

end

/-- The addresses that a cell holds. -/
def Cell.addresses : Cell → List Ref
  | .list items | .tuple items => items.flatMap Value.addresses
  | .dict entries => entries.flatMap fun p => p.1.addresses ++ p.2.addresses
  | .map data => data.addresses
  | .builder _ attributes | .store attributes => [attributes]
  | .record _ attributes others given =>
    attributes :: others.toList ++ given.flatMap Key.addresses
  | .field owner name => owner.addresses ++ name.addresses
  | .liveKeys of | .liveValues of | .liveItems of => [of]

/-- A text that is a key holds no address. -/
theorem Key.addresses_of_text? {key : Key} {name : String} (hk : key.text? = some name) :
    key.addresses = [] := by
  cases key with
  | atom v => cases v <;> first | rfl | cases hk
  | tuple r items => cases hk

namespace Heap

/-! ### What is in hand -/

/-- Whether all that a value holds is in hand. -/
def Held (hands : Ref → Prop) (v : Value) : Prop := ∀ r ∈ v.addresses, hands r

/-- Whether all that a key holds is in hand. -/
def HeldKey (hands : Ref → Prop) (key : Key) : Prop := ∀ r ∈ key.addresses, hands r

/-- Whether all that a cell holds is in hand. -/
def HeldCell (hands : Ref → Prop) (c : Cell) : Prop := ∀ r ∈ c.addresses, hands r

/-- Whether a cell is in hand, and there. -/
def Live (h : Heap) (hands : Ref → Prop) (r : Ref) : Prop := hands r ∧ r.index < h.size

/-- Whether what is in hand leads to cells that are in hand and there. -/
def Closed (h : Heap) (hands : Ref → Prop) : Prop :=
  ∀ r c, hands r → h.read r = some c → HeldCell (h.Live hands) c

/-- Whether some values lead to a cell, through any cells. -/
inductive Leads (h : Heap) (vs : List Value) : Ref → Prop
  | held {v : Value} {r : Ref} : v ∈ vs → r ∈ v.addresses → Leads h vs r
  | step {r s : Ref} {c : Cell} : Leads h vs r → h.read r = some c → s ∈ c.addresses → Leads h vs s

/-- What a program has in hand that has some values: what they lead to, and what is still to be
made. -/
def InHand (h : Heap) (vs : List Value) (r : Ref) : Prop := h.Leads vs r ∨ h.size ≤ r.index

/-- Whether there is a tuple at an address. -/
def IsTuple (h : Heap) (r : Ref) : Prop := ∃ items, h.read r = some (.tuple items)

/-- Whether all that some values lead to is there. -/
def There (h : Heap) (vs : List Value) : Prop := ∀ r, h.Leads vs r → r.index < h.size

/-- Whether some values share no cell with others. -/
def Unshared (h : Heap) (vs ws : List Value) : Prop := ∀ r, h.Leads vs r → ¬ h.Leads ws r

/-- Whether some values share no cell with others, apart from tuples. -/
def Aside (h : Heap) (vs ws : List Value) : Prop :=
  ∀ r, h.Leads vs r → h.Leads ws r → h.IsTuple r

/-- Whether what is in hand can be worked with: it leads nowhere else, and what is made comes to
hand. -/
structure Ready (hands : Ref → Prop) (h : Heap) : Prop where
  closed : h.Closed hands
  spare : ∀ r : Ref, h.size ≤ r.index → hands r

variable {h h' h'' : Heap} {hands within : Ref → Prop} {vs ws : List Value} {v w : Value} {r : Ref}

theorem Held.mono {more : Ref → Prop} (hv : Held hands v) (hm : ∀ r, hands r → more r) :
    Held more v := fun r hr => hm r (hv r hr)

theorem held_of_addresses (hv : v.addresses = []) : Held hands v := fun r hr => by
  rw [hv] at hr
  cases hr

theorem held_ref (hr : hands r) : Held hands (.ref r) := fun s hs => by
  rwa [List.mem_singleton.mp hs]

theorem Held.ref (hv : Held hands (.ref r)) : hands r := hv r (List.mem_singleton.mpr rfl)

theorem heldKey_of_text? {key : Key} {name : String} (hk : key.text? = some name) :
    HeldKey hands key := fun r hr => by
  rw [Key.addresses_of_text? hk] at hr
  cases hr

theorem heldCell_list {items : List Value} :
    HeldCell hands (.list items) ↔ ∀ w ∈ items, Held hands w := by
  simp only [HeldCell, Cell.addresses, List.mem_flatMap, Held]
  exact ⟨fun hc w hw r hr => hc r ⟨w, hw, hr⟩, fun hc r ⟨w, hw, hr⟩ => hc w hw r hr⟩

theorem heldCell_tuple {items : List Value} :
    HeldCell hands (.tuple items) ↔ ∀ w ∈ items, Held hands w := heldCell_list

theorem heldCell_dict {entries : Entries Key Value} : HeldCell hands (.dict entries) ↔
    ∀ p ∈ entries, HeldKey hands p.1 ∧ Held hands p.2 := by
  simp only [HeldCell, Cell.addresses, List.mem_flatMap, List.mem_append, HeldKey, Held]
  refine ⟨fun hc p hp => ⟨fun r hr => hc r ⟨p, hp, .inl hr⟩, fun r hr => hc r ⟨p, hp, .inr hr⟩⟩, ?_⟩
  rintro hc r ⟨p, hp, hr | hr⟩
  · exact (hc p hp).1 r hr
  · exact (hc p hp).2 r hr

theorem HeldCell.mono {more : Ref → Prop} {c : Cell} (hc : HeldCell hands c)
    (hm : ∀ r, hands r → more r) : HeldCell more c := fun r hr => hm r (hc r hr)

theorem Held.of_live (hv : Held (h.Live hands) v) : Held hands v := hv.mono fun _ => And.left

/-- What is there stays there. -/
theorem Held.later (hv : Held (h.Live hands) v) (hsize : h.size ≤ h'.size) :
    Held (h'.Live hands) v := hv.mono fun _ hr => ⟨hr.1, Nat.lt_of_lt_of_le hr.2 hsize⟩

theorem HeldCell.later {c : Cell} (hc : HeldCell (h.Live hands) c) (hsize : h.size ≤ h'.size) :
    HeldCell (h'.Live hands) c := hc.mono fun _ hr => ⟨hr.1, Nat.lt_of_lt_of_le hr.2 hsize⟩

/-- Values in hand lead to what is in hand and there. -/
theorem leads_of_closed (hcl : h.Closed hands) (hv : ∀ v ∈ vs, Held (h.Live hands) v)
    (hr : h.Leads vs r) : h.Live hands r := by
  induction hr with
  | held hv' hr => exact hv _ hv' _ hr
  | step _ hc hs ih => exact hcl _ _ ih.1 hc _ hs

/-- What some values lead to leads nowhere else. -/
theorem There.closed (ht : h.There vs) : h.Closed (h.Leads vs) :=
  fun _ _ hr hc s hs => ⟨hr.step hc hs, ht s (hr.step hc hs)⟩

theorem There.held (ht : h.There vs) (hv : v ∈ vs) : Held (h.Live (h.Leads vs)) v :=
  fun r hr => ⟨.held hv hr, ht r (.held hv hr)⟩

theorem leads_self (r : Ref) : h.Leads [.ref r] r :=
  .held List.mem_cons_self List.mem_cons_self

/-- What some of the values lead to. -/
theorem Leads.mono (hsub : ∀ v ∈ vs, v ∈ ws) (hr : h.Leads vs r) : h.Leads ws r := by
  induction hr with
  | held hv hr => exact .held (hsub _ hv) hr
  | step _ hc hs ih => exact ih.step hc hs

/-- What some values lead to is led to by one of them. -/
theorem Leads.of_cons (hr : h.Leads (v :: vs) r) : h.Leads [v] r ∨ h.Leads vs r := by
  induction hr with
  | held hv hr =>
    rcases List.mem_cons.mp hv with rfl | hv
    · exact .inl (.held List.mem_cons_self hr)
    · exact .inr (.held hv hr)
  | step _ hc hs ih => exact ih.imp (·.step hc hs) (·.step hc hs)

/-- What leads from one of the cells that some values lead to is led to by the values. -/
theorem Leads.trans {s : Ref} (hr : h.Leads vs r) (hs : h.Leads [.ref r] s) : h.Leads vs s := by
  induction hs with
  | held hv hs =>
    rw [List.mem_singleton.mp hv] at hs
    rwa [List.mem_singleton.mp hs]
  | step _ hc hs ih => exact ih.step hc hs

/-- A heap that agrees on what some values lead to has them lead to nothing else. -/
theorem Leads.of_agree (ha : Agree (h.Leads vs) h h') (hr : h'.Leads vs r) : h.Leads vs r := by
  induction hr with
  | held hv hr => exact .held hv hr
  | step _ hc hs ih => exact ih.step ((ha.read_eq _ ih).symm.trans hc) hs

theorem Leads.agree (ha : Agree (h.Leads vs) h h') (hr : h.Leads vs r) : h'.Leads vs r := by
  induction hr with
  | held hv hr => exact .held hv hr
  | step hr hc hs ih => exact ih.step ((ha.read_eq _ hr).trans hc) hs

/-- What some values lead to, and what is still to be made, can be worked with. -/
theorem There.ready (ht : h.There vs) : Ready (h.InHand vs) h where
  closed r c hr hc s hs := by
    rcases hr with hr | hr
    · exact ⟨.inl (hr.step hc hs), ht s (hr.step hc hs)⟩
    · exact absurd (lt_size_of_read hc) (Nat.not_lt.mpr hr)
  spare _ hr := .inr hr

/-- What is still to be made can be worked with. -/
theorem ready_new (h : Heap) : Ready (fun r => h.size ≤ r.index) h where
  closed _ _ hr hc := absurd (lt_size_of_read hc) (Nat.not_lt.mpr hr)
  spare _ := id

/-- What is led to by values in hand is there. -/
theorem Ready.there (hr : Ready hands h) (hv : ∀ v ∈ vs, Held (h.Live hands) v) : h.There vs :=
  fun _ hl => (leads_of_closed hr.closed hv hl).2

theorem There.agree (ht : h.There vs) (ha : Agree (h.Leads vs) h h') : h'.There vs := fun r hr =>
  Nat.lt_of_lt_of_le (ht r (hr.of_agree ha)) ha.size_le

/-- What was there before is there, and nothing else has changed, so nothing leads further. -/
theorem There.agree_of_extends (ht : h.There vs) (he : Extends h h') : Agree (h.Leads vs) h h' :=
  he.mono ht

/-! ### Touches -/

/-- One thing that a program can do: make a cell of what is in hand, put something else into a cell in
hand that is no tuple, or make scalars. -/
inductive Touch (hands : Ref → Prop) (h : Heap) : Heap → Prop
  | make {c : Cell} : HeldCell (h.Live hands) c → Touch hands h (h.push c)
  | write {r : Ref} {c : Cell} : hands r → ¬ h.IsTuple r → HeldCell (h.Live hands) c →
      Touch hands h (h.write r c)
  | count {n : Nat} : Touch hands h { h with made := n }

/-- A run of touches. -/
abbrev Touches (hands : Ref → Prop) : Heap → Heap → Prop := Relation.ReflTransGen (Touch hands)

namespace Touch

theorem size_le (ht : Touch hands h h') : h.size ≤ h'.size := by
  cases ht with
  | make _ => simp
  | write _ _ _ => simp
  | count => exact Nat.le_refl _

/-- A touch changes nothing but cells in hand, and no tuples. -/
theorem read_eq (ht : Touch hands h h') (hlt : r.index < h.size) (hr : hands r → h.IsTuple r) :
    h'.read r = h.read r := by
  cases ht with
  | make _ => exact read_alloc_old h _ r hlt
  | write hs hn _ => exact read_write_of_ne h _ r _ fun heq => hn (heq ▸ hr (heq ▸ hs))
  | count => rfl

/-- What is in hand still leads to nothing else. -/
theorem closed (ht : Touch hands h h') (hcl : h.Closed hands) : h'.Closed hands := by
  intro r c hr hc
  suffices hold : HeldCell (h.Live hands) c from hold.later ht.size_le
  cases ht with
  | make hnew =>
    rcases read_push_cases hc with ⟨-, rfl⟩ | hold
    · exact hnew
    · exact hcl r c hr hold
  | write _ _ hnew =>
    rcases read_write_cases hc with ⟨-, rfl⟩ | ⟨-, hold⟩
    · exact hnew
    · exact hcl r c hr hold
  | count => exact hcl r c hr hc

end Touch

namespace Touches

theorem size_le (ht : Touches hands h h') : h.size ≤ h'.size := by
  induction ht with
  | refl => exact Nat.le_refl _
  | tail _ ht ih => exact Nat.le_trans ih ht.size_le

/-- A run of touches changes nothing but cells in hand, and no tuples. -/
theorem read_eq (ht : Touches hands h h') (hlt : r.index < h.size) (hr : hands r → h.IsTuple r) :
    h'.read r = h.read r := by
  induction ht with
  | refl => rfl
  | tail hrun ht ih =>
    have hlt' := Nat.lt_of_lt_of_le hlt (size_le hrun)
    refine (ht.read_eq hlt' fun hs => ?_).trans ih
    obtain ⟨items, hread⟩ := hr hs
    exact ⟨items, ih.trans hread⟩

theorem closed (ht : Touches hands h h') (hcl : h.Closed hands) : h'.Closed hands := by
  induction ht with
  | refl => exact hcl
  | tail _ ht ih => exact ht.closed ih

theorem ready (ht : Touches hands h h') (hr : Ready hands h) : Ready hands h' :=
  ⟨ht.closed hr.closed, fun r hlt => hr.spare r (Nat.le_trans ht.size_le hlt)⟩

/-- Cells that are out of hand, and tuples, stay as they are. -/
theorem agree (ht : Touches hands h h')
    (hw : ∀ r, within r → r.index < h.size ∧ (hands r → h.IsTuple r)) : Agree within h h' :=
  ⟨ht.size_le, fun r hr => ht.read_eq (hw r hr).1 (hw r hr).2⟩

/-- Making scalars is nothing but that. -/
theorem of_cells (hc : h'.cells = h.cells) : Touches hands h h' := by
  obtain ⟨cells, made⟩ := h'
  cases hc
  exact .single .count

theorem push {c : Cell} (hc : HeldCell (h.Live hands) c) : Touches hands h (h.push c) := .single (.make hc)

end Touches

/-! ### What is out of hand -/

/-- Values that share nothing but tuples with what is in hand stay as they are, and so does all that
they lead to. -/
theorem Aside.agree (ha : h.Aside vs ws) (hw : h.There ws) (ht : Touches (h.InHand vs) h h') :
    Agree (h.Leads ws) h h' :=
  ht.agree fun r hr => ⟨hw r hr, fun hs => hs.elim (fun hv => ha r hv hr) fun hge =>
    absurd (hw r hr) (Nat.not_lt.mpr hge)⟩

theorem Aside.symm (ha : h.Aside vs ws) : h.Aside ws vs := fun r hw hv => ha r hv hw

theorem Unshared.symm (hu : h.Unshared vs ws) : h.Unshared ws vs := fun r hw hv => hu r hv hw

theorem Unshared.aside (hu : h.Unshared vs ws) : h.Aside vs ws := fun r hv hw => absurd hw (hu r hv)

/-- What some values lead to, and what is still to be made, is not led to by what shares nothing with
the values. -/
theorem Unshared.not_inHand (hu : h.Unshared vs ws) (hw : h.There ws) (hr : h.Leads ws r) :
    ¬ h.InHand vs r := fun hhand =>
  hhand.elim (fun hv => hu r hv hr) (Nat.not_le.mpr (hw r hr))

/-- Values that share nothing share nothing as long as they stay as they are. -/
theorem Unshared.agree (hu : h.Unshared vs ws) (hv : Agree (h.Leads vs) h h')
    (hw : Agree (h.Leads ws) h h') : h'.Unshared vs ws :=
  fun r hr hr' => hu r (hr.of_agree hv) (hr'.of_agree hw)

theorem There.cons (hv : h.There [v]) (hvs : h.There vs) : h.There (v :: vs) := fun r hr =>
  hr.of_cons.elim (hv r) (hvs r)

theorem Unshared.cons (hv : h.Unshared [v] ws) (hvs : h.Unshared vs ws) :
    h.Unshared (v :: vs) ws := fun r hr => hr.of_cons.elim (hv r) (hvs r)

/-- What is done with cells that others do not lead to leaves these as they are, and gives values that
share nothing with them. -/
theorem unshared_of_touches (hr : Ready hands h) (ht : Touches hands h h')
    (hv : ∀ v ∈ vs, Held (h'.Live hands) v) (hw : h.There ws)
    (hout : ∀ r, h.Leads ws r → ¬ hands r) :
    Agree (h.Leads ws) h h' ∧ h'.There vs ∧ h'.Unshared vs ws := by
  have ha : Agree (h.Leads ws) h h' := ht.agree fun r hr => ⟨hw r hr, fun hs => absurd hs (hout r hr)⟩
  have hr' := ht.ready hr
  exact ⟨ha, hr'.there hv, fun r hrv hrw =>
    hout r (hrw.of_agree ha) (leads_of_closed hr'.closed hv hrv).1⟩

end Heap

end PageMeta
