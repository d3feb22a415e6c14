import PageMeta.Proofs.Schema.Check

/-!
# What a record says

A record that is read from a dictionary says what the dictionary says: it has the fields of its schema
in the order in which they are declared, each with the value that was given or with its default, and
then the other entries in the order of the dictionary.  So do the records that are read for its fields.

Texts, integers and numbers are the same again, but need not be the same objects; lists and
dictionaries are made anew around the same items.  Of what a shape says nothing about the value itself
is handed on.

## Key results

- `Renders`: whether a value says what another value says
- `check_renders`: the checker makes such a value, out of any value that has the declared type and
  meets its shape
- `read_renders`: so reading a record neither drops nor alters anything
-/

namespace PageMeta

namespace Schema

open Heap (Extends)

variable {h₀ h h' : Heap} {v u : Value} {entries : Entries Key Value} {α β γ : Type}

/-! ### Saying the same -/

/-- Whether two values are one text. -/
def SameText (v u : Value) : Prop := ∃ s, v.text? = some s ∧ u.text? = some s

/-- Whether entries have the same texts as keys, in the same order, with values that are related. -/
def SameNames (R : Value → Value → Prop) (es es' : Entries Key Value) : Prop :=
  List.Forall₂ (fun p q => (∃ name, p.1.text? = some name ∧ q.1.text? = some name) ∧ R p.2 q.2) es es'

/-- The entries of a dictionary that are no fields of a schema. -/
def extras (fields : List SchemaField) (entries : Entries Key Value) : Entries Key Value :=
  entries.filter fun p => fields.all fun f => p.1.text? != some f.name

mutual

/-- Whether a value in a later heap says what a value of the type that a shape declares says. -/
def Renders (h h' : Heap) : Shape → Value → Value → Prop
  | .anything, v, u => u = v
  | .text _, v, u => SameText v u
  | .flag, v, u => u = v
  | .integer _ _, v, u => ∃ n mark mark', v = .int n mark ∧ u = .int n mark'
  | .number _ _, v, u => ∃ x mark mark', v = .real x mark ∧ u = .real x mark'
  | .texts, v, u => ∃ vs us, h.cell? v = some (.list vs) ∧ h'.cell? u = some (.list us) ∧
      List.Forall₂ SameText vs us
  | .mapping item, v, u => ∃ es es', h.cell? v = some (.dict es) ∧ h'.cell? u = some (.dict es') ∧
      SameNames (fun a b => Renders h h' item a b) es es'
  | .record schema, v, u => RendersRecord h h' schema v u
  | .optional shape, v, u => v = .none ∧ u = .none ∨ Renders h h' shape v u
  | .textOrMapping, v, u => SameText v u ∨
      ∃ es es', h.cell? v = some (.dict es) ∧ h'.cell? u = some (.dict es') ∧
        SameNames (fun a b => b = a) es es'

/-- Whether a record has the fields that a dictionary gives it, in the order of the schema, and then
the other entries of the dictionary, in their order. -/
def RendersRecord (h h' : Heap) : RecordSchema → Value → Value → Prop
  | .mk name fields _, v, u => ∃ entries attributes others given declared kept,
      h.cell? v = some (.dict entries) ∧
      h'.cell? u = some (.record name attributes (some others) given) ∧
      h'.read attributes = some (.dict (Heap.textKeys declared)) ∧
      h'.read others = some (.dict kept) ∧
      RendersFields h h' fields entries declared ∧
      SameNames (fun a b => b = a) (extras fields entries) kept

/-- Whether the fields of a schema have the values that a dictionary gives them, or their defaults. -/
def RendersFields (h h' : Heap) : List SchemaField → Entries Key Value → Entries String Value → Prop
  | [], _, declared => declared = []
  | .mk name shape default :: rest, entries, declared =>
    ∃ u others, declared = (name, u) :: others ∧
      (match entries.get? (Key.ofText name) with
        | some v => Renders h h' shape v u
        | none => default = .value (.leaf u)) ∧
      RendersFields h h' rest entries others

end

/-! ### Later heaps -/

theorem cell?_later {c : Cell} (he : Extends h h') (hv : h.cell? v = some c) :
    h'.cell? v = some c := by
  obtain ⟨r, rfl⟩ := Heap.ref_of_cell? hv
  exact he.read_of_some hv

mutual

/-- What is said is still said when new cells are made. -/
theorem Renders.later (he : Extends h h') : ∀ {shape : Shape} {v u : Value},
    Renders h₀ h shape v u → Renders h₀ h' shape v u
  | .anything, v, u, hr | .text _, v, u, hr | .flag, v, u, hr | .integer _ _, v, u, hr
  | .number _ _, v, u, hr => by
    rw [Renders] at hr ⊢
    exact hr
  | .texts, v, u, hr => by
    rw [Renders] at hr ⊢
    obtain ⟨vs, us, hv, hu, hs⟩ := hr
    exact ⟨vs, us, hv, cell?_later he hu, hs⟩
  | .mapping item, v, u, hr => by
    rw [Renders] at hr ⊢
    obtain ⟨es, es', hv, hu, hs⟩ := hr
    refine ⟨es, es', hv, cell?_later he hu, List.Forall₂.imp (fun p q hpq => ?_) hs⟩
    exact ⟨hpq.1, Renders.later he hpq.2⟩
  | .record schema, v, u, hr => by
    rw [Renders] at hr ⊢
    exact RendersRecord.later he hr
  | .optional shape, v, u, hr => by
    rw [Renders] at hr ⊢
    exact hr.imp_right (Renders.later he)
  | .textOrMapping, v, u, hr => by
    rw [Renders] at hr ⊢
    refine hr.imp_right ?_
    rintro ⟨es, es', hv, hu, hs⟩
    exact ⟨es, es', hv, cell?_later he hu, hs⟩

/-- `Renders.later` for a record. -/
theorem RendersRecord.later (he : Extends h h') : ∀ {schema : RecordSchema} {v u : Value},
    RendersRecord h₀ h schema v u → RendersRecord h₀ h' schema v u
  | .mk name fields _, v, u, hr => by
    rw [RendersRecord] at hr ⊢
    obtain ⟨entries, attributes, others, given, declared, kept, hv, hu, hfields, hothers, hf, hk⟩ := hr
    exact ⟨entries, attributes, others, given, declared, kept, hv, cell?_later he hu,
      he.read_of_some hfields, he.read_of_some hothers, RendersFields.later he hf, hk⟩

/-- `Renders.later` for the fields of a record. -/
theorem RendersFields.later (he : Extends h h') : ∀ {fields : List SchemaField}
    {entries : Entries Key Value} {declared : Entries String Value},
    RendersFields h₀ h fields entries declared → RendersFields h₀ h' fields entries declared
  | [], _, _, hr => by
    rw [RendersFields] at hr ⊢
    exact hr
  | .mk name shape default :: rest, entries, declared, hr => by
    rw [RendersFields] at hr ⊢
    obtain ⟨u, others, hd, hfirst, hrest⟩ := hr
    refine ⟨u, others, hd, ?_, RendersFields.later he hrest⟩
    cases hget : entries.get? (Key.ofText name) with
    | none =>
      rw [hget] at hfirst
      exact hfirst
    | some v =>
      rw [hget] at hfirst
      exact Renders.later he hfirst

end

/-! ### Keys -/

theorem SameNames.imp {R S : Value → Value → Prop} {es es' : Entries Key Value}
    (hs : SameNames R es es') (hrs : ∀ a b, R a b → S a b) : SameNames S es es' :=
  List.Forall₂.imp (fun _ _ hpq => ⟨hpq.1, hrs _ _ hpq.2⟩) hs

/-- Entries with the same names have keys that are apart on either side. -/
theorem SameNames.apart {R : Value → Value → Prop} {es es' : Entries Key Value}
    (hs : SameNames R es es') (ha : es.Apart) : es'.Apart := by
  -- both match one list of names
  have hnamed : ∃ named : Entries String Unit,
      Entries.Match (fun _ _ _ => True) named es ∧ Entries.Match (fun _ _ _ => True) named es' := by
    clear ha
    induction hs with
    | nil => exact ⟨[], .nil, .nil⟩
    | cons hpq _ ih =>
      obtain ⟨⟨name, hp, hq⟩, -⟩ := hpq
      obtain ⟨named, hm, hm'⟩ := ih
      exact ⟨(name, ()) :: named, .cons ⟨hp, trivial⟩ hm, .cons ⟨hq, trivial⟩ hm'⟩
  obtain ⟨named, hm, hm'⟩ := hnamed
  exact hm'.apart_iff.mpr (hm.apart_iff.mp ha)

/-! ### Giving a result -/

/-- Whether an action passes something that has a property.  It makes new cells only. -/
structure Gives (h : Heap) (x : Heap.Action (Checked α)) (R : Heap → α → Prop) : Prop where
  run : ∃ a h', x h = .ok (.ok a) h' ∧ Extends h h' ∧ R h' a

namespace Gives

variable {x : Heap.Action (Checked α)} {R : Heap → α → Prop} {S : Heap → β → Prop}

theorem pure {a : α} (ha : R h a) : Gives h (pure (.ok a)) R :=
  ⟨a, h, rfl, Heap.Agree.refl _ _, ha⟩

theorem mono {R' : Heap → α → Prop} (hx : Gives h x R) (hr : ∀ h' a, R h' a → R' h' a) :
    Gives h x R' := by
  obtain ⟨a, h', hrun, he, ha⟩ := hx
  exact ⟨a, h', hrun, he, hr h' a ha⟩

theorem bind {f : Checked α → Heap.Action (Checked β)} (hx : Gives h x R)
    (hf : ∀ a h', Extends h h' → R h' a → Gives h' (f (.ok a)) S) : Gives h (x >>= f) S := by
  obtain ⟨a, h₁, hrun, he, ha⟩ := hx
  obtain ⟨b, h₂, hrun', he', hb⟩ := hf a h₁ he ha
  exact ⟨b, h₂, (run_bind_ok hrun).trans hrun', he.trans he', hb⟩

/-- What comes after an action that passes nothing. -/
theorem of_bind {y : Heap.Action β} {f : β → Heap.Action (Checked α)} {b : β} (hy : y h = .ok b h')
    (he : Extends h h') (hf : Gives h' (f b) R) : Gives h (y >>= f) R := by
  obtain ⟨a, h₂, hrun, he', ha⟩ := hf
  exact ⟨a, h₂, (run_bind_ok hy).trans hrun, he.trans he', ha⟩

theorem get_bind {f : Heap → Heap.Action (Checked α)} (hf : Gives h (f h) R) :
    Gives h (get >>= f) R := ⟨hf.run⟩

/-- A new cell is passed. -/
theorem alloc {c : Cell} {R : Heap → Value → Prop}
    (hr : ∀ r h', Extends h h' → h'.read r = some c → R h' (.ref r)) :
    Gives h (Except.ok <$> (do return .ref (← Heap.alloc c))) R :=
  ⟨_, _, rfl, Heap.extends_push h c, hr _ _ (Heap.extends_push h c) (Heap.read_alloc_new h c)⟩

end Gives

/-! ### Scalars -/

/-- A text that is made stays the same text. -/
theorem settle_text {s : String} (hv : v.text? = some s) (h : Heap) :
    ∃ u h', Heap.settle v h = .ok u h' ∧ Extends h h' ∧ u.text? = some s := by
  obtain ⟨mark, h', hrun, -, hc⟩ := Heap.settle_marked h v
  exact ⟨v.withMark mark, h', hrun, Heap.extends_of_cells hc, (v.text?_withMark mark).trans hv⟩

theorem ofScalar_text {s : String} {least : Nat} (hv : v.text? = some s)
    (hlong : least ≤ s.length) :
    Gives h (ofScalar v (readText .usual least v)) fun _ u => SameText v u := by
  obtain ⟨w, hw, hs⟩ := textOf_text hv
  have hread : readText .usual least v = .ok w := by
    simp only [readText, hw, bind, Except.bind, hs, Option.getD_some]
    rw [if_neg (Nat.not_lt.mpr hlong)]
  obtain ⟨u, h', hsettle, he, hu⟩ := settle_text hs h
  rw [hread]
  refine ⟨u, h', ?_, he, s, hv, hu⟩
  simp only [ofScalar, Functor.map, EStateM.map, hsettle]

theorem ofScalar_flag (b : Bool) :
    Gives h (ofScalar (.bool b) (.bool <$> readFlag .usual (.bool b))) fun _ u => u = .bool b :=
  ⟨_, h, rfl, .refl _ _, rfl⟩

theorem settle_int (n : Int) (mark : Mark) (h : Heap) :
    ∃ mark' h', Heap.settle (.int n mark) h = .ok (.int n mark') h' ∧ Extends h h' := by
  obtain ⟨mark', h', hrun, -, hc⟩ := Heap.settle_marked h (.int n mark)
  exact ⟨mark', h', hrun, Heap.extends_of_cells hc⟩

theorem settle_real (x : Binary64) (mark : Mark) (h : Heap) :
    ∃ mark' h', Heap.settle (.real x mark) h = .ok (.real x mark') h' ∧ Extends h h' := by
  obtain ⟨mark', h', hrun, -, hc⟩ := Heap.settle_marked h (.real x mark)
  exact ⟨mark', h', hrun, Heap.extends_of_cells hc⟩

/-- What is within its bounds passes them as it is. -/
theorem eq_of_bounds {least most : Option Int} {above below : Int → Bool}
    {upper lower : Int → IssueKind} (hb : (∀ b ∈ most, above b = false) ∧ ∀ b ∈ least, below b = false) :
    (match most.filter above, least.filter below with
      | some b, _ => .error (upper b)
      | none, some b => .error (lower b)
      | none, none => .ok v : Except IssueKind Value) = .ok v := by
  have hmost : most.filter above = none := by
    rw [Option.filter_eq_none_iff]
    exact fun b hm => by simp [hb.1 b hm]
  have hleast : least.filter below = none := by
    rw [Option.filter_eq_none_iff]
    exact fun b hm => by simp [hb.2 b hm]
  rw [hmost, hleast]

theorem ofScalar_integer {n : Int} {mark : Mark} {least most : Option Int}
    (hmost : ∀ b ∈ most, n ≤ b) (hleast : ∀ b ∈ least, b ≤ n) :
    Gives h (ofScalar (.int n mark) ((readInteger .usual (.int n mark)).bind
      (boundInteger least most))) fun _ u => ∃ mark', u = .int n mark' := by
  have hread : (readInteger .usual (.int n mark)).bind (boundInteger least most) =
      .ok (.int n mark) :=
    eq_of_bounds ⟨fun b hb => decide_eq_false (Int.not_lt.mpr (hmost b hb)),
      fun b hb => decide_eq_false (Int.not_lt.mpr (hleast b hb))⟩
  obtain ⟨mark', h', hsettle, he⟩ := settle_int n mark h
  rw [hread]
  refine ⟨.int n mark', h', ?_, he, mark', rfl⟩
  simp only [ofScalar, Functor.map, EStateM.map, hsettle]

theorem ofScalar_number {x : Binary64} {mark : Mark} {least most : Option Int}
    (hmost : ∀ b ∈ most, isAbove x b = false) (hleast : ∀ b ∈ least, isBelow x b = false) :
    Gives h (ofScalar (.real x mark) ((readNumber .usual (.real x mark)).bind
      (boundNumber least most))) fun _ u => ∃ mark', u = .real x mark' := by
  have hread : (readNumber .usual (.real x mark)).bind (boundNumber least most) =
      .ok (.real x mark) := eq_of_bounds ⟨hmost, hleast⟩
  obtain ⟨mark', h', hsettle, he⟩ := settle_real x mark h
  rw [hread]
  refine ⟨.real x mark', h', ?_, he, mark', rfl⟩
  simp only [ofScalar, Functor.map, EStateM.map, hsettle]

/-! ### Lists and dictionaries -/

theorem checkTexts_gives : ∀ (vs : List Value) (n : Nat) {h : Heap},
    (∀ v ∈ vs, ∃ s, v.text? = some s) →
      Gives h (checkTexts .usual n vs) fun _ us => List.Forall₂ SameText vs us
  | [], _, _, _ => .pure .nil
  | v :: rest, n, h, hs => by
    obtain ⟨⟨s, hv⟩, hrest⟩ := List.forall_mem_cons.mp hs
    rw [checkTexts]
    refine (ofScalar_text hv (Nat.zero_le _)).bind fun u h₁ _ hu => ?_
    exact (checkTexts_gives rest (n + 1) hrest).bind fun us h₂ _ hus => .pure (.cons hu hus)

theorem checkKey_gives {key : Key} {name : String} (hk : key.text? = some name) :
    Gives h (checkKey .usual key) fun _ key' => key'.text? = some name := by
  have hvalue : key.value.text? = some name := by
    cases key with
    | atom v => exact hk
    | tuple => cases hk
  refine .get_bind ((ofScalar_text hvalue (Nat.zero_le _)).bind fun u h₁ _ hu => .pure ?_)
  obtain ⟨s, hs, hu⟩ := hu
  rw [hvalue] at hs
  cases hs
  exact hu

/-- Entries with texts as keys keep their names, and each value becomes what it is read as. -/
theorem checkEntries_gives {checkItem : Value → Heap.Action (Checked Value)}
    (R : Heap → Value → Value → Prop)
    (hlater : ∀ h h' v u, Extends h h' → R h v u → R h' v u) :
    ∀ (es : Entries Key Value) {h : Heap}, AllTexts es →
      (∀ h', Extends h h' → ∀ p ∈ es, Gives h' (checkItem p.2) fun h'' u => R h'' p.2 u) →
      Gives h (checkEntries .usual checkItem es) fun h' pairs => SameNames (R h') es pairs
  | [], _, _, _ => .pure .nil
  | (k, v) :: rest, h, hkeys, hitems => by
    obtain ⟨⟨name, hname⟩, hkeys⟩ := List.forall_mem_cons.mp hkeys
    rw [checkEntries]
    refine .get_bind ((checkKey_gives hname).bind fun key h₁ he₁ hkey => ?_)
    refine (hitems h₁ he₁ _ List.mem_cons_self).bind fun u h₂ he₂ hu => ?_
    have hrest := checkEntries_gives R hlater rest (h := h₂) hkeys fun h' he p hp =>
      hitems h' ((he₁.trans he₂).trans he) p (List.mem_cons_of_mem _ hp)
    refine hrest.bind fun pairs h₃ he₃ hpairs => .pure ?_
    exact .cons ⟨⟨name, hname, hkey⟩, hlater _ _ _ _ he₃ hu⟩ hpairs

/-- The keys of a dictionary are apart, so it is made anew entry by entry. -/
theorem checkMapping_gives {checkItem : Value → Heap.Action (Checked Value)}
    (R : Heap → Value → Value → Prop)
    (hlater : ∀ h h' v u, Extends h h' → R h v u → R h' v u)
    (hv : h.cell? v = some (.dict entries)) (hkeys : AllTexts entries) (ha : entries.Apart)
    (hitems : ∀ h', Extends h h' → ∀ p ∈ entries,
      Gives h' (checkItem p.2) fun h'' u => R h'' p.2 u) :
    Gives h (checkMapping .usual checkItem v) fun h' u =>
      ∃ es', h'.cell? u = some (.dict es') ∧ SameNames (R h') entries es' := by
  refine .get_bind ?_
  simp only [hv, foreignIssue?_usual]
  refine (checkEntries_gives R hlater entries hkeys hitems).bind fun pairs h₁ _ hpairs => ?_
  show Gives h₁ (Except.ok <$> Heap.newDict (Entries.ofList pairs)) _
  rw [(hpairs.apart ha).ofList_eq_self]
  exact .alloc fun r h₂ he hr => ⟨pairs, hr, hpairs.imp fun _ _ => hlater _ _ _ _ he⟩

theorem checkList_gives {items : List Value} (hv : h.cell? v = some (.list items))
    (hs : ∀ u ∈ items, ∃ s, u.text? = some s) :
    Gives h (checkList .usual v) fun h' u =>
      ∃ us, h'.cell? u = some (.list us) ∧ List.Forall₂ SameText items us := by
  have hitems : listItems .usual v h = .ok (some items) h := by
    simp only [listItems, bind, EStateM.bind, run_get, hv]
    rfl
  refine .of_bind hitems (.refl _ _) ?_
  refine (checkTexts_gives items 0 hs).bind fun us h₁ _ hus => ?_
  exact .alloc fun r h₂ _ hr => ⟨us, hr, hus⟩

/-! ### The other entries -/

theorem text?_value {key : Key} {name : String} (hk : key.text? = some name) :
    key.value.text? = some name := by
  cases key with
  | atom v => exact hk
  | tuple => cases hk

/-- The entries that a schema has no field for are those that are no fields of it. -/
theorem surplus_eq_extras {name : String} {fields : List SchemaField} {keeps : Bool}
    (hkeys : AllTexts entries) :
    (Origin.entries entries).surplus (.mk name fields keeps) = extras fields entries := by
  refine List.filter_congr fun p hp => ?_
  obtain ⟨n, hn⟩ := hkeys p hp
  simp only [text?_value hn, hn, Option.any_some, RecordSchema.hasField, RecordSchema.fields,
    List.not_any_eq_all_not]
  refine List.all_congr rfl fun f => ?_
  simp [bne, eq_comm]

/-- Entries with texts as keys are all kept. -/
theorem checkSurplus_kept (h : Heap) : ∀ {es : Entries Key Value}, AllTexts es →
    checkSurplus h .kept es = .ok es
  | [], _ => rfl
  | (k, v) :: rest, hkeys => by
    obtain ⟨⟨name, hname⟩, hkeys⟩ := List.forall_mem_cons.mp hkeys
    simp only [checkSurplus, text?_value hname, checkSurplus_kept h hkeys]
    rfl

/-- They keep their names and values. -/
theorem keptEntries_run : ∀ {es : Entries Key Value} (h : Heap), AllTexts es →
    ∃ kept h', keptEntries es h = .ok kept h' ∧ Extends h h' ∧
      SameNames (fun a b => b = a) es kept
  | [], h, _ => ⟨[], h, rfl, .refl _ _, .nil⟩
  | (k, v) :: rest, h, hkeys => by
    obtain ⟨⟨name, hname⟩, hkeys⟩ := List.forall_mem_cons.mp hkeys
    obtain ⟨key, h₁, hkey, he₁, htext⟩ : ∃ key h₁, keptKey k h = .ok key h₁ ∧ Extends h h₁ ∧
        key.text? = some name := by
      -- only the state of a feature is a text that is made plain
      cases k with
      | tuple => cases hname
      | atom u =>
        cases u with
        | feature state =>
          cases hname
          obtain ⟨u, h₁, hsettle, he, hu⟩ := settle_text (text?_pooledText state.text) h
          refine ⟨.atom u, h₁, ?_, he, hu⟩
          simp only [keptKey, Key.value, Functor.map, EStateM.map, hsettle]
        | _ => exact ⟨_, h, rfl, .refl _ _, hname⟩
    obtain ⟨kept, h₂, hkept, he₂, hsame⟩ := keptEntries_run h₁ hkeys
    exact ⟨(key, v) :: kept, h₂, (run_bind_ok hkey).trans (run_bind_ok hkept), he₁.trans he₂,
      .cons ⟨⟨name, hname, htext⟩, rfl⟩ hsame⟩

/-- What was read becomes the fields of a record, and what is kept its other entries. -/
theorem assembleRead_gives (name : String) (values : List (String × Value × Bool))
    {kept : Entries Key Value} (hkeys : AllTexts kept) :
    Gives h (Except.ok <$> assembleRead name .kept values kept) fun h' u =>
      ∃ attributes others given kept', h'.cell? u = some (.record name attributes (some others) given) ∧
        h'.read attributes = some (.dict (Heap.textKeys (values.map fun p => (p.1, p.2.1)))) ∧
        h'.read others = some (.dict kept') ∧ SameNames (fun a b => b = a) kept kept' := by
  obtain ⟨kept', h₁, hkept, he₁, hsame⟩ := keptEntries_run h hkeys
  let fields := values.map fun p => (p.1, p.2.1)
  let given := (values.filter (·.2.2)).map (fun p => Key.ofText p.1) ++ kept'.keys
  -- the fields, the other entries and the record get the next three cells
  let h₂ := h₁.push (.dict (Heap.textKeys fields))
  let h₃ := h₂.push (.dict kept')
  let h₄ := h₃.push (.record name h₁.next (some h₂.next) given)
  have he₂ : Extends h₁ h₂ := Heap.extends_push _ _
  have he₃ : Extends h₂ h₃ := Heap.extends_push _ _
  have he₄ : Extends h₃ h₄ := Heap.extends_push _ _
  have hrun : assembleRead name .kept values kept h = .ok (.ref h₃.next) h₄ :=
    (run_bind_ok hkept).trans rfl
  refine ⟨.ref h₃.next, h₄, by simp only [Functor.map, EStateM.map, hrun],
    he₁.trans (he₂.trans (he₃.trans he₄)), h₁.next, h₂.next, given, kept',
    Heap.read_alloc_new _ _, ?_, ?_, hsame⟩
  · exact (he₃.trans he₄).read_of_some (Heap.read_alloc_new h₁ _)
  · exact he₄.read_of_some (Heap.read_alloc_new h₂ _)

/-! ### Open schemas -/

/-- Whether a default, if there is one, is a scalar that is made. -/
def isScalarDefault : FieldDefault → Bool
  | .required => true
  | .value (.leaf v) => v.isMade
  | _ => false

mutual

/-- Whether the records that a shape is about keep all entries, and have scalars as defaults. -/
def isOpen : Shape → Bool
  | .mapping item => isOpen item
  | .record schema => isOpenRecord schema
  | .optional shape => isOpen shape
  | .anything | .text _ | .flag | .integer _ _ | .number _ _ | .texts | .textOrMapping => true

/-- `isOpen` for a schema. -/
def isOpenRecord : RecordSchema → Bool
  | .mk _ fields keeps => keeps && areOpen fields

/-- `isOpen` for the fields of a schema. -/
def areOpen : List SchemaField → Bool
  | [] => true
  | .mk _ shape default :: rest => isScalarDefault default && isOpen shape && areOpen rest

end

/-- A scalar that is a default is the value of the field. -/
theorem makeDefault_scalar {default : FieldDefault} (make : Heap.Action Value)
    (hs : isScalarDefault default = true) (hd : default ≠ .required) (h : Heap) :
    ∃ u, makeDefault make default h = .ok u h ∧ default = .value (.leaf u) := by
  cases default with
  | required => exact absurd rfl hd
  | record | recordUnder => cases hs
  | value t =>
    cases t with
    | list | map => cases hs
    | leaf v =>
      refine ⟨v, ?_, rfl⟩
      show Heap.build .plain (.leaf v) h = _
      rw [Heap.build, Heap.settle_of_isMade hs]
      rfl

/-! ### Shapes -/

/-- What is no text is complained about by those who read texts. -/
theorem ofScalar_noText {r : Ref} (least : Nat) (h : Heap) : ∃ issues,
    ofScalar (.ref r) (readText .usual least (.ref r)) h = .ok (.error issues) h := ⟨_, rfl⟩

/-- A record of the fields that were read and of the other entries. -/
theorem assembleChecked_gives (name : String) (fields : List SchemaField)
    (hkeys : AllTexts entries) (values : List (String × Value × Bool)) :
    Gives h (assembleChecked name fields true entries (.ok values)) fun h' u =>
      ∃ attributes others given kept, h'.cell? u = some (.record name attributes (some others) given) ∧
        h'.read attributes = some (.dict (Heap.textKeys (values.map fun p => (p.1, p.2.1)))) ∧
        h'.read others = some (.dict kept) ∧
        SameNames (fun a b => b = a) (extras fields entries) kept := by
  have hextras : AllTexts (extras fields entries) := fun p hp => hkeys p (List.mem_of_mem_filter hp)
  have hsurplus : Manner.usual.surplusFor true = .kept := rfl
  refine .get_bind ?_
  simp only [hsurplus, surplus_eq_extras hkeys, checkSurplus_kept h hextras]
  exact assembleRead_gives name values hextras

mutual

/-- The checker passes what a value says that has the declared type and meets its shape, if the keys of
every dictionary are apart. -/
theorem check_renders (hd : ∀ r es, h₀.read r = some (.dict es) → AllTexts es → es.Apart) :
    ∀ {shape : Shape} {v : Value} {h : Heap}, isOpen shape = true → Extends h₀ h →
      Typed h₀ shape v → Meets h₀ shape v →
      Gives h (check .usual shape v) fun h' u => Renders h₀ h' shape v u
  | .anything, v, h, _, _, _, _ => by
    simp only [check, Renders]
    exact .pure rfl
  | .text least, v, h, _, _, ht, hm => by
    rw [Typed] at ht
    obtain ⟨s, hs⟩ := ht
    rw [Meets] at hm
    simp only [check, Renders]
    exact ofScalar_text hs (hm s hs)
  | .flag, v, h, _, _, ht, _ => by
    rw [Typed] at ht
    obtain ⟨b, rfl⟩ := ht
    simp only [check, Renders]
    exact ofScalar_flag b
  | .integer least most, v, h, _, _, ht, hm => by
    rw [Typed] at ht
    obtain ⟨n, mark, rfl⟩ := ht
    rw [Meets] at hm
    obtain ⟨hmost, hleast⟩ := hm n rfl
    simp only [check, Renders]
    exact (ofScalar_integer hmost hleast).mono fun _ u ⟨mark', hu⟩ => ⟨n, mark, mark', rfl, hu⟩
  | .number least most, v, h, _, _, ht, hm => by
    rw [Typed] at ht
    obtain ⟨x, mark, rfl⟩ := ht
    rw [Meets] at hm
    obtain ⟨hmost, hleast⟩ := hm x mark rfl
    simp only [check, Renders]
    exact (ofScalar_number hmost hleast).mono fun _ u ⟨mark', hu⟩ => ⟨x, mark, mark', rfl, hu⟩
  | .texts, v, h, _, he, ht, _ => by
    rw [Typed] at ht
    obtain ⟨items, hi, hs⟩ := ht
    simp only [check, Renders]
    exact (checkList_gives (cell?_later he hi) hs).mono fun _ u ⟨us, hu, hus⟩ =>
      ⟨items, us, hi, hu, hus⟩
  | .mapping item, v, h, ho, he, ht, hm => by
    rw [Typed] at ht
    obtain ⟨entries, hv, hkeys, hitems⟩ := ht
    rw [Meets] at hm
    rw [isOpen] at ho
    obtain ⟨r, rfl⟩ := Heap.ref_of_cell? hv
    simp only [check, Renders]
    -- an item is checked in the heap that the items before it leave
    refine (checkMapping_gives (fun h' a b => Renders h₀ h' item a b)
      (fun _ _ _ _ he' => Renders.later he') (cell?_later he hv) hkeys (hd r entries hv hkeys)
      fun h' he' p hp => check_renders hd ho (he.trans he') (hitems p hp)
        (hm entries hv p hp)).mono ?_
    exact fun _ u ⟨es', hu, hes⟩ => ⟨entries, es', hv, hu, hes⟩
  | .record schema, v, h, ho, he, ht, hm => by
    rw [Typed] at ht
    rw [Meets] at hm
    rw [isOpen] at ho
    simp only [check, Renders]
    exact checkRecord_renders hd ho he ht hm
  | .optional shape, v, h, ho, he, ht, hm => by
    rw [Typed] at ht
    rw [Meets] at hm
    rw [isOpen] at ho
    simp only [Renders]
    cases v with
    | none =>
      rw [check]
      exact .pure (.inl ⟨rfl, rfl⟩)
    | _ =>
      rw [check]
      swap
      · simp
      · exact (check_renders hd ho he (ht.resolve_left (by simp)) (hm.resolve_left (by simp))).mono
          fun _ _ => .inr
  | .textOrMapping, v, h, _, he, ht, _ => by
    rw [Typed] at ht
    simp only [check, Renders]
    rcases ht with ⟨s, hs⟩ | ⟨entries, hv, hkeys⟩
    · exact (ofScalar_text hs (Nat.zero_le _)).bind fun u h₁ _ hu => .pure (.inl hu)
    · -- what is no text is read as a dictionary
      obtain ⟨r, rfl⟩ := Heap.ref_of_cell? hv
      obtain ⟨issues, hno⟩ := ofScalar_noText (r := r) 0 h
      refine .of_bind hno (.refl _ _) ?_
      refine (checkMapping_gives (fun _ a b => b = a) (fun _ _ _ _ _ => id) (cell?_later he hv) hkeys
        (hd r entries hv hkeys) fun _ _ _ _ => ⟨_, _, rfl, .refl _ _, rfl⟩).bind
        fun u h₁ _ ⟨es', hu, hes⟩ => .pure ?_
      exact .inr ⟨entries, es', hv, hu, hes⟩

/-- `check_renders` for a record. -/
theorem checkRecord_renders (hd : ∀ r es, h₀.read r = some (.dict es) → AllTexts es → es.Apart) :
    ∀ {schema : RecordSchema} {v : Value} {h : Heap}, isOpenRecord schema = true → Extends h₀ h →
      TypedRecord h₀ schema v → MeetsRecord h₀ schema v →
      Gives h (checkRecord .usual schema v) fun h' u => RendersRecord h₀ h' schema v u
  | .mk name fields keeps, v, h, ho, he, ht, hm => by
    rw [TypedRecord] at ht
    obtain ⟨entries, hv, hkeys, hfields⟩ := ht
    rw [MeetsRecord] at hm
    simp only [isOpenRecord, Bool.and_eq_true] at ho
    obtain ⟨rfl, hopen⟩ := ho
    refine ⟨checkRecord_run (cell?_later he hv) ▸ Gives.run ?_⟩
    refine (checkFields_renders hd v hopen he hfields (hm entries hv)).bind
      fun values h₁ _ hvalues => ?_
    obtain ⟨u, h₂, hrun, he₂, attributes, others, given, kept, hu, hattributes, hothers, hkept⟩ :=
      assembleChecked_gives (h := h₁) name fields hkeys values
    refine ⟨u, h₂, hrun, he₂, ?_⟩
    rw [RendersRecord]
    exact ⟨entries, attributes, others, given, _, kept, hv, hu, hattributes, hothers,
      RendersFields.later he₂ hvalues, hkept⟩

/-- `check_renders` for the fields of a record. -/
theorem checkFields_renders (hd : ∀ r es, h₀.read r = some (.dict es) → AllTexts es → es.Apart)
    (whole : Value) : ∀ {fields : List SchemaField} {entries : Entries Key Value} {h : Heap},
      areOpen fields = true → Extends h₀ h → TypedFields h₀ fields entries →
      MeetsFields h₀ fields entries →
      Gives h (checkFields .usual whole (.entries entries) fields) fun h' values =>
        RendersFields h₀ h' fields entries (values.map fun p => (p.1, p.2.1))
  | [], _, _, _, _, _, _ => by
    simp only [checkFields, RendersFields]
    exact .pure rfl
  | .mk name shape default :: rest, entries, h, ho, he, ht, hm => by
    simp only [areOpen, Bool.and_eq_true] at ho
    obtain ⟨⟨hscalar, hshape⟩, hopen⟩ := ho
    rw [TypedFields] at ht
    obtain ⟨hfirst, hrest⟩ := ht
    rw [MeetsFields] at hm
    obtain ⟨hmeets, hmrest⟩ := hm
    cases hget : entries.get? (Key.ofText name) with
    | some v =>
      rw [hget] at hmeets
      rw [checkFields_given hget]
      refine (check_renders hd hshape he (hfirst v hget) hmeets).bind fun u h₁ he₁ hu => ?_
      refine (checkFields_renders hd whole hopen (he.trans he₁) hrest hmrest).bind
        fun values h₂ he₂ hvalues => .pure ?_
      rw [RendersFields]
      refine ⟨u, _, rfl, ?_, hvalues⟩
      rw [hget]
      exact Renders.later he₂ hu
    | none =>
      rw [hget] at hmeets
      rw [checkFields_default hget hmeets]
      obtain ⟨u, hmake, hdefault⟩ := makeDefault_scalar (instantiate shape) hscalar hmeets h
      refine .of_bind hmake (.refl _ _) ?_
      refine (checkFields_renders hd whole hopen he hrest hmrest).bind
        fun values h₁ _ hvalues => .pure ?_
      rw [RendersFields]
      refine ⟨u, _, rfl, ?_, hvalues⟩
      rw [hget]
      exact hdefault

end

/-- Reading a dictionary as a record neither drops nor alters what it says, if it has the declared types
and meets the schema. -/
theorem read_renders {schema : RecordSchema} (ho : isOpenRecord schema = true)
    (hd : ∀ r es, h.read r = some (.dict es) → AllTexts es → es.Apart)
    (ht : TypedRecord h schema v) (hm : MeetsRecord h schema v) :
    ∃ u h', read .usual schema v h = .ok u h' ∧ Extends h h' ∧ RendersRecord h h' schema v u := by
  obtain ⟨u, h', hrun, he, hu⟩ := checkRecord_renders hd ho (.refl _ h) ht hm
  exact ⟨u, h', run_bind_ok hrun, he, hu⟩

/-! ### Detached copies -/

theorem text?_mapValues_rename (f : Ref → Ref) (key : Key) :
    (key.mapValues (Value.rename f)).text? = key.text? := by
  cases key with
  | tuple => rfl
  | atom v =>
    show (v.rename f).text? = v.text?
    cases v with
    | method receiver owner name mark =>
      rw [Value.rename]
      split <;> rfl
    | _ => rfl

/-- The keys of a copied dictionary are as far apart as those of the dictionary. -/
theorem apart_withCopies (copied : List Ref)
    (hd : ∀ r es, h.read r = some (.dict es) → AllTexts es → es.Apart) :
    ∀ r es, (h.withCopies copied).read r = some (.dict es) → AllTexts es → es.Apart := by
  intro r es hr hkeys
  by_cases hold : r.index < h.size
  · exact hd r es (((Heap.withCopies_extends h copied).read_eq r hold).symm.trans hr) hkeys
  · -- a new cell is the copy of one that was there
    obtain ⟨i, rfl⟩ : ∃ i, r = ⟨h.size + i⟩ := by
      obtain ⟨i, hi⟩ := Nat.exists_eq_add_of_le (Nat.le_of_not_lt hold)
      exact ⟨i, congrArg Ref.mk hi⟩
    rw [Heap.read_withCopies] at hr
    obtain ⟨s, -, hs⟩ := Option.map_eq_some_iff.mp hr
    cases hread : h.read s with
    | none =>
      rw [hread] at hs
      cases hs
    | some cell =>
      rw [hread] at hs
      cases cell with
      | dict es₀ =>
        injection hs with hs
        have hsame : SameNames (fun _ _ => True) es₀ es := by
          rw [← hs]
          refine List.forall₂_map_right_iff.mpr (List.forall₂_same.mpr fun p hp => ⟨?_, trivial⟩)
          obtain ⟨name, hname⟩ := hkeys _ (hs ▸ List.mem_map_of_mem hp)
          exact ⟨name, (text?_mapValues_rename _ _).symm.trans hname, hname⟩
        refine hsame.apart (hd s es₀ hread fun p hp => ?_)
        obtain ⟨name, hname⟩ := hkeys _ (hs ▸ List.mem_map_of_mem hp)
        exact ⟨name, (text?_mapValues_rename _ _).symm.trans hname⟩
      | _ => cases hs

end Schema

end PageMeta
