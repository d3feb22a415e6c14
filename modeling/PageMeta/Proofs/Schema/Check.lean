import PageMeta.Proofs.Schema.Instance
import PageMeta.Proofs.Schema.Typed

/-!
# Checking values of the types that are declared

On values of the declared types the checker always comes to an end, makes new cells only, and complains
only where a value is not what its shape asks for beyond its type.  A dictionary that passes becomes a
record.

## Key results

- `Decides`: whether an action passes something exactly if a condition holds
- `check_decides`: the checker passes a typed value exactly if it meets its shape
- `read_typed`: such a dictionary is read as a record of the schema exactly if it meets the schema
-/

namespace PageMeta

namespace Schema

open Heap (Extends Makes)

variable {h h' : Heap} {v : Value} {entries : Entries Key Value} {α β γ : Type} {P Q : Prop}

/-! ### Conditions on which something is passed -/

@[simp] theorem isOk_ok {ε : Type} (a : α) : (Except.ok a : Except ε α).isOk = true := rfl

@[simp] theorem isOk_error {ε : Type} (e : ε) : (Except.error e : Except ε α).isOk = false := rfl

@[simp] theorem isOk_map (f : α → β) (r : Checked α) : (r.map f).isOk = r.isOk := by
  cases r <;> rfl

@[simp] theorem isOk_mapError (f : List Issue → List Issue) (r : Checked α) :
    (r.mapError f).isOk = r.isOk := by
  cases r <;> rfl

@[simp] theorem isOk_both (f : α → β → γ) (r : Checked α) (s : Checked β) :
    (both f r s).isOk = (r.isOk && s.isOk) := by
  cases r <;> cases s <;> rfl

/-- Whether an action passes something exactly if a condition holds.  It makes new cells only. -/
structure Decides (h : Heap) (x : Heap.Action (Checked α)) (P : Prop) : Prop where
  run : ∃ r h', x h = .ok r h' ∧ Extends h h' ∧ (r.isOk = true ↔ P)

namespace Decides

variable {x : Heap.Action (Checked α)}

theorem congr (hx : Decides h x P) (hp : P ↔ Q) : Decides h x Q := by rwa [← propext hp]

theorem pure {r : Checked α} (hr : r.isOk = true ↔ P) : Decides h (pure r) P :=
  ⟨r, h, rfl, Heap.Agree.refl _ _, hr⟩

/-- What is done next knows whether something was passed. -/
theorem bind {f : Checked α → Heap.Action (Checked β)} (hx : Decides h x P)
    (hf : ∀ r h', Extends h h' → (r.isOk = true ↔ P) → Decides h' (f r) Q) :
    Decides h (x >>= f) Q := by
  obtain ⟨r, h₁, hrun, he, hr⟩ := hx
  obtain ⟨s, h₂, hrun', he', hs⟩ := hf r h₁ he hr
  exact ⟨s, h₂, (run_bind_ok hrun).trans hrun', he.trans he', hs⟩

/-- What comes after an action that passes nothing. -/
theorem of_bind {y : Heap.Action α} {f : α → Heap.Action (Checked β)} {a : α} (hy : y h = .ok a h')
    (he : Extends h h') (hf : Decides h' (f a) P) : Decides h (y >>= f) P := by
  obtain ⟨r, h₂, hrun, he', hr⟩ := hf
  exact ⟨r, h₂, (run_bind_ok hy).trans hrun, he.trans he', hr⟩

theorem get_bind {f : Heap → Heap.Action (Checked α)} (hf : Decides h (f h) P) :
    Decides h (get >>= f) P := ⟨hf.run⟩

/-- What is made is passed. -/
theorem made {y : Heap.Action α} (hy : Makes y) : Decides h (Except.ok <$> y) True := by
  obtain ⟨a, h₁, hrun, he⟩ := hy.run h
  exact ⟨.ok a, h₁, by simp only [Functor.map, EStateM.map, hrun], he, iff_of_true rfl trivial⟩

end Decides

/-! ### Scalars -/

theorem ofScalar_decides (v : Value) (read : Except IssueKind Value) :
    Decides h (ofScalar v read) (read.isOk = true) := by
  cases read with
  | ok w => exact (Decides.made (Heap.settle_makes w)).congr (iff_of_true trivial rfl)
  | error kind => exact .get_bind (.pure Iff.rfl)

/-- A text from the pool has the same characters. -/
theorem text?_pooledText (s : String) : (pooledText s).text? = some s := by
  unfold pooledText
  split
  · rfl
  · split <;> rfl

/-- A value that is a text is read as a text of the same characters. -/
theorem textOf_text {s : String} (hv : v.text? = some s) :
    ∃ w, textOf .usual v = .ok w ∧ w.text? = some s := by
  cases v with
  | text t mark => exact ⟨_, rfl, hv⟩
  | feature state => cases hv; exact ⟨_, rfl, text?_pooledText _⟩
  | _ => cases hv

theorem readText_isOk {s : String} (hv : v.text? = some s) (least : Nat) :
    (readText .usual least v).isOk = true ↔ least ≤ s.length := by
  obtain ⟨w, hw, hs⟩ := textOf_text hv
  simp only [readText, hw, bind, Except.bind, hs, Option.getD_some]
  split
  · rename_i hlt
    exact iff_of_false (by simp) (Nat.not_le.mpr hlt)
  · rename_i hlt
    exact iff_of_true rfl (Nat.not_lt.mp hlt)

/-- Something is within bounds if it violates neither. -/
theorem bounds_isOk {least most : Option Int} {above below : Int → Bool}
    {upper lower : Int → IssueKind} :
    (match most.filter above, least.filter below with
      | some b, _ => .error (upper b)
      | none, some b => .error (lower b)
      | none, none => .ok v : Except IssueKind Value).isOk = true ↔
      (∀ b ∈ most, above b = false) ∧ ∀ b ∈ least, below b = false := by
  rcases most with - | m
  · rcases least with - | l
    · simp
    · cases hl : below l <;> simp [Option.filter, hl]
  · cases hm : above m with
    | true => simp [Option.filter, hm]
    | false =>
      rcases least with - | l
      · simp [Option.filter, hm]
      · cases hl : below l <;> simp [Option.filter, hm, hl]

/-! ### Lists and dictionaries -/

theorem checkTexts_decides : ∀ (vs : List Value) (n : Nat) {h : Heap},
    (∀ u ∈ vs, ∃ s, u.text? = some s) → Decides h (checkTexts .usual n vs) True
  | [], _, _, _ => .pure (iff_of_true rfl trivial)
  | v :: rest, n, h, hs => by
    obtain ⟨⟨s, hv⟩, hrest⟩ := List.forall_mem_cons.mp hs
    rw [checkTexts]
    refine (ofScalar_decides v _).bind fun first h₁ _ hfirst => ?_
    refine (checkTexts_decides rest (n + 1) hrest).bind fun others h₂ _ hothers => .pure ?_
    have hread := (readText_isOk hv 0).mpr (Nat.zero_le _)
    simp [hfirst.mpr hread, hothers.mpr trivial]

theorem checkKey_decides {key : Key} (hk : ∃ name, key.text? = some name) :
    Decides h (checkKey .usual key) True := by
  obtain ⟨name, hname⟩ := hk
  have hvalue : key.value.text? = some name := by
    cases key with
    | atom v => exact hname
    | tuple => cases hname
  refine .get_bind ((ofScalar_decides _ _).bind fun read h₁ _ hread => .pure ?_)
  have hok := (readText_isOk hvalue 0).mpr (Nat.zero_le _)
  simp [hread.mpr hok]

/-- Entries with texts as keys pass if the values do. -/
theorem checkEntries_decides {checkItem : Value → Heap.Action (Checked Value)}
    {Passes : Value → Prop} : ∀ (es : List (Key × Value)) {h : Heap}, AllTexts es →
      (∀ h', Extends h h' → ∀ p ∈ es, Decides h' (checkItem p.2) (Passes p.2)) →
      Decides h (checkEntries .usual checkItem es) (∀ p ∈ es, Passes p.2)
  | [], _, _, _ => .pure (iff_of_true rfl fun _ hp => absurd hp List.not_mem_nil)
  | (k, v) :: rest, h, hkeys, hitems => by
    obtain ⟨hkey, hkeys⟩ := List.forall_mem_cons.mp hkeys
    rw [checkEntries]
    refine .get_bind ((checkKey_decides hkey).bind fun key h₁ he₁ hkey => ?_)
    refine (hitems h₁ he₁ _ List.mem_cons_self).bind fun item h₂ he₂ hitem => ?_
    have hrest := checkEntries_decides rest (h := h₂) hkeys fun h' he p hp =>
      hitems h' ((he₁.trans he₂).trans he) p (List.mem_cons_of_mem _ hp)
    refine hrest.bind fun others h₃ _ hothers => .pure ?_
    simp only [isOk_both, isOk_mapError, hkey.mpr trivial, Bool.true_and, Bool.and_eq_true, hitem,
      hothers, List.forall_mem_cons]

/-- Nothing is out of place outside of forms. -/
theorem foreignIssue?_usual (h : Heap) (vs : List Value) : foreignIssue? h .usual vs = none := by
  simp [foreignIssue?, isForeign, Manner.usual]

theorem checkMapping_decides (checkItem : Value → Heap.Action (Checked Value)) (Passes : Value → Prop)
    (hv : h.cell? v = some (.dict entries)) (hkeys : AllTexts entries)
    (hitems : ∀ h', Extends h h' → ∀ p ∈ entries, Decides h' (checkItem p.2) (Passes p.2)) :
    Decides h (checkMapping .usual checkItem v) (∀ p ∈ entries, Passes p.2) := by
  refine .get_bind ?_
  simp only [hv, foreignIssue?_usual]
  refine (checkEntries_decides entries hkeys hitems).bind fun pairs h₁ _ hpairs => ?_
  cases pairs with
  | ok pairs =>
    exact (Decides.made ((Makes.alloc _).bind fun _ => .pure _)).congr
      (iff_of_true trivial (hpairs.mp rfl))
  | error issues => exact .pure hpairs

theorem checkList_decides {items : List Value} (hv : h.cell? v = some (.list items))
    (hs : ∀ u ∈ items, ∃ s, u.text? = some s) : Decides h (checkList .usual v) True := by
  have hitems : listItems .usual v h = .ok (some items) h := by
    simp only [listItems, bind, EStateM.bind, run_get, hv]
    rfl
  refine .of_bind hitems (.refl _ _) ?_
  refine (checkTexts_decides items 0 hs).bind fun texts h₁ _ htexts => ?_
  cases texts with
  | ok texts => exact .made ((Makes.alloc _).bind fun _ => .pure _)
  | error issues => exact .pure htexts

/-! ### Records -/

/-- Further entries with texts as keys are no reason to complain. -/
theorem checkSurplus_isOk (h : Heap) (keeps : Bool) : ∀ {es : Entries Key Value}, AllTexts es →
    (checkSurplus h (Manner.usual.surplusFor keeps) es).isOk = true
  | [], _ => rfl
  | (k, v) :: rest, hkeys => by
    obtain ⟨⟨name, hname⟩, hkeys⟩ := List.forall_mem_cons.mp hkeys
    have hrest := checkSurplus_isOk h keeps hkeys
    have hvalue : k.value.text? = some name := by
      cases k with
      | atom v => exact hname
      | tuple => cases hname
    cases keeps with
    | true =>
      have hkept : Manner.usual.surplusFor true = .kept := rfl
      rw [hkept] at hrest ⊢
      simp only [checkSurplus, hvalue, isOk_both, hrest]
      rfl
    | false =>
      have hdropped : Manner.usual.surplusFor false = .dropped := rfl
      rw [hdropped] at hrest ⊢
      simpa only [checkSurplus] using hrest

/-- A record of the fields that were read from a dictionary, if they and the other entries are in
order. -/
def assembleChecked (name : String) (fields : List SchemaField) (keeps : Bool)
    (entries : Entries Key Value) (declared : Checked (List (String × Value × Bool))) :
    Heap.Action (Checked Value) := do
  let surplus := Manner.usual.surplusFor keeps
  match both Prod.mk declared (checkSurplus (← get) surplus
      ((Origin.entries entries).surplus (.mk name fields keeps))) with
  | .ok (values, kept) => .ok <$> assembleRead name surplus values kept
  | .error issues => return .error issues

/-- A dictionary is read as a record field by field. -/
theorem checkRecord_run {name : String} {fields : List SchemaField} {keeps : Bool}
    (hv : h.cell? v = some (.dict entries)) :
    checkRecord .usual (.mk name fields keeps) v h =
      (checkFields .usual v (.entries entries) fields >>=
        assembleChecked name fields keeps entries) h := by
  rw [checkRecord]
  simp only [bind, EStateM.bind, run_get, hv, origin?, foreignIssue?_usual]
  rfl

theorem assembleChecked_decides {name : String} {fields : List SchemaField} {keeps : Bool}
    (hkeys : AllTexts entries) (declared : Checked (List (String × Value × Bool))) :
    Decides h (assembleChecked name fields keeps entries declared) (declared.isOk = true) := by
  refine .get_bind ?_
  have hsurplus : AllTexts ((Origin.entries entries).surplus (.mk name fields keeps)) :=
    fun p hp => hkeys p (List.mem_of_mem_filter hp)
  have hboth := isOk_both Prod.mk declared (checkSurplus h (Manner.usual.surplusFor keeps)
    ((Origin.entries entries).surplus (.mk name fields keeps)))
  rw [checkSurplus_isOk h keeps hsurplus, Bool.and_true] at hboth
  rw [← hboth]
  cases both Prod.mk declared (checkSurplus h (Manner.usual.surplusFor keeps)
      ((Origin.entries entries).surplus (.mk name fields keeps))) with
  | ok read =>
    refine (Decides.made ⟨fun h => ?_⟩).congr (iff_of_true trivial rfl)
    obtain ⟨w, h', hrun, he, -⟩ := assembleRead_run name (Manner.usual.surplusFor keeps) read.1 read.2 h
    exact ⟨w, h', hrun, he⟩
  | error issues => exact .pure Iff.rfl

/-- What becomes of a dictionary is a record of the schema. -/
theorem checkRecord_record {name : String} {fields : List SchemaField} {keeps : Bool} {w : Value}
    (hv : h.cell? v = some (.dict entries))
    (hrun : checkRecord .usual (.mk name fields keeps) v h = .ok (.ok w) h') :
    IsRecord h' name w := by
  rw [checkRecord_run hv] at hrun
  obtain ⟨declared, h₁, -, hrun⟩ := exists_of_bind_ok hrun
  obtain ⟨_, _, hget, hrun⟩ := exists_of_bind_ok hrun
  cases hget
  cases hread : both Prod.mk declared (checkSurplus h₁ (Manner.usual.surplusFor keeps)
      ((Origin.entries entries).surplus (.mk name fields keeps))) with
  | ok read =>
    obtain ⟨u, h₂, hassemble, -, hu⟩ :=
      assembleRead_run name (Manner.usual.surplusFor keeps) read.1 read.2 h₁
    rw [hread] at hrun
    simp only [Functor.map, EStateM.map, hassemble] at hrun
    cases hrun
    exact hu
  | error issues =>
    rw [hread] at hrun
    cases hrun

/-- A field that is there is checked, and then the others. -/
theorem checkFields_given {whole : Value} {name : String} {shape : Shape} {default : FieldDefault}
    {rest : List SchemaField} (hv : entries.get? (Key.ofText name) = some v) :
    checkFields .usual whole (.entries entries) (.mk name shape default :: rest) = (do
      let first ← check .usual shape v
      let others ← checkFields .usual whole (.entries entries) rest
      return both (fun v vs => (name, v) :: vs) ((first.map (·, true)).mapError (within name))
        others) := by
  rw [checkFields]
  simp only [Origin.value?, hv, pure_bind, bind_map_left]

/-- A field that is not there has its default, if it need not be there. -/
theorem checkFields_default {whole : Value} {name : String} {shape : Shape} {default : FieldDefault}
    {rest : List SchemaField} (hv : entries.get? (Key.ofText name) = none)
    (hd : default ≠ .required) :
    checkFields .usual whole (.entries entries) (.mk name shape default :: rest) = (do
      let w ← makeDefault (instantiate shape) default
      let others ← checkFields .usual whole (.entries entries) rest
      return both (fun v vs => (name, v) :: vs) (.ok (w, false)) others) := by
  rw [checkFields]
  simp only [Origin.value?, hv, pure_bind, bind_map_left]
  cases default with
  | required => exact absurd rfl hd
  | _ => rfl

/-- A field that is not there is complained about if it has to be there. -/
theorem checkFields_missing {whole : Value} {name : String} {shape : Shape}
    {rest : List SchemaField} (hv : entries.get? (Key.ofText name) = none) :
    checkFields .usual whole (.entries entries) (.mk name shape .required :: rest) = (do
      let h ← get
      let others ← checkFields .usual whole (.entries entries) rest
      return both (fun v vs => (name, v) :: vs)
        (.error (within name [issue h .missing whole])) others) := by
  rw [checkFields]
  simp only [Origin.value?, hv, pure_bind]
  rfl

/-! ### Shapes -/

mutual

/-- A value of the type that its shape declares passes exactly if it is what the shape asks for. -/
theorem check_decides : ∀ (shape : Shape) {v : Value} {h : Heap}, Typed h shape v →
    Decides h (check .usual shape v) (Meets h shape v)
  | .anything, v, h, _ => by
    rw [check]
    exact .pure (iff_of_true rfl (by rw [Meets]; trivial))
  | .text least, v, h, ht => by
    rw [Typed] at ht
    obtain ⟨s, hs⟩ := ht
    rw [check]
    refine (ofScalar_decides v _).congr ?_
    rw [readText_isOk hs, Meets]
    simp only [hs, Option.some.injEq, forall_eq']
  | .flag, v, h, ht => by
    rw [Typed] at ht
    obtain ⟨b, rfl⟩ := ht
    rw [check]
    exact (ofScalar_decides _ _).congr (iff_of_true rfl (by rw [Meets]; trivial))
  | .integer least most, v, h, ht => by
    rw [Typed] at ht
    obtain ⟨n, mark, rfl⟩ := ht
    rw [check]
    refine (ofScalar_decides _ _).congr (bounds_isOk.trans ?_)
    rw [Meets]
    simp only [Value.integer?, Option.some.injEq, forall_eq', Option.getD_some]
    exact and_congr (forall₂_congr fun b _ => decide_eq_false_iff_not.trans Int.not_lt)
      (forall₂_congr fun b _ => decide_eq_false_iff_not.trans Int.not_lt)
  | .number least most, v, h, ht => by
    rw [Typed] at ht
    obtain ⟨x, mark, rfl⟩ := ht
    rw [check]
    refine (ofScalar_decides _ _).congr (bounds_isOk.trans ?_)
    rw [Meets]
    simp
  | .texts, v, h, ht => by
    rw [Typed] at ht
    obtain ⟨items, hi, hs⟩ := ht
    rw [check]
    exact (checkList_decides hi hs).congr (iff_of_true trivial (by rw [Meets]; trivial))
  | .mapping item, v, h, ht => by
    rw [Typed] at ht
    obtain ⟨entries, he, hkeys, hitems⟩ := ht
    rw [check]
    refine (checkMapping_decides _ (Meets h item) he hkeys fun h' he' p hp => ?_).congr ?_
    -- an item is checked in the heap that the items before it leave
    · obtain ⟨ht', hm⟩ := typed_carried (carries_extends he') trivial (hitems p hp)
      exact (check_decides item ht').congr hm
    · rw [Meets]
      simp only [he, Option.some.injEq, Cell.dict.injEq, forall_eq']
  | .record schema, v, h, ht => by
    rw [Typed] at ht
    rw [check, Meets]
    exact checkRecord_decides schema ht
  | .optional shape, v, h, ht => by
    rw [Typed] at ht
    rw [Meets]
    cases v with
    | none =>
      rw [check]
      exact .pure (iff_of_true rfl (.inl rfl))
    | _ =>
      rw [check]
      swap
      · simp
      · exact (check_decides shape (ht.resolve_left (by simp))).congr (by simp)
  | .textOrMapping, v, h, ht => by
    rw [Typed] at ht
    rw [check, Meets]
    refine (ofScalar_decides v _).bind fun text h₁ he₁ htext => ?_
    cases text with
    | ok w => exact .pure (iff_of_true rfl trivial)
    | error issues =>
      -- what is no text has to be a dictionary
      have hno : ∀ s, v.text? ≠ some s := fun s hs => by
        have hok := htext.mpr ((readText_isOk hs 0).mpr (Nat.zero_le _))
        cases hok
      obtain ⟨entries, he, hkeys⟩ := ht.resolve_left fun ⟨s, hs⟩ => hno s hs
      obtain ⟨r, rfl⟩ := Heap.ref_of_cell? he
      have hpass := checkMapping_decides (v := .ref r) (fun w => pure (.ok w)) (fun _ => True)
        (he₁.read_of_some he) hkeys fun _ _ _ _ => .pure (iff_of_true rfl trivial)
      refine hpass.bind fun read h₂ _ hread => ?_
      cases read with
      | ok w => exact .pure (iff_of_true rfl trivial)
      | error issues =>
        have hok := hread.mpr fun _ _ => trivial
        cases hok

/-- `check_decides` for a record. -/
theorem checkRecord_decides : ∀ (schema : RecordSchema) {v : Value} {h : Heap},
    TypedRecord h schema v → Decides h (checkRecord .usual schema v) (MeetsRecord h schema v)
  | .mk name fields keeps, v, h, ht => by
    rw [TypedRecord] at ht
    obtain ⟨entries, he, hkeys, hfields⟩ := ht
    rw [MeetsRecord]
    simp only [he, Option.some.injEq, Cell.dict.injEq, forall_eq']
    refine ⟨checkRecord_run he ▸ Decides.run ?_⟩
    exact (checkFields_decides v fields hfields).bind fun declared h₁ _ hdeclared =>
      (assembleChecked_decides hkeys declared).congr hdeclared

/-- `check_decides` for the fields of a record. -/
theorem checkFields_decides (whole : Value) : ∀ (fields : List SchemaField)
    {entries : Entries Key Value} {h : Heap}, TypedFields h fields entries →
      Decides h (checkFields .usual whole (.entries entries) fields) (MeetsFields h fields entries)
  | [], _, _, _ => by
    rw [checkFields, MeetsFields]
    exact .pure (iff_of_true rfl trivial)
  | .mk name shape default :: rest, entries, h, ht => by
    rw [TypedFields] at ht
    obtain ⟨hfirst, hrest⟩ := ht
    rw [MeetsFields]
    -- what was made in between changes nothing for the other fields
    have rest_later : ∀ {h' : Heap}, Extends h h' → TypedFields h' rest entries ∧
        (MeetsFields h' rest entries ↔ MeetsFields h rest entries) := fun he => by
      have hcarried := typedFields_carried (carries_extends he) (fun _ _ => trivial) hrest
      rwa [Entries.mapValues_id] at hcarried
    -- a field is given, is required but missing, or has its default
    cases hget : entries.get? (Key.ofText name) with
    | some v =>
      rw [checkFields_given hget]
      refine (check_decides shape (hfirst v hget)).bind fun first h₁ he₁ hfirst => ?_
      obtain ⟨hrest', hm⟩ := rest_later he₁
      refine (checkFields_decides whole rest hrest').bind fun others h₂ _ hothers => .pure ?_
      simp only [isOk_both, isOk_mapError, isOk_map, Bool.and_eq_true, hfirst, hothers, hm]
    | none =>
      by_cases hd : default = .required
      · subst hd
        rw [checkFields_missing hget]
        refine .get_bind ((checkFields_decides whole rest hrest).bind fun others h₁ _ _ => .pure ?_)
        simp
      · rw [checkFields_default hget hd]
        obtain ⟨w, h₁, hmake, he₁⟩ := (makeDefault_makes (instantiate_makes shape) default).run h
        obtain ⟨hrest', hm⟩ := rest_later he₁
        refine .of_bind hmake he₁ ((checkFields_decides whole rest hrest').bind
          fun others h₂ _ hothers => .pure ?_)
        simp [hothers, hm, hd]

end

/-- A dictionary with fields of the declared types is read as a record exactly if it meets the schema. -/
theorem read_typed {schema : RecordSchema} (ht : TypedRecord h schema v) :
    (MeetsRecord h schema v ∧ ∃ w h', read .usual schema v h = .ok w h' ∧ IsRecord h' schema.name w) ∨
      ¬ MeetsRecord h schema v ∧
        ∃ issues h', read .usual schema v h = .error (.mismatch ⟨schema.name, issues⟩) h' := by
  obtain ⟨r, h₁, hrun, -, hr⟩ := checkRecord_decides schema ht
  cases r with
  | ok w =>
    refine .inl ⟨hr.mp rfl, w, h₁, run_bind_ok hrun, ?_⟩
    obtain ⟨entries, he⟩ := ht.dict
    obtain ⟨name, fields, keeps⟩ := schema
    exact checkRecord_record he hrun
  | error issues =>
    exact .inr ⟨fun hm => (by cases hr.mpr hm), issues, h₁, run_bind_ok hrun⟩

end Schema

end PageMeta
