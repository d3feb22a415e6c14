import PageMeta.Builder.Basic
import PageMeta.Proofs.Object.Inert

/-!
# How a builder stands in the heap

A builder is a cell over the dictionary of its attributes, and one of them is its buffer.  Nothing is
kept there under a public name, so the functions that all builders have are found under theirs.  As
long as there are only inert values in the attributes and the buffer, using a builder runs no code but
its own.

## Key results

- `Standing`: where the parts of a builder are
- `Fills`: a later heap with the same builder, in which no other cell has changed
- `set_outcome`, `merge_outcome`: storing inert values leaves a builder where it was
- `Bare`, `create_bare`: a new builder, in cells of its own and with nothing in its buffer
-/

namespace PageMeta.Builder

open Heap (Extends Inert isPrivate)

/-- The cells of a builder. -/
structure Cells where
  builder : Ref
  attributes : Ref
  buffer : Ref

/-- Where the parts of a builder are: its attributes are kept in a dictionary, none under a public name,
and so is the buffer. -/
structure Placed (h : Heap) (kind : BuilderKind) (c : Cells) : Prop where
  builder : h.read c.builder = some (.builder kind c.attributes)
  attributes : ∃ kept, h.read c.attributes = some (.dict kept) ∧
    kept.get? (Key.ofText "_config") = some (.ref c.buffer) ∧
    ∀ name, isPrivate name = false → kept.get? (Key.ofText name) = none
  buffer : ∃ entries, h.read c.buffer = some (.dict entries)

/-- Where the parts of a builder are, and that its attributes and its buffer have inert values, the
attributes none under a public name. -/
structure Standing (h : Heap) (kind : BuilderKind) (c : Cells) : Prop where
  builder : h.read c.builder = some (.builder kind c.attributes)
  attributes : ∃ kept, h.read c.attributes = some (.dict kept) ∧
    kept.get? (Key.ofText "_config") = some (.ref c.buffer) ∧
    (∀ name, isPrivate name = false → kept.get? (Key.ofText name) = none) ∧
    ∀ p ∈ kept, Inert h p.2
  buffer : ∃ entries, h.read c.buffer = some (.dict entries) ∧ ∀ p ∈ entries, Inert h p.2
  apart : c.attributes ≠ c.buffer

/-- A later heap in which the builder stands where it stood, and no cell but its attributes and its
buffer has changed. -/
structure Fills (kind : BuilderKind) (c : Cells) (h h' : Heap) : Prop where
  standing : Standing h' kind c
  size_le : h.size ≤ h'.size
  read_eq : ∀ r, r.index < h.size → r ≠ c.attributes → r ≠ c.buffer → h'.read r = h.read r

variable {h h' h'' : Heap} {kind : BuilderKind} {c : Cells} {v : Value}

/-! ### The same builder later -/

namespace Standing

theorem placed (hs : Standing h kind c) : Placed h kind c := by
  obtain ⟨kept, hkept, hconfig, hpublic, -⟩ := hs.attributes
  obtain ⟨entries, hentries, -⟩ := hs.buffer
  exact ⟨hs.builder, ⟨kept, hkept, hconfig, hpublic⟩, ⟨entries, hentries⟩⟩

theorem ref_ne (hs : Standing h kind c) : c.builder ≠ c.attributes ∧ c.builder ≠ c.buffer := by
  obtain ⟨kept, hkept, -⟩ := hs.attributes
  obtain ⟨entries, hentries, -⟩ := hs.buffer
  have hbuilder := hs.builder
  constructor
  · intro heq
    rw [heq, hkept] at hbuilder
    cases hbuilder
  · intro heq
    rw [heq, hentries] at hbuilder
    cases hbuilder

/-- A larger heap has the builder where it was. -/
theorem of_extends (hs : Standing h kind c) (he : Extends h h') : Standing h' kind c := by
  obtain ⟨kept, hkept, hconfig, hpublic, hinert⟩ := hs.attributes
  obtain ⟨entries, hentries, hvalues⟩ := hs.buffer
  exact ⟨he.read_of_some hs.builder,
    ⟨kept, he.read_of_some hkept, hconfig, hpublic, fun p hp => (hinert p hp).of_extends he⟩,
    ⟨entries, he.read_of_some hentries, fun p hp => (hvalues p hp).of_extends he⟩, hs.apart⟩

end Standing

namespace Fills

theorem refl (hs : Standing h kind c) : Fills kind c h h :=
  ⟨hs, Nat.le_refl _, fun _ _ _ _ => rfl⟩

theorem trans (h₁ : Fills kind c h h') (h₂ : Fills kind c h' h'') : Fills kind c h h'' where
  standing := h₂.standing
  size_le := Nat.le_trans h₁.size_le h₂.size_le
  read_eq r hr ha hb :=
    (h₂.read_eq r (Nat.lt_of_lt_of_le hr h₁.size_le) ha hb).trans (h₁.read_eq r hr ha hb)

theorem of_extends (hs : Standing h kind c) (he : Extends h h') : Fills kind c h h' :=
  ⟨hs.of_extends he, he.size_le, fun r hr _ _ => he.read_eq r hr⟩

/-- Inert values stay inert while a builder is filled. -/
theorem inert (hf : Fills kind c h h') (hv : Inert h v) (hs : Standing h kind c) :
    Inert h' v := by
  obtain ⟨kept, hkept, -⟩ := hs.attributes
  obtain ⟨entries, hentries, -⟩ := hs.buffer
  obtain ⟨kept', hkept', -⟩ := hf.standing.attributes
  obtain ⟨entries', hentries', -⟩ := hf.standing.buffer
  refine hv.later (fun r items hr => ?_) fun r es hr => ?_
  · refine (hf.read_eq r (Heap.lt_size_of_read hr) ?_ ?_).trans hr
    · rintro rfl
      rw [hkept] at hr
      cases hr
    · rintro rfl
      rw [hentries] at hr
      cases hr
  · by_cases ha : r = c.attributes
    · exact ⟨kept', ha ▸ hkept'⟩
    · by_cases hb : r = c.buffer
      · exact ⟨entries', hb ▸ hentries'⟩
      · exact ⟨es, (hf.read_eq r (Heap.lt_size_of_read hr) ha hb).trans hr⟩

end Fills

/-- Writing an inert value into the buffer. -/
theorem Standing.fill (hs : Standing h kind c) (hv : Inert h v) {entries : Entries Key Value}
    (hb : h.read c.buffer = some (.dict entries)) (key : Key) :
    Fills kind c h (h.write c.buffer (.dict (entries.put key v))) := by
  obtain ⟨kept, hkept, hconfig, hpublic, hinert⟩ := hs.attributes
  obtain ⟨entries', hb', hvalues⟩ := hs.buffer
  rw [hb] at hb'
  cases hb'
  have hother : ∀ r, r ≠ c.buffer →
      (h.write c.buffer (.dict (entries.put key v))).read r = h.read r := fun r hr =>
    Heap.read_write_of_ne _ _ _ _ hr.symm
  refine ⟨⟨(hother _ hs.ref_ne.2).trans hs.builder,
    ⟨kept, (hother _ hs.apart).trans hkept, hconfig, hpublic, fun p hp => (hinert p hp).write hb⟩,
    ⟨_, Heap.read_write_self _ _ _ (Heap.lt_size_of_read hb), fun p hp =>
      (Inert.put hvalues hv key p hp).write hb⟩, hs.apart⟩, by rw [Heap.size_write],
    fun r _ _ hr => hother r hr⟩

/-- Writing an inert value into the attributes, under a private name that is not that of the
buffer. -/
theorem Standing.keep (hs : Standing h kind c) (hv : Inert h v) {name : String}
    (hprivate : isPrivate name = true) (hname : name ≠ "_config") {kept : Entries Key Value}
    (ha : h.read c.attributes = some (.dict kept)) :
    Fills kind c h (h.write c.attributes (.dict (kept.put (Key.ofText name) v))) := by
  obtain ⟨kept', ha', hconfig, hpublic, hinert⟩ := hs.attributes
  obtain ⟨entries, hb, hvalues⟩ := hs.buffer
  rw [ha] at ha'
  cases ha'
  have hother : ∀ r, r ≠ c.attributes →
      (h.write c.attributes (.dict (kept.put (Key.ofText name) v))).read r = h.read r := fun r hr =>
    Heap.read_write_of_ne _ _ _ _ hr.symm
  -- only the private name is written, so that what the builder needs of its attributes stays
  have hget : ∀ other, other ≠ name →
      (kept.put (Key.ofText name) v).get? (Key.ofText other) = kept.get? (Key.ofText other) :=
    fun other hne => Entries.get?_put_of_text? v kept rfl rfl hne.symm
  refine ⟨⟨(hother _ hs.ref_ne.1).trans hs.builder,
    ⟨_, Heap.read_write_self _ _ _ (Heap.lt_size_of_read ha), ?_, fun other ho => ?_, fun p hp =>
      (Inert.put hinert hv _ p hp).write ha⟩,
    ⟨entries, (hother _ hs.apart.symm).trans hb, fun p hp => (hvalues p hp).write ha⟩, hs.apart⟩,
    by rw [Heap.size_write], fun r _ hr _ => hother r hr⟩
  · rw [hget _ hname.symm]
    exact hconfig
  · rw [hget other fun heq => ?_]
    · exact hpublic other ho
    · rw [heq, hprivate] at ho
      cases ho

/-! ### New builders -/

/-- What keeps nothing but a buffer keeps nothing under other names. -/
theorem get?_config (buffer : Value) {name : String} (hname : name ≠ "_config") :
    Entries.get? (Key.ofText name) (Heap.textKeys [("_config", buffer)]) = none := by
  simp [Heap.textKeys, Entries.get?, Key.beq_ofText, hname.symm]

/-- A builder that keeps nothing but its buffer, which has some entries. -/
structure Bare (h : Heap) (kind : BuilderKind) (c : Cells) (entries : Entries Key Value) : Prop where
  builder : h.read c.builder = some (.builder kind c.attributes)
  attributes : h.read c.attributes = some (.dict (Heap.textKeys [("_config", .ref c.buffer)]))
  buffer : h.read c.buffer = some (.dict entries)

namespace Bare

variable {entries : Entries Key Value}

theorem placed (hb : Bare h kind c entries) : Placed h kind c := by
  refine ⟨hb.builder, ⟨_, hb.attributes, rfl, fun name hname => get?_config _ ?_⟩, _, hb.buffer⟩
  rintro rfl
  exact absurd hname (by decide +kernel)

/-- An empty buffer is not what the builder keeps it in. -/
theorem apart (hb : Bare h kind c []) : c.attributes ≠ c.buffer := fun heq => by
  have hread := hb.attributes
  rw [heq, hb.buffer] at hread
  exact absurd hread (by simp [Heap.textKeys])

theorem standing (hb : Bare h kind c []) : Standing h kind c := by
  obtain ⟨kept, hkept, hconfig, hpublic⟩ := hb.placed.attributes
  refine ⟨hb.builder, ⟨kept, hkept, hconfig, hpublic, fun p hp => ?_⟩,
    ⟨[], hb.buffer, fun _ hp => absurd hp List.not_mem_nil⟩, hb.apart⟩
  rw [hb.attributes] at hkept
  cases hkept
  rw [List.mem_singleton.mp hp]
  exact .inr ⟨[], hb.buffer⟩

end Bare

/-- Making a builder makes its buffer, its attributes and the builder itself. -/
theorem create_bare (kind : BuilderKind) (h : Heap) :
    ∃ c h', create kind h = .ok (.ref c.builder) h' ∧ Extends h h' ∧ Bare h' kind c [] ∧
      h.size ≤ c.builder.index ∧ h.size ≤ c.attributes.index ∧ h.size ≤ c.buffer.index := by
  -- the buffer, the attributes and the builder get the next three cells
  let h₁ := h.push (.dict [])
  let h₂ := h₁.push (.dict (Heap.textKeys [("_config", .ref h.next)]))
  let h₃ := h₂.push (.builder kind h₁.next)
  have he₁ : Extends h h₁ := Heap.extends_push _ _
  have he₂ : Extends h₁ h₂ := Heap.extends_push _ _
  have he₃ : Extends h₂ h₃ := Heap.extends_push _ _
  refine ⟨⟨h₂.next, h₁.next, h.next⟩, h₃, rfl, (he₁.trans he₂).trans he₃, ⟨?_, ?_, ?_⟩,
    (he₁.trans he₂).size_le, he₁.size_le, Nat.le_refl _⟩
  · exact Heap.read_alloc_new _ _
  · exact he₃.read_of_some (Heap.read_alloc_new _ _)
  · exact (he₂.trans he₃).read_of_some (Heap.read_alloc_new _ _)

/-- A builder has one dictionary of attributes, and one buffer. -/
theorem Placed.functional {d : Cells} (hc : Placed h kind c) (hd : Placed h kind d)
    (heq : c.builder = d.builder) : c = d := by
  obtain ⟨builder, attributes, buffer⟩ := c
  obtain ⟨builder', attributes', buffer'⟩ := d
  obtain rfl : builder = builder' := heq
  obtain rfl : attributes = attributes' := by
    have hbuilder := hc.builder.symm.trans hd.builder
    cases hbuilder
    rfl
  obtain rfl : buffer = buffer' := by
    obtain ⟨kept, hkept, hconfig, -⟩ := hc.attributes
    obtain ⟨kept', hkept', hconfig', -⟩ := hd.attributes
    cases hkept.symm.trans hkept'
    cases hconfig.symm.trans hconfig'
    rfl
  rfl

/-- So a builder that was just made keeps nothing but an empty buffer, wherever its parts are. -/
theorem bare_of_create (hrun : create kind h = .ok (.ref c.builder) h') (hp : Placed h' kind c) :
    Bare h' kind c [] := by
  obtain ⟨d, h₁, hcreate, -, hd, -⟩ := create_bare kind h
  rw [hrun] at hcreate
  injection hcreate with hbuilder hheap
  subst hheap
  rw [hp.functional hd.placed (Value.ref.inj hbuilder)]
  exact hd

/-- A new builder stands, with an empty buffer. -/
theorem create_standing (kind : BuilderKind) (h : Heap) :
    ∃ c h', create kind h = .ok (.ref c.builder) h' ∧ Extends h h' ∧ Standing h' kind c := by
  obtain ⟨c, h', hrun, he, hb, -⟩ := create_bare kind h
  exact ⟨c, h', hrun, he, hb.standing⟩

/-! ### Finding the parts -/

/-- The functions of all builders under public names. -/
def commonFunctions : List String := ["set", "get", "evaluate", "nested"]

theorem kept?_public (hp : Placed h kind c) {name : String} (hn : isPrivate name = false) :
    Object.kept? h c.attributes name = none := by
  obtain ⟨kept, hkept, -, hpublic⟩ := hp.attributes
  rw [Object.kept?, Heap.entriesAt_dict hkept, hpublic name hn]
  rfl

/-- What is kept under a name is inert, the buffer included. -/
theorem kept?_inert (hs : Standing h kind c) {name : String} {found : Object.Attribute}
    (hk : Object.kept? h c.attributes name = some found) : ∃ u, found = .stored u ∧ Inert h u := by
  obtain ⟨kept, hkept, -, -, hinert⟩ := hs.attributes
  rw [Object.kept?, Heap.entriesAt_dict hkept] at hk
  obtain ⟨u, hu, rfl⟩ := Option.map_eq_some_iff.mp hk
  obtain ⟨k, hmem⟩ := Entries.exists_of_get? hu
  exact ⟨u, rfl, hinert _ hmem⟩

theorem className_builder (hp : Placed h kind c) :
    h.className (.ref c.builder) = .builder kind := by
  simp [Heap.className, hp.builder, Cell.className]

/-- A function of the class of a builder is found under its name, unless something is kept there. -/
theorem lookup_method (hp : Placed h kind c) {name : String} {owner : ClassName}
    (hplain : Object.classFunction? (.builder kind) name = none)
    (hown : (ClassName.builder kind).definer? name = some owner)
    (hname : name ∉ ["__class__", "__hash__", "__dict__"]) :
    Object.lookup h (.ref c.builder) name =
      .ok ((Object.kept? h c.attributes name).getD (.method (.ref c.builder) owner name)) := by
  simp only [List.mem_cons, List.not_mem_nil, or_false, not_or] at hname
  obtain ⟨hclass, hhash, hdict⟩ := hname
  have hattribute : Object.builderAttribute h kind c.attributes name
      (some (.method (.ref c.builder) owner name)) =
      .ok ((Object.kept? h c.attributes name).getD (.method (.ref c.builder) owner name)) := by
    rw [Object.builderAttribute, if_neg hdict]
    cases Object.kept? h c.attributes name <;> rfl
  simp [Object.lookup, className_builder hp, hplain, hown, Object.cellAttribute, hp.builder,
    hattribute, Object.onBehalf, hclass, hhash]

/-- A common function of builders is found under its name. -/
theorem lookup_common (hp : Placed h kind c) {name : String} (hn : name ∈ commonFunctions) :
    Object.lookup h (.ref c.builder) name =
      .ok (.method (.ref c.builder) (.builder .plain) name) := by
  have hfacts : ∀ kind, ∀ name ∈ commonFunctions, isPrivate name = false ∧
      Object.classFunction? (.builder kind) name = none ∧
      (ClassName.builder kind).definer? name = some (.builder .plain) ∧
      name ∉ ["__class__", "__hash__", "__dict__"] := by
    intro kind
    cases kind <;> decide +kernel
  obtain ⟨hpublic, hplain, hown, hname⟩ := hfacts kind name hn
  rw [lookup_method hp hplain hown hname, kept?_public hp hpublic]
  rfl

/-- The buffer is found under its name. -/
theorem lookup_buffer (hp : Placed h kind c) :
    Object.lookup h (.ref c.builder) "_config" = .ok (.stored (.ref c.buffer)) := by
  obtain ⟨kept, hkept, hconfig, -⟩ := hp.attributes
  have hfound : Object.kept? h c.attributes "_config" = some (.stored (.ref c.buffer)) := by
    rw [Object.kept?, Heap.entriesAt_dict hkept, hconfig]
    rfl
  simp [Object.lookup, Object.cellAttribute, hp.builder, Object.builderAttribute, hfound,
    Object.onBehalf]

theorem getAttribute_buffer (hp : Placed h kind c) :
    Object.getAttribute (.ref c.builder) "_config" h = .ok (.ref c.buffer) h := by
  simp only [Object.getAttribute, bind, EStateM.bind, Name.ofText, Heap.ask, lookup_buffer hp]
  rfl

/-! ### Reading and storing -/

/-- What a builder has stored under a key; absent if there is nothing. -/
def stored (h : Heap) (c : Cells) (key : Key) : Value :=
  ((h.entriesAt c.buffer).get? key).getD .none

theorem stored_inert (hs : Standing h kind c) (key : Key) : Inert h (stored h c key) := by
  obtain ⟨entries, hb, hvalues⟩ := hs.buffer
  rw [stored, Heap.entriesAt_dict hb]
  exact Inert.get?_getD hvalues key

theorem fieldAt_ok (hp : Placed h kind c) (key : Key) :
    fieldAt h (.ref c.builder) key = .ok (stored h c key) := by
  obtain ⟨entries, hb⟩ := hp.buffer
  have hmapping : h.mapping? (.ref c.buffer) = some c.buffer := by
    simp [Heap.mapping?, Heap.dict?, Heap.depth, Heap.dictTo, hb]
  simp only [fieldAt, Builder.buffer, lookup_buffer hp, hmapping]
  rfl

/-- Writing the item of a dictionary. -/
theorem setItem_dict {d : Ref} {entries : Entries Key Value} (hd : h.read d = some (.dict entries))
    (key v : Value) : Object.setItem (.ref d) key v h =
      (do
        let key ← Heap.ask fun h => h.toKey key
        Heap.put d (.dict (entries.put key v))) h := by
  have hmap : h.isMap (.ref d) = false := by simp [Heap.isMap, Heap.cell?, hd]
  simp only [Object.setItem, bind, EStateM.bind, run_get, hmap, Object.setPlainItem, Heap.cell?, hd]

/-- Storing an inert value in the buffer. -/
theorem setItem_outcome (hs : Standing h kind c) (hv : Inert h v) (key : Value) :
    Outcome (Object.setItem (.ref c.buffer) key v) h (fun _ h' => Fills kind c h h')
      (Fills kind c h) := by
  obtain ⟨entries, hb, -⟩ := hs.buffer
  rw [Outcome, setItem_dict hb]
  exact Outcome.bind (Outcome.ask (fun k _ => hs.fill hv hb k) (.refl hs))

/-- Storing an inert value under a key that is a text. -/
theorem putAt_outcome (hs : Standing h kind c) (hv : Inert h v) {key : Key} {name : String}
    (hk : key.text? = some name) :
    Outcome (putAt (.ref c.builder) key v) h (fun _ h' => Fills kind c h h')
      (Fills kind c h) := by
  refine Outcome.bind (Outcome.of_ok (getAttribute_buffer hs.placed) (Outcome.bind ?_))
  refine (Heap.settleKey_outcome hk).mono (fun k h₁ hk => ?_) fun _ hf => hf
  -- the key may be a text that is made only now, so the heap may be another one
  have he := Heap.extends_of_cells hk.2
  have hf := Fills.of_extends hs he
  exact Outcome.bind ((setItem_outcome hf.standing (hv.of_extends he) k.value).mono
    (fun _ _ => hf.trans) fun _ => hf.trans)

theorem set_outcome (hs : Standing h kind c) (hv : Inert h v) (key : Value) :
    Outcome (set (.ref c.builder) key v) h (fun _ h' => Fills kind c h h') (Fills kind c h) :=
  Outcome.get_bind (putAt_outcome hs hv (Heap.text?_keyName (.atom key)))

/-! ### Merging -/

/-- Whether a cell is a dictionary of inert values. -/
def Source (h : Heap) (r : Ref) : Prop :=
  ∃ entries, h.read r = some (.dict entries) ∧ ∀ p ∈ entries, Inert h p.2

/-- A dictionary of inert values is one while a builder is filled, its own dictionaries included. -/
theorem Fills.source (hf : Fills kind c h h') (hs : Standing h kind c) {r : Ref}
    (hr : Source h r) : Source h' r := by
  by_cases ha : r = c.attributes
  · obtain ⟨kept, hkept, -, -, hinert⟩ := hf.standing.attributes
    exact ⟨kept, ha ▸ hkept, hinert⟩
  · by_cases hb : r = c.buffer
    · exact hb ▸ hf.standing.buffer
    · obtain ⟨entries, hr, hinert⟩ := hr
      exact ⟨entries, (hf.read_eq r (Heap.lt_size_of_read hr) ha hb).trans hr,
        fun p hp => hf.inert (hinert p hp) hs⟩

/-- Storing the values under some keys of a dictionary of inert values. -/
theorem storeKeys_outcome {source : Ref} {size : Nat} :
    ∀ (keys : List Key) {h : Heap}, Standing h kind c → Source h source →
      Outcome (Heap.forEntries
        (fun key v => do discard (putAt (.ref c.builder) ((← get).keyName key) v)) source size keys)
        h (fun _ h' => Fills kind c h h') (Fills kind c h)
  | [], _, hs, _ => .refl hs
  | key :: rest, h, hs, hsource => by
    obtain ⟨entries, hr, hinert⟩ := hsource
    have hv : Inert h (((h.entriesAt source).get? key).getD .none) := by
      rw [Heap.entriesAt_dict hr]
      exact Inert.get?_getD hinert key
    refine Outcome.get_bind (Outcome.bind (Outcome.get_bind (Outcome.discard ?_)))
    refine (putAt_outcome hs hv (Heap.text?_keyName key)).mono (fun _ h₁ hf => ?_) fun _ hf => hf
    -- the dictionary may be one of the builder's own, and have got another key
    refine Outcome.get_bind ?_
    split
    · exact (storeKeys_outcome rest hf.standing (hf.source hs ⟨entries, hr, hinert⟩)).mono
        (fun _ _ => hf.trans) fun _ => hf.trans
    · exact hf

/-- Whether a value is inert and has inert values under its keys if it is a dictionary. -/
def InertWithin (h : Heap) : Value → Prop
  | .ref r => (∃ items, h.read r = some (.list items)) ∨ Source h r
  | v => Inert h v

theorem merge_outcome (hs : Standing h kind c) (hv : InertWithin h v) :
    Outcome (merge (.ref c.builder) v) h (fun _ h' => Fills kind c h h') (Fills kind c h) := by
  have hself : mergeSource v h = .ok v h := by
    cases v with
    | ref r =>
      rcases hv with ⟨items, hr⟩ | ⟨entries, hr, -⟩ <;>
        simp only [mergeSource, bind, EStateM.bind, run_get, Heap.cell?, hr] <;> rfl
    | _ => rfl
  refine Outcome.bind (Outcome.of_ok hself (Outcome.get_bind ?_))
  split
  · rename_i r hmapping
    cases v with
    | ref s =>
      obtain ⟨found, hfound, rfl⟩ := Option.map_eq_some_iff.mp hmapping
      rcases hv with ⟨items, hr⟩ | hsource
      · simp [Heap.dict?, Heap.depth, Heap.dictTo, hr] at hfound
      · refine Outcome.bind (Outcome.bind (Outcome.ask (fun entries _ => ?_) (.refl hs)))
        exact (storeKeys_outcome _ hs hsource).mono (fun _ _ hf => hf) fun _ hf => hf
    | _ => cases hmapping
  · exact .refl hs

end PageMeta.Builder
