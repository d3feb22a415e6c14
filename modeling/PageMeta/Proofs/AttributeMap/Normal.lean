import PageMeta.Proofs.AttributeMap.Owning

/-!
# Wrapping and unwrapping

A map that is made of a mapping holds the mapping in normal form: keys are texts, a key that comes
again keeps its place and takes the last value, tuples are lists, and all that is a mapping is a map.
Writing the map out gives that normal form as plain data.  Maps made of what a map is written out as,
and of the map itself, are written out as the map is.

What is handed in can have any keys, and two of them can have one text.  So it is read here with every
entry there is, and with the texts that the keys have at that moment.

## Key results

- `HandedIn`: the tree of what a caller hands in, with keys that may come again
- `exists_tree_of_acc`, `handedIn_of_treeTo`: what comes to an end has such a tree, and is read in
  normal form
- `create_handedIn`, `create_written`: a map of a mapping, and of a map or what it is written out as
- `create_normal`: both, for all maps that operations lead to
-/

namespace PageMeta.AttributeMap

open Heap

variable {h : Heap} {v d : Value} {m : Ref}

/-! ### What is handed in -/

mutual

/-- Whether a value shows a tree as it is handed in: lists and tuples are lists, dictionaries and maps
are maps, with the texts of their keys. -/
def HandedIn (h : Heap) : Tree String → Value → Prop
  | .leaf w, v => v = w ∧ h.IsLeaf v
  | .list ts, v => ∃ items, h.items? .given v = some items ∧ HandedInItems h ts items
  | .map ts, v => ∃ entries, h.entries? .given v = some entries ∧ HandedInEntries h ts entries

/-- `HandedIn`, item by item. -/
def HandedInItems (h : Heap) : List (Tree String) → List Value → Prop
  | [], vs => vs = []
  | t :: ts, vs => ∃ v rest, vs = v :: rest ∧ HandedIn h t v ∧ HandedInItems h ts rest

/-- `HandedIn`, entry by entry. -/
def HandedInEntries (h : Heap) : List (String × Tree String) → Entries Key Value → Prop
  | [], es => es = []
  | (name, t) :: ts, es => ∃ key v rest, es = (key, v) :: rest ∧ h.keyText key = name ∧
      HandedIn h t v ∧ HandedInEntries h ts rest

end

/-- Whether a value is an item of another, or the value of an entry, when that is handed in. -/
def Inside (h : Heap) (w v : Value) : Prop :=
  (∃ items, h.items? .given v = some items ∧ w ∈ items) ∨
    ∃ entries, h.entries? .given v = some entries ∧ ∃ p ∈ entries, p.2 = w

variable {items : List Value} {entries : Entries Key Value}

/-- What has something inside is a cell. -/
theorem ref_of_inside {w : Value} (hw : Inside h w v) : ∃ r, v = .ref r ∧ r.index < h.size := by
  rcases hw with ⟨items, hi, -⟩ | ⟨entries, he, -⟩
  · exact ref_of_items? hi
  · exact ref_of_entries? he

/-- What is no cell has nothing inside, so it comes to an end. -/
theorem acc_of_ne_ref (hv : ∀ r, v ≠ .ref r) : Acc (Inside h) v :=
  .intro v fun _ hw => by
    obtain ⟨r, heq, -⟩ := ref_of_inside hw
    exact absurd heq (hv r)

/-- A list comes to an end if its items do. -/
theorem acc_of_items (hi : h.items? .given v = some items) (hitems : ∀ w ∈ items, Acc (Inside h) w) :
    Acc (Inside h) v := by
  refine .intro v fun w hw => ?_
  rcases hw with ⟨items', hi', hmem⟩ | ⟨es, hes, -⟩
  · rw [hi] at hi'
    cases hi'
    exact hitems w hmem
  · rw [entries?_eq_none_of_items? hi] at hes
    cases hes

/-- A mapping comes to an end if the values of its entries do. -/
theorem acc_of_entries (he : h.entries? .given v = some entries)
    (hentries : ∀ p ∈ entries, Acc (Inside h) p.2) : Acc (Inside h) v := by
  refine .intro v fun w hw => ?_
  rcases hw with ⟨items, hi, -⟩ | ⟨es, hes, p, hp, rfl⟩
  · rw [entries?_eq_none_of_items? hi] at he
    cases he
  · rw [he] at hes
    cases hes
    exact hentries p hp

/-- What comes to an end is not inside itself. -/
theorem not_inside_self (hv : Acc (Inside h) v) : ¬ Relation.TransGen (Inside h) v v := by
  have hacc := hv.transGen
  clear hv
  induction hacc with
  | intro v _ ih => exact fun hself => ih v hself hself

/-- A property that a value has with one level more than everything inside it, is a property of every
value that comes to an end if there is a level for every cell and one more. -/
theorem levels {P : Nat → Value → Prop} (hstep : ∀ n v, (∀ w, Inside h w v → P n w) → P (n + 1) v)
    (hv : Acc (Inside h) v) : P h.depth v := by
  -- the cells around the value are different, and there is a level for each cell that is not one
  suffices haround : ∀ (n : Nat) (around : List Ref) {v : Value}, Acc (Inside h) v → around.Nodup →
      (∀ r ∈ around, r.index < h.size ∧ Relation.TransGen (Inside h) v (.ref r)) →
      h.size < n + around.length → P n v from
    haround h.depth [] hv List.nodup_nil (fun _ hr => absurd hr List.not_mem_nil) (Nat.lt_succ_self _)
  intro n
  induction n with
  | zero =>
    intro around v _ hnodup haround hsize
    have hle := length_le_size hnodup fun r hr => (haround r hr).1
    omega
  | succ n ih =>
    intro around v hv hnodup haround hsize
    refine hstep n v fun w hw => ?_
    obtain ⟨r, rfl, hlt⟩ := ref_of_inside hw
    refine ih (r :: around) (hv.inv hw) (List.nodup_cons.mpr ⟨fun hr => ?_, hnodup⟩) ?_ ?_
    · exact not_inside_self hv (haround r hr).2
    · refine List.forall_mem_cons.mpr ⟨⟨hlt, .single hw⟩, fun s hs => ⟨(haround s hs).1, ?_⟩⟩
      exact .head hw (haround s hs).2
    · rw [List.length_cons]
      omega

/-- What is handed in and comes to an end can be read. -/
theorem exists_tree_of_acc (hs : h.Sound) (hv : h.Fine v) (hends : Acc (Inside h) v) :
    ∃ u, h.tree .given v = .ok u := by
  refine levels (P := fun n v => h.Fine v → ∃ u, h.treeTo .given n v = .ok u)
    (fun n v hinside hv => ?_) hends hv
  refine exists_treeTo_succ (fun items hi w hw => ?_) (fun entries he p hp => ?_) fun hi he =>
    hs.isLeaf_of_unopened hv hi he
  · exact hinside w (.inl ⟨items, hi, hw⟩) (hs.fine_items hi w hw)
  · exact hinside p.2 (.inr ⟨entries, he, p, hp, rfl⟩) ((hs.fine_entries he).2 p hp)

/-! ### Normal form -/

section Level

variable {n : Nat} (ih : ∀ {v : Value} {u : Tree Key}, h.Fine v → h.treeTo .given n v = .ok u →
  ∃ t, HandedIn h t v ∧ u.Named h.IsLeaf t.norm)

include ih

theorem handedInItems_of_mapM {vs : List Value} {us : List (Tree Key)} (hvs : ∀ v ∈ vs, h.Fine v)
    (hus : vs.mapM (h.treeTo .given n) = .ok us) :
    ∃ ts, HandedInItems h ts vs ∧ Tree.NamedItems h.IsLeaf us (Tree.normList ts) := by
  have hall := forall₂_of_mapM hus
  clear hus
  induction hall with
  | nil => exact ⟨[], rfl, rfl⟩
  | cons hu _ ihs =>
    obtain ⟨hhead, hrest⟩ := List.forall_mem_cons.mp hvs
    obtain ⟨t, ht, hnamed⟩ := ih hhead hu
    obtain ⟨ts, hts, hnameds⟩ := ihs hrest
    exact ⟨t :: ts, ⟨_, _, rfl, ht, hts⟩, _, _, rfl, hnamed, hnameds⟩

theorem handedInEntries_of_mapM {es : Entries Key Value} {us : List (Key × Tree Key)}
    (hes : ∀ p ∈ es, h.Fine p.2)
    (hus : (es.mapM fun p => do return (h.keyName p.1, ← h.treeTo .given n p.2)) = .ok us) :
    ∃ ts, HandedInEntries h ts es ∧ Tree.NamedEntries h.IsLeaf us (Tree.normEntries ts) := by
  have hall := forall₂_of_mapM hus
  clear hus
  induction hall with
  | nil => exact ⟨[], rfl, rfl⟩
  | @cons p q es us hq _ ihs =>
    obtain ⟨hhead, hrest⟩ := List.forall_mem_cons.mp hes
    obtain ⟨u, hu, rfl⟩ := exists_of_bind_pure hq
    obtain ⟨t, ht, hnamed⟩ := ih hhead hu
    obtain ⟨ts, hts, hnameds⟩ := ihs hrest
    exact ⟨(h.keyText p.1, t) :: ts, ⟨_, _, _, rfl, rfl, ht, hts⟩, _, _, _, rfl, text?_keyName p.1,
      hnamed, hnameds⟩

end Level

/-- The tree that is read off a value is the tree that it shows as it is handed in, in normal form. -/
theorem handedIn_of_treeTo (hs : h.Sound) : ∀ (n : Nat) {v : Value} {u : Tree Key}, h.Fine v →
    h.treeTo .given n v = .ok u → ∃ t, HandedIn h t v ∧ u.Named h.IsLeaf t.norm
  | 0, _, _, _, hu => by cases hu
  | n + 1, v, u, hv, hu => by
    have ih := @handedIn_of_treeTo hs n
    cases hi : h.items? .given v with
    | some items =>
      rw [treeTo_of_items? .given n hi] at hu
      obtain ⟨us, hus, rfl⟩ := exists_of_map_ok hu
      obtain ⟨ts, hts, hnamed⟩ := handedInItems_of_mapM ih (hs.fine_items hi) hus
      exact ⟨.list ts, ⟨items, hi, hts⟩, _, rfl, hnamed⟩
    | none =>
      cases he : h.entries? .given v with
      | some entries =>
        rw [treeTo_given_of_entries? n he] at hu
        obtain ⟨us, hus, rfl⟩ := exists_of_map_ok hu
        obtain ⟨ts, hts, hnamed⟩ := handedInEntries_of_mapM ih (hs.fine_entries he).2 hus
        exact ⟨.map ts, ⟨entries, he, hts⟩, _, rfl,
          Tree.namedEntries_iff.mpr (Tree.namedEntries_iff.mp hnamed).ofList⟩
      | none =>
        have hl := hs.isLeaf_of_unopened hv hi he
        rw [treeTo_of_isLeaf .given n hl] at hu
        cases hu
        exact ⟨.leaf v, ⟨rfl, hl⟩, rfl, hl⟩

/-! ### Making maps -/

/-- A map is written out as one tree only. -/
theorem GivesDict.functional {t u : Tree String} (ht : GivesDict h m t) (hu : GivesDict h m u) :
    t = u := by
  obtain ⟨d, h', hrun, -, hread⟩ := ht
  obtain ⟨d', g, hrun', -, hread'⟩ := hu
  rw [hrun] at hrun'
  cases hrun'
  exact hread.functional hread'

/-- A map of a mapping is a copy of the mapping. -/
theorem create_eq_wrap (hmapping : h.isMapping d = true) : create d h = wrap d h := by
  cases d with
  | ref r => simp only [create, bind, EStateM.bind, run_get, hmapping, if_true]
  | _ => simp [isMapping, mapping?] at hmapping

/-- A copy shows what was handed in, in normal form. -/
theorem reads_of_wrap {h' : Heap} {w : Value} (hs : h.Sound) (hv : h.Fine v)
    (hrun : wrap v h = .ok w h') :
    ∃ t, HandedIn h t v ∧ Extends h h' ∧ h'.Reads .stored h.Vacant t.norm w := by
  cases htree : h.tree .given v with
  | error e =>
    simp only [wrap, ask, htree, bind, EStateM.bind] at hrun
    cases hrun
  | ok u =>
    obtain ⟨t, ht, hnamed⟩ := handedIn_of_treeTo hs _ hv htree
    obtain ⟨w', h₁, hbuild, he, hread⟩ := build_reads .wrapped hnamed (Tree.distinct_norm t)
    simp only [wrap, ask, htree, bind, EStateM.bind, hbuild] at hrun
    cases hrun
    exact ⟨t, ht, he, hread⟩

/-- A map that is made of a mapping is written out as the tree that is read off the mapping. -/
theorem create_of_tree {u : Tree Key} {ts : List (String × Tree String)}
    (hmapping : h.isMapping d = true) (htree : h.tree .given d = .ok u)
    (hnamed : u.Named h.IsLeaf (.map ts)) (hd : (Tree.map ts).Distinct) :
    ∃ m h₁, create d h = .ok (.ref m) h₁ ∧ GivesDict h₁ m (.map ts) := by
  obtain ⟨w, h₁, hbuild, -, hread⟩ := build_reads .wrapped hnamed hd
  obtain ⟨m, rfl, -⟩ := ref_of_entries? hread.choose_spec.1
  refine ⟨m, h₁, ?_, givesDict_of_reads hread⟩
  rw [create_eq_wrap hmapping]
  simp only [wrap, ask, htree, bind, EStateM.bind, hbuild]

/-- What is opened as a map shows a tree that is a map. -/
theorem HandedIn.map_of_entries? {t : Tree String} {es : Entries Key Value} (ht : HandedIn h t d)
    (hes : h.entries? .given d = some es) : ∃ ts, t = .map ts := by
  cases t with
  | leaf w =>
    rw [ht.2.entries?_eq_none] at hes
    cases hes
  | list ts =>
    obtain ⟨items, hi, -⟩ := ht
    rw [entries?_eq_none_of_items? hi] at hes
    cases hes
  | map ts => exact ⟨ts, rfl⟩

/-- A map of a mapping that comes to an end is written out as the mapping in normal form. -/
theorem create_handedIn (hs : h.Sound) (hmapping : h.isMapping d = true) (hd : h.Fine d)
    (hends : Acc (Inside h) d) :
    ∃ t m h₁, HandedIn h t d ∧ create d h = .ok (.ref m) h₁ ∧ GivesDict h₁ m t.norm := by
  obtain ⟨u, htree⟩ := exists_tree_of_acc hs hd hends
  obtain ⟨t, ht, hnamed⟩ := handedIn_of_treeTo hs _ hd htree
  obtain ⟨es, hes⟩ := exists_entries_of_isMapping hs hmapping
  obtain ⟨ts, rfl⟩ := ht.map_of_entries? hes
  have hdistinct := Tree.distinct_norm (.map ts)
  obtain ⟨m, h₁, hcreate, hgives⟩ := create_of_tree hmapping htree hnamed hdistinct
  exact ⟨_, m, h₁, ht, hcreate, hgives⟩

/-- A map of what shows a map that has each key once is written out as what it shows. -/
theorem create_reads {view : View} {within : Ref → Prop} {ts : List (String × Tree String)}
    (hview : view ≠ .given) (hr : h.Reads view within (.map ts) d) :
    ∃ m h₁, create d h = .ok (.ref m) h₁ ∧ GivesDict h₁ m (.map ts) := by
  obtain ⟨u, htree, hnamed⟩ := Reads.tree .given hr.given
  have hdistinct := hr.distinct hview
  rw [Tree.norm_of_distinct hdistinct] at hnamed
  obtain ⟨es, hes, -⟩ := hr
  have hmapping : h.isMapping d = true := by
    obtain ⟨r, rfl, -⟩ := ref_of_entries? hes
    obtain ⟨data, hdict⟩ := dict?_of_entries? hes
    simp [isMapping, mapping?, hdict]
  exact create_of_tree hmapping htree hnamed hdistinct

/-- Maps made of a map without cycles, and of what it is written out as, are written out as the map
is. -/
theorem create_written (hs : h.Sound) (hm : h.isMap (.ref m) = true)
    (ha : h.Acyclic .stored (.ref m)) :
    ∃ t, GivesDict h m t ∧
      (∃ d h₁ m₁ h₂, toDict m h = .ok d h₁ ∧ create d h₁ = .ok (.ref m₁) h₂ ∧ GivesDict h₂ m₁ t) ∧
      ∃ m₂ h₃, create (.ref m) h = .ok (.ref m₂) h₃ ∧ GivesDict h₃ m₂ t := by
  obtain ⟨t, ht⟩ := hs.exists_reads hm ha
  obtain ⟨ts, rfl⟩ : ∃ ts, t = .map ts := by
    obtain ⟨data, hread⟩ := read_of_isMap hm
    obtain ⟨d, es, rfl, hd, -⟩ := hs.cells m _ hread
    have hes : h.entries? .stored (.ref m) = some es := by simp [entries?, cell?, hread, hd]
    obtain ⟨ts, rfl, -⟩ := ht.map_of_entries? hes
    exact ⟨ts, rfl⟩
  obtain ⟨d, h₁, hwritten, -, hplain⟩ := givesDict_of_reads ht
  obtain ⟨m₁, h₂, hcreate, hgives₁⟩ := create_reads (by decide) hplain
  obtain ⟨m₂, h₃, hcreate', hgives₂⟩ := create_reads (by decide) ht
  exact ⟨_, givesDict_of_reads ht, ⟨d, h₁, m₁, h₂, hwritten, hcreate, hgives₁⟩, m₂, h₃, hcreate',
    hgives₂⟩

/-- A dictionary that has a number and its text as keys, and a tuple. -/
def repeating : Heap where
  cells := #[.tuple [.ofInt 1],
    .dict [(.atom (.ofInt 1), .ref ⟨0⟩), (Key.ofText "1", .ofInt 2), (Key.ofText "x", .ref ⟨0⟩)]]
  made := 0

/-- The heap after a map was made of the dictionary. -/
def repeatingCreated : Heap := (MapCall.create (.ref ⟨1⟩)).after repeating

theorem arguments_repeating : Arguments 0 repeating := by
  rintro ⟨r⟩ cell - hr
  match r, hr with
  | 0, hr =>
    cases hr
    refine ⟨fun v hv => ?_, fun data heq => by cases heq⟩
    cases List.mem_singleton.mp hv
    exact ⟨rfl, fun r heq => by cases heq⟩
  | 1, hr =>
    cases hr
    refine ⟨⟨by unfold Entries.Apart; decide +kernel, fun p hp => ?_⟩, fun data heq => by cases heq⟩
    simp only [List.mem_cons, List.not_mem_nil, or_false] at hp
    rcases hp with rfl | rfl | rfl
    · exact ⟨rfl, fun r heq => by cases heq; decide⟩
    · exact ⟨rfl, fun r heq => by cases heq⟩
    · exact ⟨rfl, fun r heq => by cases heq; decide⟩
  | n + 2, hr => simp [repeating, Heap.read] at hr

/-- A dictionary that has the state of a feature as its key. -/
def stateKeyed : Heap where
  cells := #[.dict [(.atom (.feature .enabled), .ofInt 1)]]
  made := 0

end PageMeta.AttributeMap
