import PageMeta.Proofs.Heap.Changes
import PageMeta.Proofs.Outcome
import PageMeta.Proofs.Heap.Sound

/-!
# Steps that keep a heap sound

Copying into an attribute map makes new cells, and new maps over new dictionaries; storing an entry
writes the dictionary of one map.  Both keep the representation invariant.

## Key results

- `build_grows`: building a tree keeps a heap sound
- `wrap_outcome`: copying something into a map
- `putEntry_outcome`: storing an entry in a map
-/

namespace PageMeta.Heap

variable {h h' : Heap} {v w : Value}

/-! ### Trees of sound heaps -/

/-- A traversal that succeeds gives what each element gives. -/
theorem forall₂_of_mapM {α β ε : Type} {f : α → Except ε β} : ∀ {as : List α} {bs : List β},
    as.mapM f = .ok bs → List.Forall₂ (fun a b => f a = .ok b) as bs
  | [], bs, hbs => by
    cases hbs
    exact .nil
  | a :: as, bs, hbs => by
    rw [List.mapM_cons] at hbs
    cases hb : f a with
    | error e => rw [hb] at hbs; cases hbs
    | ok b =>
      cases hr : as.mapM f with
      | error e => rw [hb, hr] at hbs; cases hbs
      | ok bs' =>
        rw [hb, hr] at hbs
        cases hbs
        exact .cons hb (forall₂_of_mapM hr)

/-- What is on one of two lists that are beside each other has something beside it. -/
theorem exists_of_forall₂ {α β : Type} {R : α → β → Prop} {as : List α} {bs : List β}
    (hf : List.Forall₂ R as bs) : ∀ a ∈ as, ∃ b ∈ bs, R a b := by
  induction hf with
  | nil => exact fun a ha => absurd ha List.not_mem_nil
  | cons hab _ ih =>
    refine List.forall_mem_cons.mpr ⟨⟨_, List.mem_cons_self, hab⟩, fun a ha => ?_⟩
    obtain ⟨b, hb, hab⟩ := ih a ha
    exact ⟨b, List.mem_cons_of_mem _ hb, hab⟩

/-- The trees of values that are there have leaves that are there. -/
theorem named_of_mapM {n : Nat}
    (ih : ∀ {v : Value} {u : Tree Key}, h.Fine v → h.treeTo .given n v = .ok u →
      ∃ t, u.Named h.IsLeaf t ∧ t.Distinct) {vs : List Value} {us : List (Tree Key)}
    (hv : ∀ v ∈ vs, h.Fine v) (hus : vs.mapM (h.treeTo .given n) = .ok us) :
    ∃ ts, Tree.NamedItems h.IsLeaf us ts ∧ Tree.DistinctList ts := by
  have hall := forall₂_of_mapM hus
  clear hus
  induction hall with
  | nil => exact ⟨[], rfl, trivial⟩
  | cons hu _ ihs =>
    obtain ⟨hhead, hrest⟩ := List.forall_mem_cons.mp hv
    obtain ⟨t, ht, hd⟩ := ih hhead hu
    obtain ⟨ts, hts, hds⟩ := ihs hrest
    exact ⟨t :: ts, ⟨t, ts, rfl, ht, hts⟩, hd, hds⟩

theorem namedEntries_of_mapM {n : Nat}
    (ih : ∀ {v : Value} {u : Tree Key}, h.Fine v → h.treeTo .given n v = .ok u →
      ∃ t, u.Named h.IsLeaf t ∧ t.Distinct) {es : Entries Key Value}
    {us : List (Key × Tree Key)} (hv : ∀ p ∈ es, h.Fine p.2)
    (hus : (es.mapM fun p => do return (h.keyName p.1, ← h.treeTo .given n p.2)) = .ok us) :
    ∃ ts, Tree.NamedEntries h.IsLeaf us ts ∧ Tree.DistinctEntries ts := by
  have hall := forall₂_of_mapM hus
  clear hus
  induction hall with
  | nil => exact ⟨[], rfl, trivial⟩
  | @cons p q es us hq _ ihs =>
    obtain ⟨hhead, hrest⟩ := List.forall_mem_cons.mp hv
    cases hu : h.treeTo .given n p.2 with
    | error e => rw [hu] at hq; cases hq
    | ok u =>
      rw [hu] at hq
      cases hq
      obtain ⟨t, ht, hd⟩ := ih hhead hu
      obtain ⟨ts, hts, hds⟩ := ihs hrest
      exact ⟨(_, t) :: ts, ⟨_, t, ts, rfl, text?_keyName p.1, ht, hts⟩, hd, hds⟩

/-- A tree that is read off a value in a sound heap has texts as keys and leaves that are there. -/
theorem Sound.treeTo_named (hs : h.Sound) : ∀ (n : Nat) {v : Value} {u : Tree Key}, h.Fine v →
    h.treeTo .given n v = .ok u → ∃ t, u.Named h.IsLeaf t ∧ t.Distinct := by
  intro n
  induction n with
  | zero => intro v u _ hu; cases hu
  | succ n ih =>
    intro v u hv hu
    cases hi : h.items? .given v with
    | some items =>
      rw [treeTo_of_items? .given n hi] at hu
      cases hus : items.mapM (h.treeTo .given n) with
      | error e => rw [hus] at hu; cases hu
      | ok us =>
        rw [hus] at hu
        cases hu
        obtain ⟨ts, hts, hd⟩ := named_of_mapM ih (hs.fine_items hi) hus
        exact ⟨.list ts, ⟨ts, rfl, hts⟩, hd⟩
    | none =>
      cases he : h.entries? .given v with
      | none =>
        have hl := hs.isLeaf_of_unopened hv hi he
        rw [treeTo_of_isLeaf .given n hl] at hu
        cases hu
        exact ⟨.leaf v, ⟨rfl, hl⟩, trivial⟩
      | some entries =>
        rw [treeTo_given_of_entries? n he] at hu
        cases hus : entries.mapM fun p => do return (h.keyName p.1, ← h.treeTo .given n p.2) with
        | error e => rw [hus] at hu; cases hu
        | ok us =>
          rw [hus] at hu
          cases hu
          obtain ⟨ts, hts, hd⟩ := namedEntries_of_mapM ih (hs.fine_entries he).2 hus
          refine ⟨.map (Entries.ofList ts), ⟨_, rfl, ?_⟩, ?_⟩
          · exact Tree.namedEntries_iff.mpr (Tree.namedEntries_iff.mp hts).ofList
          · -- writing entries one after the other keeps one of each name
            refine ⟨Entries.nodup_keys_putAll _ List.nodup_nil, Tree.distinctEntries_iff.mpr ?_⟩
            exact Tree.forall_putAll (Tree.distinctEntries_iff.mp hd) (by simp)

/-! ### Growing -/

/-- A later heap that is sound and has new cells only.  There are new maps only if maps were built,
and they are over new dictionaries. -/
structure Grows (building : Building) (h h' : Heap) : Prop where
  sound : h'.Sound
  cells : Extends h h'
  maps : ∀ m d, h'.read m = some (.map (.ref d)) →
    h.read m = some (.map (.ref d)) ∨ building = .wrapped ∧ h.size ≤ d.index

namespace Grows

variable {building : Building}

theorem refl (hs : h.Sound) : Grows building h h := ⟨hs, Agree.refl _ _, fun _ _ hm => .inl hm⟩

theorem trans {h'' : Heap} (h₁ : Grows building h h') (h₂ : Grows building h' h'') :
    Grows building h h'' where
  sound := h₂.sound
  cells := h₁.cells.trans h₂.cells
  maps m d hm := (h₂.maps m d hm).elim (h₁.maps m d) fun hle =>
    .inr ⟨hle.1, Nat.le_trans h₁.cells.size_le hle.2⟩

theorem of_cells (hs : h.Sound) (hc : h'.cells = h.cells) : Grows building h h' where
  sound := hs.of_cells hc
  cells := extends_of_cells hc
  maps m d hm := .inl (by rwa [read, hc] at hm)

/-- Where no maps were built there may as well have been some. -/
theorem wrapped (hg : Grows building h h') : Grows .wrapped h h' :=
  ⟨hg.sound, hg.cells, fun m d hm => (hg.maps m d hm).imp_right fun hn => ⟨rfl, hn.2⟩⟩

/-- One more list, tuple or dictionary. -/
theorem push_plain (hs : h.Sound) {c : Cell} (hc : h.FineCell c) (hn : ∀ data, c ≠ .map data) :
    Grows building h (h.push c) where
  sound := hs.push_plain hc hn
  cells := extends_push h c
  maps m d hm := by
    rcases read_push_cases hm with ⟨-, heq⟩ | hm
    · exact absurd heq.symm (hn _)
    · exact .inl hm

/-- One more map over a new dictionary. -/
theorem make (hs : h.Sound) {entries : Entries Key Value} (ha : entries.Apart)
    (ht : entries.TextKeys) (hv : ∀ p ∈ entries, h.Fine p.2 ∧ h.Storable p.2) :
    Grows .wrapped h ((h.push (.dict entries)).push (.map (.ref h.next))) where
  sound := hs.make ha ht hv
  cells := (extends_push h _).trans (extends_push _ _)
  maps m d hm := by
    rcases read_push_cases hm with ⟨-, heq⟩ | hm
    · cases heq
      exact .inr ⟨rfl, Nat.le_refl _⟩
    · rcases read_push_cases hm with ⟨-, heq⟩ | hm
      · cases heq
      · exact .inl hm

end Grows

mutual

/-- Building a tree keeps a heap sound. -/
theorem build_grows (building : Building) : ∀ {u : Tree Key} {t : Tree String} {h h' : Heap}
    {w : Value}, h.Sound → u.Named h.IsLeaf t → t.Distinct →
    build building u h = .ok w h' → Grows building h h'
  | .leaf v, _, h, h', w, hs, ⟨ht, hl⟩, _, hw => by
    -- a leaf is there already, so nothing is made
    rw [build, settle_of_isMade hl.1] at hw
    cases hw
    exact .refl hs
  | .list us, _, h, h', w, hs, ⟨ts, ht, hus⟩, hd, hw => by
    subst ht
    obtain ⟨vs, h₁, hvs, -, hr⟩ := buildList_reads building hus hd
    have hg := buildList_grows building hs hus hd hvs
    rw [build] at hw
    simp only [bind, EStateM.bind, hvs] at hw
    cases hw
    exact hg.trans (.push_plain hg.sound (fun v hv => hr.fine v hv) fun _ heq => by cases heq)
  | .map us, _, h, h', w, hs, ⟨ts, ht, hus⟩, hd, hw => by
    subst ht
    obtain ⟨es, h₁, hes, -, hr⟩ := buildEntries_reads building hus hd.2
    have hg := buildEntries_grows building hs hus hd.2 hes
    rw [build] at hw
    simp only [bind, EStateM.bind, hes] at hw
    have hm : Entries.Match (fun _ t v => h₁.Reads building.shown h.Vacant t v) ts es := by
      cases building <;> exact readsEntries_iff.mp hr
    have hapart := hm.apart_iff.mpr hd.1
    have hfine : ∀ p ∈ es, h₁.Fine p.2 := fun p hp => by
      obtain ⟨t, ht⟩ := hr.reads_of_mem p hp
      exact ht.fine
    -- the entries stand; what is put on top of them differs: a dictionary, or a map over one
    cases building with
    | plain =>
      cases hw
      exact hg.trans (.push_plain hg.sound ⟨hapart, hfine⟩ fun _ heq => by cases heq)
    | wrapped =>
      cases hw
      refine hg.trans (.make hg.sound hapart (fun p hp => ?_) fun p hp => ⟨hfine p hp, ?_⟩)
      · obtain ⟨name, hk⟩ := ReadsEntries.keyReads hr p hp
        exact ⟨name, hk⟩
      · obtain ⟨t, ht⟩ := hr.reads_of_mem p hp
        exact ht.storable

/-- `build_grows`, item by item. -/
theorem buildList_grows (building : Building) : ∀ {us : List (Tree Key)}
    {ts : List (Tree String)} {h h' : Heap} {vs : List Value}, h.Sound →
    Tree.NamedItems h.IsLeaf us ts → Tree.DistinctList ts →
    buildList building us h = .ok vs h' → Grows building h h'
  | [], _, h, h', vs, hs, _, _, hvs => by
    cases hvs
    exact .refl hs
  | u :: us, _, h, h', vs, hs, ⟨t, ts, hts, hu, hus⟩, hd, hvs => by
    subst hts
    obtain ⟨v, h₁, hv, he₁, -⟩ := build_reads building hu hd.1
    have hus₁ := hus.imp fun hl => hl.extends he₁
    obtain ⟨vs', h₂, hvs', -, -⟩ := buildList_reads building hus₁ hd.2
    have hg₁ := build_grows building hs hu hd.1 hv
    have hg₂ := buildList_grows building hg₁.sound hus₁ hd.2 hvs'
    rw [buildList] at hvs
    simp only [bind, EStateM.bind, hv, hvs'] at hvs
    cases hvs
    exact hg₁.trans hg₂

/-- `build_grows`, entry by entry. -/
theorem buildEntries_grows (building : Building) : ∀ {us : List (Key × Tree Key)}
    {ts : List (String × Tree String)} {h h' : Heap} {es : Entries Key Value}, h.Sound →
    Tree.NamedEntries h.IsLeaf us ts → Tree.DistinctEntries ts →
    buildEntries building us h = .ok es h' → Grows building h h'
  | [], _, h, h', es, hs, _, _, hes => by
    cases hes
    exact .refl hs
  | (key, u) :: us, _, h, h', es, hs, ⟨name, t, ts, hts, hk, hu, hus⟩, hd, hes => by
    subst hts
    obtain ⟨key', h₁, hkey, -, hc⟩ := settleKey_text? (h := h) hk
    have hg₁ : Grows building h h₁ := .of_cells hs hc
    have hu₁ := hu.imp fun hl => hl.extends hg₁.cells
    obtain ⟨v, h₂, hv, he₂, -⟩ := build_reads building hu₁ hd.1
    have hus₂ := hus.imp fun hl => hl.extends (hg₁.cells.trans he₂)
    obtain ⟨es', h₃, hes', -, -⟩ := buildEntries_reads building hus₂ hd.2
    have hg₂ := build_grows building hg₁.sound hu₁ hd.1 hv
    have hg₃ := buildEntries_grows building hg₂.sound hus₂ hd.2 hes'
    rw [buildEntries] at hes
    simp only [bind, EStateM.bind, hkey, hv, hes'] at hes
    cases hes
    exact (hg₁.trans hg₂).trans hg₃

end

/-! ### One operation on the heap -/

/-- A later heap that is sound, with all the cells and all the maps there were. -/
structure Keeps (h h' : Heap) : Prop where
  sound : h'.Sound
  size_le : h.size ≤ h'.size
  maps : ∀ m, h.isMap (.ref m) = true → h'.isMap (.ref m) = true

theorem Keeps.refl (hs : h.Sound) : Keeps h h := ⟨hs, Nat.le_refl _, fun _ hm => hm⟩

theorem Keeps.trans {h'' : Heap} (h₁ : Keeps h h') (h₂ : Keeps h' h'') : Keeps h h'' :=
  ⟨h₂.sound, Nat.le_trans h₁.size_le h₂.size_le, fun m hm => h₂.maps m (h₁.maps m hm)⟩

theorem Keeps.fine (hk : Keeps h h') (hv : h.Fine v) : h'.Fine v :=
  ⟨hv.1, fun r heq => Nat.lt_of_lt_of_le (hv.2 r heq) hk.size_le⟩

theorem Grows.keeps {building : Building} (hg : Grows building h h') : Keeps h h' := by
  refine ⟨hg.sound, hg.cells.size_le, fun m hm => ?_⟩
  obtain ⟨data, hr⟩ := read_of_isMap hm
  exact isMap_of_read (hg.cells.read_of_some hr)

/-- Copying something into a map succeeds with what can be stored, or changes nothing. -/
theorem wrap_outcome (hs : h.Sound) (hv : h.Fine v) :
    Outcome (wrap v) h (fun w h' => Grows .wrapped h h' ∧ h'.Fine w ∧ h'.Storable w)
      (fun h' => h' = h) := by
  -- the whole tree is read before anything is made, so a refusal leaves the heap alone
  refine Outcome.bind (Outcome.ask (fun u hu => ?_) rfl)
  obtain ⟨t, ht, hd⟩ := hs.treeTo_named _ hv hu
  obtain ⟨w, h', hw, -, hr⟩ := build_reads .wrapped ht hd
  have hr' : h'.Reads .stored h.Vacant t w := hr
  exact Outcome.of_ok hw ⟨build_grows .wrapped hs ht hd hw, hr'.fine, hr'.storable⟩

/-- What a map shows is written out in new cells. -/
theorem unwrap_grows {within : Ref → Prop} {t : Tree String} (hs : h.Sound)
    (hr : h.Reads .stored within t v) :
    ∃ w h', unwrap v h = .ok w h' ∧ Grows .plain h h' ∧ h'.Reads .plain h.Vacant t w := by
  obtain ⟨u, hu, hnamed⟩ := Reads.tree .stored hr
  have hd := hr.distinct (by decide)
  rw [Tree.norm_of_distinct hd] at hnamed
  obtain ⟨w, h', hw, -, hr'⟩ := build_reads .plain hnamed hd
  have hg := build_grows .plain hs hnamed hd hw
  exact ⟨w, h', by simp [unwrap, ask, hu, bind, EStateM.bind, hw], hg, hr'⟩

/-- Making a key keeps its text. -/
theorem settleKey_outcome {key : Key} {name : String} (hk : key.text? = some name)
    {failed : Heap → Prop} :
    Outcome (settleKey key) h (fun k h' => k.text? = some name ∧ h'.cells = h.cells) failed := by
  obtain ⟨k, h', hrun, hk', hc⟩ := settleKey_text? (h := h) hk
  exact Outcome.of_ok hrun ⟨hk', hc⟩

/-- Writing under a text among texts keeps the keys apart. -/
theorem apart_put (h : Heap) {key : Key} {name : String} {v : Value} {es : Entries Key Value}
    (ht : es.TextKeys) (ha : es.Apart) (hk : key.text? = some name) :
    (Entries.put key v es).Apart := by
  -- on the side of the names this is a fact about entries of one list
  have hm : Entries.Match (fun _ (_ _ : Value) => True) (h.named es) es := match_named ht
  have hnodup := hm.apart_iff.mp ha
  have hput : Entries.Match (fun _ (_ _ : Value) => True) (Entries.put name v (h.named es))
      (Entries.put key v es) := hm.put hk trivial
  exact hput.apart_iff.mpr (Entries.nodup_keys_put name v hnodup)

/-- A dictionary with texts as keys still is one after a value that is there was written in it. -/
theorem fineCell_put {key : Key} {name : String} {es : Entries Key Value} (ht : es.TextKeys)
    (hc : h.FineCell (.dict es)) (hk : key.text? = some name) (hv : h.Fine v) :
    h.FineCell (.dict (es.put key v)) := by
  obtain ⟨ha, hes⟩ := hc
  refine ⟨apart_put h ht ha hk, fun p hp => ?_⟩
  rcases Entries.mem_put hp with ⟨heq, -⟩ | hp
  · rw [heq]; exact hv
  · exact hes p hp

/-- Writing what can be stored under a text in the dictionary of a map. -/
theorem write_keeps {m d : Ref} {es : Entries Key Value} {key : Key} {name : String} (hs : h.Sound)
    (hm : h.read m = some (.map (.ref d))) (hd : h.read d = some (.dict es))
    (hk : key.text? = some name) (hv : h.Fine v) (hst : h.Storable v) :
    Keeps h (h.write d (.dict (es.put key v))) := by
  have ht : es.TextKeys := hs.textKeys (show h.entries? .stored (.ref m) = some es by
    simp [entries?, cell?, hm, hd])
  have hcell := fineCell_put ht (hs.cells d _ hd) hk hv
  refine ⟨hs.write hd hcell fun m' hm' => ?_, by rw [size_write], fun m' hm' => ?_⟩
  · have hstored := hs.stored m' _ hm'
    refine ⟨fun p hp => ?_, fun p hp => ?_⟩
    · rcases Entries.mem_put hp with ⟨-, heq | ⟨q, hq, heq⟩⟩ | hp
      · exact ⟨name, by rw [heq]; exact hk⟩
      · rw [← heq]; exact ht q hq
      · exact ht p hp
    · rcases Entries.mem_put hp with ⟨heq, -⟩ | hp
      · rw [heq]; exact hst
      · exact hstored.of_within (Within.self.entry hm' hd hp)
  · obtain ⟨data, hr'⟩ := read_of_isMap hm'
    refine isMap_of_read ((read_write_of_ne _ _ _ _ fun heq => ?_).trans hr')
    subst heq
    rw [hd] at hr'
    cases hr'

/-- Storing what can be stored under a text in a map. -/
theorem putEntry_outcome {m : Ref} {key : Key} {name : String} (hs : h.Sound)
    (hm : h.isMap (.ref m) = true) (hk : key.text? = some name) (hv : h.Fine v)
    (hst : h.Storable v) {failed : Heap → Prop} :
    Outcome (putEntry m key v) h (fun _ h' => Keeps h h') failed := by
  obtain ⟨data, hr⟩ := read_of_isMap hm
  obtain ⟨d, es, rfl, hd, -⟩ := hs.cells m _ hr
  exact Outcome.of_ok (putEntry_ok key v hr hd) (write_keeps hs hr hd hk hv hst)

end PageMeta.Heap
