import PageMeta.Proofs.Heap.PlainData
import PageMeta.Proofs.Json.Reading
import PageMeta.Proofs.Tree.Content

/-!
# Building data that were read

The scalars of a tree that was read are about to be made, so what is built of it shows another tree:
one whose scalars are made, with the same content.

## Key results

- `settle_isRead`: a scalar that is made has the content of the one that was read
- `buildText_isRead`: what is built of a tree that was read are plain data with its content
-/

namespace PageMeta.Heap

variable {h : Heap} {v : Value}

/-- Making a scalar that was read keeps its content, and changes no cell. -/
theorem settle_isRead (h : Heap) (hv : v.isRead = true) : ∃ w h', settle v h = .ok w h' ∧
    w.isPlain = true ∧ w.content = v.content ∧ h'.cells = h.cells := by
  by_cases hmade : v.isMade = true
  · refine ⟨v, h, by rw [settle_of_isMade hmade]; rfl, ?_, rfl, rfl⟩
    cases v <;> first | rfl | exact hmade | cases hv
  · obtain ⟨mark, h', hrun, hm, hc⟩ := settle_marked h v
    refine ⟨v.withMark mark, h', hrun, ?_, ?_, hc⟩
    · cases v <;> first | rfl | exact hm | cases hv
    · cases v with
      | real x old =>
        -- what is no number is told by its mark, and is read with one
        have hold : old = .pending := by simpa [Value.isMade] using hmade
        have hx : x ≠ .nan := by simpa [Value.isRead, hold] using hv
        simp [Value.withMark, Value.content, hx]
      | _ => first | rfl | cases hv

/-- Entries of the same content have the same keys. -/
theorem keys_eq_of_contents {ts us : Entries String (Tree String)}
    (heq : Tree.contents ts = Tree.contents us) : Entries.keys ts = Entries.keys us := by
  have hkeys : ∀ ts : Entries String (Tree String),
      Entries.keys (Tree.contents ts) = Entries.keys ts := fun ts => by
    rw [Tree.contents, Tree.mapLeavesEntries_eq, Entries.keys, Entries.keys, List.map_map]
    rfl
  rw [← hkeys ts, heq, hkeys us]

mutual

/-- What is built of a tree that was read are plain data with its content. -/
theorem build_isRead : ∀ {t : Tree String} {h : Heap}, t.allLeaves Value.isRead = true →
    t.Distinct → h.Sound → ∃ u w h', build .plain (t.mapKeys Key.ofText) h = .ok w h' ∧
      Grows .plain h h' ∧ IsData h' u w ∧ u.content = t.content
  | .leaf v, h, hleaves, _, hs => by
    obtain ⟨w, h', hrun, hplain, hcontent, hcells⟩ := settle_isRead h hleaves
    exact ⟨.leaf w, w, h', hrun, .of_cells hs hcells, .of_isPlain hplain, congrArg Tree.leaf hcontent⟩
  | .list ts, h, hleaves, hd, hs => by
    obtain ⟨us, ws, h₁, hrun, hg₁, hreads, hplain, hcontent⟩ := buildList_isRead hleaves hd hs
    obtain ⟨w, h₂, hnew, hg₂, hdata⟩ := newList_data hg₁.sound hreads hplain
    refine ⟨.list us, w, h₂, ?_, hg₁.trans hg₂, hdata, congrArg Tree.list hcontent⟩
    rw [Tree.mapKeys, build]
    simp only [bind, EStateM.bind, hrun, hnew]
  | .map ts, h, hleaves, hd, hs => by
    obtain ⟨us, es, h₁, hrun, hg₁, hreads, hplain, hcontent⟩ := buildEntries_isRead hleaves hd.2 hs
    have hnames : (Entries.keys us).Nodup := by
      rw [keys_eq_of_contents hcontent]
      exact hd.1
    obtain ⟨w, h₂, hnew, hg₂, hdata⟩ := newDict_data hg₁.sound hnames hreads hplain
    refine ⟨.map us, w, h₂, ?_, hg₁.trans hg₂, hdata, congrArg Tree.map hcontent⟩
    have hmake : Building.plain.make es h₁ = .ok w h₂ := hnew
    rw [Tree.mapKeys, build]
    simp only [bind, EStateM.bind, hrun, hmake]

/-- `build_isRead`, item by item. -/
theorem buildList_isRead : ∀ {ts : List (Tree String)} {h : Heap},
    Tree.allLeavesList Value.isRead ts = true → Tree.DistinctList ts → h.Sound →
      ∃ us ws h', buildList .plain (Tree.mapKeysList Key.ofText ts) h = .ok ws h' ∧
        Grows .plain h h' ∧ h'.ReadsItems .plain h'.Free us ws ∧
        Tree.allLeavesList Value.isPlain us = true ∧
        Tree.mapLeavesList Value.content us = Tree.mapLeavesList Value.content ts
  | [], h, _, _, hs => ⟨[], [], h, rfl, .refl hs, rfl, rfl, rfl⟩
  | t :: ts, h, hleaves, hd, hs => by
    rw [Tree.allLeavesList, Bool.and_eq_true] at hleaves
    obtain ⟨u, w, h₁, hrun₁, hg₁, hdata, hcontent₁⟩ := build_isRead hleaves.1 hd.1 hs
    obtain ⟨us, ws, h₂, hrun₂, hg₂, hreads, hplain, hcontent₂⟩ :=
      buildList_isRead hleaves.2 hd.2 hg₁.sound
    have hdata₂ := hdata.lasts hg₂.lasts
    refine ⟨u :: us, w :: ws, h₂, ?_, hg₁.trans hg₂, ⟨w, ws, rfl, hdata₂.reads, hreads⟩, ?_, ?_⟩
    · rw [Tree.mapKeysList, buildList]
      simp only [bind, EStateM.bind, hrun₁, hrun₂]
      rfl
    · rw [Tree.allLeavesList, Bool.and_eq_true]
      exact ⟨hdata.plain, hplain⟩
    · show u.content :: Tree.mapLeavesList Value.content us =
        t.content :: Tree.mapLeavesList Value.content ts
      rw [hcontent₁, hcontent₂]

/-- `build_isRead`, entry by entry. -/
theorem buildEntries_isRead : ∀ {ts : List (String × Tree String)} {h : Heap},
    Tree.allLeavesEntries Value.isRead ts = true → Tree.DistinctEntries ts → h.Sound →
      ∃ us es h', buildEntries .plain (Tree.mapKeysEntries Key.ofText ts) h = .ok es h' ∧
        Grows .plain h h' ∧ h'.ReadsEntries .plain h'.Free us es ∧
        Tree.allLeavesEntries Value.isPlain us = true ∧ Tree.contents us = Tree.contents ts
  | [], h, _, _, hs => ⟨[], [], h, rfl, .refl hs, rfl, rfl, rfl⟩
  | (name, t) :: ts, h, hleaves, hd, hs => by
    rw [Tree.allLeavesEntries, Bool.and_eq_true] at hleaves
    obtain ⟨u, w, h₁, hrun₁, hg₁, hdata, hcontent₁⟩ := build_isRead hleaves.1 hd.1 hs
    obtain ⟨us, es, h₂, hrun₂, hg₂, hreads, hplain, hcontent₂⟩ :=
      buildEntries_isRead hleaves.2 hd.2 hg₁.sound
    have hdata₂ := hdata.lasts hg₂.lasts
    refine ⟨(name, u) :: us, (Key.ofText name, w) :: es, h₂, ?_, hg₁.trans hg₂,
      ⟨Key.ofText name, w, es, rfl, rfl, hdata₂.reads, hreads⟩, ?_, ?_⟩
    · have hkey : settleKey (Key.ofText name) h = .ok (Key.ofText name) h := rfl
      rw [Tree.mapKeysEntries, buildEntries]
      simp only [bind, EStateM.bind, hkey, hrun₁, hrun₂]
      rfl
    · rw [Tree.allLeavesEntries, Bool.and_eq_true]
      exact ⟨hdata.plain, hplain⟩
    · show (name, u.content) :: Tree.contents us = (name, t.content) :: Tree.contents ts
      rw [hcontent₁, hcontent₂]

end

/-- What is built of a tree that was read are plain data with its content. -/
theorem buildText_isRead {t : Tree String} (ht : t.IsRead) (hs : h.Sound) :
    ∃ u w h', buildText .plain t h = .ok w h' ∧ Grows .plain h h' ∧ IsData h' u w ∧
      u.content = t.content := build_isRead ht.leaves ht.distinct hs

end PageMeta.Heap
