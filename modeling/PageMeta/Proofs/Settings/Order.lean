import PageMeta.Proofs.Settings.Again
import PageMeta.Proofs.Settings.Beside
import PageMeta.Proofs.Tree.Order

/-!
# Loading in any order

Settings come in fragments, one for each part of a site.  Fragments that never say different things
can be loaded in either order: two stores that hold the same are written down as equal dictionaries
afterwards, and the same is wrong with both.

A scalar is overwritten, whatever it is.  So two fragments that have maps for one scalar say
different things, and the one that is loaded last decides.

## Key results

- `twin_loadedParts`: the sections after loading in either order
- `localeFaults_congr`, `faults_congr`: what is wrong with stores of the same content
- `load_either_order`: loading in either order
-/

namespace PageMeta

namespace Tree

variable {t u : Tree String}

/-- What maps of the same content have under a key has the same content. -/
theorem twin_under (ht : t.Distinct) (hu : u.Distinct) (htwin : Twin t u) (key : String) :
    Twin (t.under key) (u.under key) := by
  cases t <;> cases u <;> first | exact htwin.elim | exact Value.twin_refl _ | skip
  have hkey := (twin_map_iff ht.1 hu.1).mp htwin key
  rw [under, under]
  revert hkey
  cases Entries.get? key _ <;> cases Entries.get? key _ <;> intro hkey
  · exact Value.twin_refl _
  · exact hkey.elim
  · exact hkey.elim
  · exact hkey

theorem isAbsent_eq_of_twin (htwin : Twin t u) : t.isAbsent = u.isAbsent := by
  cases t <;> cases u <;> first | exact htwin.elim | rfl | skip
  rcases Value.twin_cases htwin with rfl | ⟨_, _, _, rfl, rfl⟩ | ⟨_, _, _, _, rfl, rfl, -⟩ |
    ⟨_, _, _, rfl, rfl⟩ | ⟨_, _, _, rfl, rfl⟩ <;> rfl

end Tree

namespace Settings

open Heap

variable {h h' : Heap} {c c' : Cells} {scalar scalar' : String → Value}
  {part part' : SectionName → Tree String} {t u : Tree String} {v x y : Value}
  {ts us : Entries String (Tree String)} {κ : Type} {w : World κ}

/-! ### Sections -/

/-- Whether two fragments never say different things: what both have for a scalar is the same, and
where both have something at one path of a section that is no map, it is the same.  An absent section
says nothing. -/
structure Consistent (ts us : Entries String (Tree String)) : Prop where
  scalars : ∀ name ∈ scalarNames, ∀ t u, ts.get? name = some t → us.get? name = some u →
    Tree.Twin t u
  sections : ∀ name, (offer ts name).isAbsent = false → (offer us name).isAbsent = false →
    Tree.Compatible (offer ts name) (offer us name)

theorem isAbsent_eq_false_of_isMap (hm : t.isMap = true) : t.isAbsent = false := by
  cases t <;> first | rfl | cases hm

/-- The sections have the same content after two consistent fragments, in either order. -/
theorem twin_loadedParts (hp : ∀ name, (part name).Distinct) (ht : (Tree.map ts).Distinct)
    (hu : (Tree.map us).Distinct) (hc : Consistent ts us) (name : SectionName) :
    Tree.Twin (loadedParts (loadedParts part us) ts name)
      (loadedParts (loadedParts part ts) us name) := by
  have hdt := distinct_offer ht name
  have hdu := distinct_offer hu name
  unfold loadedParts
  cases hmt : (offer ts name).isMap <;> cases hmu : (offer us name).isMap
  · exact Tree.twin_refl (hp name)
  · exact Tree.twin_refl (Tree.distinct_deepMerge (hp name) hdu)
  · exact Tree.twin_refl (Tree.distinct_deepMerge (hp name) hdt)
  · exact Tree.twin_deepMerge_swap (hp name) hdt hdu (hc.sections name
      (isAbsent_eq_false_of_isMap hmt) (isAbsent_eq_false_of_isMap hmu))

/-! ### Scalars -/

/-- Whether two values are one, or lists of the same items, or plain data of the same content. -/
def Matching (h : Heap) (x y : Value) : Prop :=
  Twins h x y ∨ ∃ t u, IsData h t x ∧ IsData h u y ∧ Tree.Twin t u

/-- Matching values are equal to the same values, also in a larger heap. -/
theorem Matching.sameTo_congr (hm : Matching h x y) (he : Extends h h') {n : Nat} (hn : h.size < n)
    (hsize : 2 ≤ n) : SameTo (h'.sameTo n true) x y := by
  rcases hm with ht | ⟨t, u, ht, hu, htwin⟩
  · obtain ⟨m, rfl⟩ := Nat.exists_eq_add_of_le' hsize
    exact (ht.later fun r items hr => he.read_of_some hr).sameTo_congr m
  · exact Heap.sameTo_congr h' _ _ n (ht.reads.extends he) (hu.reads.extends he) htwin
      (Nat.lt_of_le_of_lt ht.reads.height_le hn) (Nat.lt_of_le_of_lt hu.reads.height_le hn)

/-- Scalars match after two consistent fragments, in either order. -/
theorem matching_of_takenFrom {o p : Option (Tree String)} {v' : Value} (hv : Twins h v' v)
    (ho : ∀ t u, o = some t → p = some u → Tree.Twin t u) (hx : TakenFrom h (p.or o) v x)
    (hy : TakenFrom h (o.or p) v' y) : Matching h y x := by
  have hself : ∀ {t}, IsData h t x → Tree.Twin t t := fun hd =>
    Tree.twin_refl (hd.reads.distinct (by decide))
  cases o with
  | none =>
    cases p with
    | none =>
      cases (show x = v from hx)
      cases (show y = v' from hy)
      exact .inl hv
    | some u => exact .inr ⟨u, u, hy, hx, hself hx⟩
  | some t =>
    cases p with
    | none => exact .inr ⟨t, t, hy, hx, hself hx⟩
    | some u => exact .inr ⟨t, u, hy, hx, ho t u rfl rfl⟩

/-! ### What is wrong -/

/-- Lists of items that are equal to the same values have the same values among their items. -/
theorem any_congr {same : Value → Value → Bool} {xs ys : List Value}
    (hf : List.Forall₂ (SameTo same) xs ys) (hxy : SameTo same x y) :
    xs.any (same · x) = ys.any (same · y) := by
  induction hf with
  | nil => rfl
  | @cons a b _ _ hab _ ih => rw [List.any_cons, List.any_cons, (hab x).2, (hxy b).1, ih]

theorem sameTo_self {same : Value → Value → Bool} (xs : List Value) :
    List.Forall₂ (SameTo same) xs xs := by
  induction xs with
  | nil => exact .nil
  | cons x xs ih => exact .cons (fun v => ⟨rfl, rfl⟩) ih

/-- Values that match are both lists, of items that are equal to the same values, or neither is one. -/
theorem Matching.lists (hm : Matching h x y) :
    (∃ xs ys, h.cell? x = some (.list xs) ∧ h.cell? y = some (.list ys) ∧
      List.Forall₂ (SameTo h.sameItem) xs ys) ∨
    (∀ items, h.cell? x ≠ some (.list items)) ∧ ∀ items, h.cell? y ≠ some (.list items) := by
  rcases hm with (rfl | ⟨items, hx, hy⟩) | ⟨t, u, ht, hu, htwin⟩
  · by_cases hlist : ∃ items, h.cell? x = some (.list items)
    · obtain ⟨items, hx⟩ := hlist
      exact .inl ⟨items, items, hx, hx, sameTo_self items⟩
    · have hno := not_exists.mp hlist
      exact .inr ⟨hno, hno⟩
  · exact .inl ⟨items, items, hx, hy, sameTo_self items⟩
  · obtain ⟨hreads, hp⟩ := ht
    obtain ⟨hreads', hq⟩ := hu
    have hheight := hreads.height_le
    have hheight' := hreads'.height_le
    cases t <;> cases u <;> first | exact htwin.elim | skip
    · -- scalars are no lists
      obtain ⟨rfl, -⟩ := hreads
      obtain ⟨rfl, -⟩ := hreads'
      refine .inr ⟨fun items heq => ?_, fun items heq => ?_⟩
      · cases x <;> first | (cases hp; done) | cases heq
      · cases y <;> first | (cases hq; done) | cases heq
    · obtain ⟨xs, hi, -, hxs⟩ := hreads
      obtain ⟨ys, hi', -, hys⟩ := hreads'
      obtain ⟨r, rfl, -⟩ := ref_of_items? hi
      obtain ⟨s, rfl, -⟩ := ref_of_items? hi'
      refine .inl ⟨xs, ys, read_of_items? (by decide) hi, read_of_items? (by decide) hi', ?_⟩
      rw [Tree.height] at hheight hheight'
      exact ReadsItems.sameTo_congr (Heap.sameTo_congr h _ _ h.depth) hxs hys htwin
        (by rw [depth]; omega) (by rw [depth]; omega)
    · obtain ⟨_, he, -⟩ := hreads
      obtain ⟨_, he', -⟩ := hreads'
      obtain ⟨r, rfl, ⟨hr, -⟩ | ⟨_, -, -, hview⟩⟩ := cell_of_entries? he
      · obtain ⟨s, rfl, ⟨hs, -⟩ | ⟨_, -, -, hview⟩⟩ := cell_of_entries? he'
        · refine .inr ⟨fun items heq => ?_, fun items heq => ?_⟩
          · rw [cell?, hr] at heq
            cases heq
          · rw [cell?, hs] at heq
            cases heq
        · exact absurd rfl hview
      · exact absurd rfl hview

/-- The same is wrong with locales that match. -/
theorem localeFaults_congr (hsize : 2 ≤ h.size)
    (hs : ∀ name ∈ scalarNames, Matching h (scalar name) (scalar' name)) :
    localeFaults h scalar = localeFaults h scalar' := by
  have hlocale := (hs "default_locale" (by decide)).sameTo_congr (Agree.refl _ _)
    (Nat.lt_succ_self _) (Nat.le_succ_of_le hsize)
  unfold localeFaults
  rcases (hs "available_locales" (by decide)).lists with ⟨xs, ys, hx, hy, hf⟩ | ⟨hx, hy⟩
  · have hempty : xs.isEmpty = ys.isEmpty := by cases hf <;> rfl
    rw [hx, hy]
    dsimp only
    rw [hempty, any_congr hf hlocale]
  · split
    · rename_i items heq; exact absurd heq (hx items)
    · rfl

/-- The value that a section has under a key shows what the tree of the section has there. -/
theorem Holds.setting_reads (hx : Holds h c scalar part) (name : SectionName) (key : String) :
    h.Reads .stored (fun _ => True) ((part name).under key) (settingAt h c name key) := by
  obtain ⟨us, hus⟩ : ∃ us, part name = .map us := by
    have hmap := hx.isMap_part name
    cases hpart : part name <;> rw [hpart] at hmap <;> first | exact ⟨_, rfl⟩ | cases hmap
  have hread := hx.reads name
  rw [hus] at hread ⊢
  exact (hread.mono fun _ _ => trivial).getD (by decide) key

/-- The same is wrong with stores whose scalars match and whose sections have the same content. -/
theorem faults_congr (hx : Holds h c scalar part) (hy : Holds h c' scalar' part')
    (hs : ∀ name ∈ scalarNames, Matching h (scalar name) (scalar' name))
    (hparts : ∀ name, Tree.Twin (part name) (part' name)) :
    faults h c scalar = faults h c' scalar' := by
  have htwin : ∀ name key, Tree.Twin ((part name).under key) ((part' name).under key) :=
    fun name key => Tree.twin_under ((hx.reads name).distinct (by decide))
      ((hy.reads name).distinct (by decide)) (hparts name) key
  have hmeasures : ∀ name key, h.length (settingAt h c name key) = h.length (settingAt h c' name key) ∧
      h.truth (settingAt h c name key) = h.truth (settingAt h c' name key) := fun name key =>
    (hx.setting_reads name key).measures_of_twin (by decide) (hy.setting_reads name key) (htwin name key)
  have hhost : hostFaults h c = hostFaults h c' := by
    rw [hostFaults, hostFaults, (hmeasures .sitemap "enabled").2,
      (hx.setting_reads .sitemap "host").isNone_eq, (hy.setting_reads .sitemap "host").isNone_eq,
      Tree.isAbsent_eq_of_twin (htwin .sitemap "host")]
  have hlength : ∀ key limit, lengthFaults h c key limit = lengthFaults h c' key limit :=
    fun key limit => by
      rw [lengthFaults, lengthFaults, exceeds, exceeds, (hmeasures .metaTags key).1,
        (hmeasures .metaTags key).2]
  rw [faults, faults, hhost, hlength, hlength, localeFaults_congr hx.layout.two_le_size hs]

/-! ### Either order -/

/-- Two fragments that never say different things can be loaded in either order.  Let two stores hold
the same, side by side, and let both fragments be such that the store loads them.  Then one store can
load the first and then the second, and the other the second and then the first.  They are written
down as equal dictionaries, and checking them gives the same result. -/
theorem load_either_order (call : Caller κ) {d e : Value}
    (hb : Beside w.heap c c' scalar scalar' part part)
    (hs : ∀ name ∈ scalarNames, Twins w.heap (scalar' name) (scalar name))
    (hd : Fragment w.heap c c' ts d) (he : Fragment w.heap c c' us e)
    (hdload : ∃ w', load call (.ref c.store) d w = .ok (.ref c.store) w')
    (heload : ∃ w', load call (.ref c.store) e w = .ok (.ref c.store) w')
    (hc : Consistent ts us) :
    ∃ w₁ w₂ w₃ w₄ t₁ w₅ t₂ w₆,
      load call (.ref c.store) d w = .ok (.ref c.store) w₁ ∧
      load call (.ref c.store) e w₁ = .ok (.ref c.store) w₂ ∧
      load call (.ref c'.store) e w₂ = .ok (.ref c'.store) w₃ ∧
      load call (.ref c'.store) d w₃ = .ok (.ref c'.store) w₄ ∧
      toDict call (.ref c.store) w₄ = .ok t₁ w₅ ∧ toDict call (.ref c'.store) w₅ = .ok t₂ w₆ ∧
      w₆.heap.same t₂ t₁ = true ∧
      validate call (.ref c'.store) w₄ = validate call (.ref c.store) w₄ := by
  obtain ⟨h₁, h₂, h₃, h₄, scalar₂, scalar₄, hrun₁, hrun₂, hrun₃, hrun₄, hb₄, htaken, hlists⟩ :=
    hb.load_both call hd he (fit_of_load hb.left (hd.apart.mono fun _ hr => hr.1) hdload.choose_spec)
      (fit_of_load hb.left (he.apart.mono fun _ hr => hr.1) heload.choose_spec)
  have hmatch : ∀ name ∈ scalarNames, Matching h₄ (scalar₄ name) (scalar₂ name) := fun name hn =>
    matching_of_takenFrom ((hs name hn).later hlists) (hc.scalars name hn) (htaken name hn).1
      (htaken name hn).2
  have hparts : ∀ name, Tree.Twin (loadedParts (loadedParts part us) ts name)
      (loadedParts (loadedParts part ts) us name) :=
    twin_loadedParts (fun name => (hb.left.reads name).distinct (by decide))
      (hd.apart.distinct (by decide)) (he.apart.distinct (by decide)) hc
  -- both are written down
  obtain ⟨t₁, h₅, hdump₁, hg₅, hw₁⟩ := toDict_displays call (w := { w with heap := h₄ }) hb₄.left.displays
  obtain ⟨t₂, h₆, hdump₂, hg₆, hw₂⟩ :=
    toDict_displays call (w := { w with heap := h₅ })
      (hb₄.right.displays.grows hg₅)
  have hlt : h₄.size < h₆.size := Nat.lt_of_lt_of_le (hw₁.size_lt hg₅) hg₆.cells.size_le
  have htwo := hb₄.left.layout.two_le_size
  obtain ⟨n, hn⟩ : ∃ n, h₆.size = n + 2 := Nat.exists_eq_add_of_le' (Nat.le_of_lt (by omega))
  refine ⟨_, _, _, _, _, _, _, _, hrun₁, hrun₂, hrun₃, hrun₄, hdump₁, hdump₂,
    hw₂.same (hw₁.later hg₆.cells) hn (fun name hname => ?_) hparts, ?_⟩
  · exact (hmatch name hname).sameTo_congr (hg₅.cells.trans hg₆.cells) (hn ▸ hlt) (by omega)
  · rw [validate_eq call hb₄.right.sound hb₄.right.layout,
      validate_eq call hb₄.left.sound hb₄.left.layout,
      faults_congr hb₄.right hb₄.left hmatch hparts]

/-- The default scalars of two new stores are the same, or lists of the same items. -/
theorem twins_of_default {name : String} (hn : name ∈ scalarNames)
    (hx : IsData h (defaultContents.scalar name) x) (hy : IsData h (defaultContents.scalar name) y) :
    Twins h x y := by
  simp only [scalarNames, List.mem_cons, List.not_mem_nil, or_false] at hn
  rcases hn with rfl | rfl | rfl
  · exact .inl (hx.reads.1.trans hy.reads.1.symm)
  · exact .inl (hx.reads.1.trans hy.reads.1.symm)
  · -- lists of one text
    have hlist : ∀ {x : Value}, IsData h defaultLocales x →
        h.cell? x = some (.list [.ofText "en"]) := fun {x} hx => by
      obtain ⟨items, hi, -, v, rest, rfl, ⟨rfl, -⟩, hrest⟩ := hx.reads
      rw [ReadsItems] at hrest
      subst hrest
      obtain ⟨r, rfl, -⟩ := ref_of_items? hi
      exact read_of_items? (by decide) hi
    exact .inr ⟨_, hlist hx, hlist hy⟩

/-- Two new stores beside two fragments. -/
theorem create_two (ht : (Tree.map ts).isPlain = true) (hdt : (Tree.map ts).Distinct)
    (hu : (Tree.map us).isPlain = true) (hdu : (Tree.map us).Distinct) :
    ∃ d h₁ e h₂ h₃ h₄ scalar scalar', ∃ c c' : Cells, buildText .plain (.map ts) .empty = .ok d h₁ ∧
      buildText .plain (.map us) h₁ = .ok e h₂ ∧ Store.create h₂ = .ok (.ref c.store) h₃ ∧
      Store.create h₃ = .ok (.ref c'.store) h₄ ∧
      Beside h₄ c c' scalar scalar' defaultSection defaultSection ∧
      (∀ name ∈ scalarNames, Twins h₄ (scalar' name) (scalar name)) ∧
      Fragment h₄ c c' ts d ∧ Fragment h₄ c c' us e := by
  obtain ⟨d, h₁, hbuild, hs, hd⟩ := build_settings ht hdt
  obtain ⟨e, h₂, hbuild', hg, he⟩ := build_data hs
    (Tree.named_mapKeys (fun _ => isLeaf_of_isPlain) hu) hdu hu
  obtain ⟨c, h₃, hcreate, hg₃, hstands, hf⟩ := create_stands hg.sound
  obtain ⟨scalar, hx, hdata⟩ := hstands.holds hf
  obtain ⟨c', h₄, scalar', hcreate', hg₄, hb, hdata', hvacant'⟩ := beside_create hx
  have hvacant : ∀ r, Own h₄ c r → h₂.Vacant r := fun r hr => by
    -- what is not vacant is there, and so it belongs to the store since it was made
    by_contra hno
    have hlt : r.index < h₃.size := by
      by_contra hge
      exact hno (vacant_of_size_le (Nat.le_trans hg₃.cells.size_le (Nat.le_of_not_lt hge)))
    have hold : Own h₃ c r := by
      by_contra hnot
      exact (hx.grows hg₄).2.own r hlt hnot hr
    exact hno (own_vacant_of_create hcreate hx.layout hf hold)
  have hfragment : ∀ {ts v}, IsData h₂ (.map ts) v → Fragment h₄ c c' ts v := fun hv =>
    fragment_of_vacant (hg₃.lasts.trans hg₄.lasts) hv hvacant fun r hr =>
      (hvacant' r hr).of_extends hg₃.cells
  exact ⟨_, h₁, e, h₂, h₃, h₄, scalar, scalar', c, c', hbuild, hbuild', hcreate, hcreate', hb,
    fun name hn => twins_of_default hn (hdata' name hn) ((hdata name hn).lasts hg₄.lasts),
    hfragment (hd.lasts hg.lasts), hfragment he⟩

/-- Settings of the web part of a shop. -/
def webSettings : Entries String (Tree String) :=
  [("site_name", text "Shop"), ("images", .map [("enabled", .map [("web", flag true)])])]

/-- Settings of the printed part of a shop. -/
def printSettings : Entries String (Tree String) :=
  [("robots", absent), ("images", .map [("enabled", .map [("print", flag true)])]),
    ("site_name", text "Shop")]

theorem consistent_web_print : Consistent webSettings printSettings where
  scalars name hn t u ht hu := by
    simp only [scalarNames, List.mem_cons, List.not_mem_nil, or_false] at hn
    rcases hn with rfl | rfl | rfl
    · cases ht; cases hu; exact Value.twin_refl _
    · cases ht
    · cases ht
  sections name ht hu := by
    cases name <;> first | (cases ht; done) | (cases hu; done) | skip
    -- the images are the only section of both
    refine Tree.compatible_map fun p hp u hu => ?_
    cases List.mem_singleton.mp hp
    cases hu
    refine Tree.compatible_map fun p hp u hu => ?_
    cases List.mem_singleton.mp hp
    cases hu

theorem load_either_order_shop : ∃ d h₁ e h₂ h₃ h₄, ∃ c c' : Cells,
    buildText .plain (.map webSettings) .empty = .ok d h₁ ∧
    buildText .plain (.map printSettings) h₁ = .ok e h₂ ∧
    Store.create h₂ = .ok (.ref c.store) h₃ ∧ Store.create h₃ = .ok (.ref c'.store) h₄ ∧
    ∃ w₁ w₂ w₃ w₄ t₁ w₅ t₂ w₆,
      load (fun v _ => pure v) (.ref c.store) d (newWorld h₄) = .ok (.ref c.store) w₁ ∧
      load (fun v _ => pure v) (.ref c.store) e w₁ = .ok (.ref c.store) w₂ ∧
      load (fun v _ => pure v) (.ref c'.store) e w₂ = .ok (.ref c'.store) w₃ ∧
      load (fun v _ => pure v) (.ref c'.store) d w₃ = .ok (.ref c'.store) w₄ ∧
      toDict (fun v _ => pure v) (.ref c.store) w₄ = .ok t₁ w₅ ∧
      toDict (fun v _ => pure v) (.ref c'.store) w₅ = .ok t₂ w₆ ∧
      w₆.heap.same t₂ t₁ = true ∧
      validate (fun v _ => pure v) (.ref c'.store) w₄ =
        validate (fun v _ => pure v) (.ref c.store) w₄ := by
  obtain ⟨d, h₁, e, h₂, h₃, h₄, scalar, scalar', c, c', hd, he, hc, hc', hb, hs, hfd, hfe⟩ :=
    @create_two webSettings printSettings rfl (by decide) rfl (by decide)
  have hload : ∀ {ts : Entries String (Tree String)} {v : Value}, Fragment h₄ c c' ts v → Fit ts →
      ∃ w', load (fun v _ => pure v) (.ref c.store) v (newWorld h₄) = .ok (.ref c.store) w' :=
    fun hf hfit => by
      obtain ⟨_, _, hrun, -⟩ := hb.load (w := newWorld h₄) (fun v _ => pure v) hf hfit
      exact ⟨_, hrun⟩
  refine ⟨d, h₁, e, h₂, h₃, h₄, c, c', hd, he, hc, hc', ?_⟩
  exact load_either_order (w := newWorld h₄) (fun v _ => pure v) hb hs hfd hfe
    (hload hfd fun name => by cases name <;> decide) (hload hfe fun name => by cases name <;> decide)
    consistent_web_print

/-! ### Maps for a scalar -/

/-- Stores that are written down as equal dictionaries have equal names of their sites. -/
theorem WrittenDown.sameTo_siteName {within wider : Ref → Prop} {d e : Ref}
    {first second : String → Value}
    (hd : WrittenDown within first part d h) (he : WrittenDown wider second part' e h)
    (hsame : h.same (.ref d) (.ref e) = true) :
    h.sameTo h.size true (first "site_name") (second "site_name") = true := by
  obtain ⟨-, locales, sections, hread, -⟩ := hd
  obtain ⟨-, locales', sections', hread', -⟩ := he
  obtain ⟨n, hn⟩ := Nat.exists_eq_add_one.mpr (Nat.zero_lt_of_lt (lt_size_of_read hread))
  have hcell := contentAt_of_read hread fun _ heq => by cases heq
  have hcell' := contentAt_of_read hread' fun _ heq => by cases heq
  rw [Heap.same, depth, Heap.sameTo, hcell, hcell', Bool.or_eq_true] at hsame
  rcases hsame with heq | hsame
  · -- one dictionary has one name
    rw [eq_of_beq heq, hread'] at hread
    have hentries := Cell.dict.inj (Option.some.inj hread)
    have hvalue : second "site_name" = first "site_name" :=
      (Prod.mk.inj (List.cons.inj hentries).1).2
    rw [hvalue, hn]
    exact sameTo_refl n _
  · obtain ⟨v, hv, hvalue⟩ := (sameEntries_iff.mp hsame).2 (Key.ofText "site_name", _)
      List.mem_cons_self
    cases hv
    exact hvalue

/-- A site with a map for its name. -/
def shortName : Entries String (Tree String) := [("site_name", .map [("short", text "Shop")])]

/-- A site with another map for its name. -/
def longName : Entries String (Tree String) := [("site_name", .map [("long", text "The Shop")])]

/-- Maps for a scalar are not merged: the one that is loaded last replaces the other, so the order can
be told. -/
theorem load_order_told : ∃ d h₁ e h₂ h₃ h₄, ∃ c c' : Cells,
    buildText .plain (.map shortName) .empty = .ok d h₁ ∧
    buildText .plain (.map longName) h₁ = .ok e h₂ ∧
    Store.create h₂ = .ok (.ref c.store) h₃ ∧ Store.create h₃ = .ok (.ref c'.store) h₄ ∧
    (∀ name ∈ scalarNames, ∀ t u, shortName.get? name = some t → longName.get? name = some u →
      t.isMap = true ∧ u.isMap = true ∨ t.isMap = false ∧ Tree.Twin t u) ∧
    (∀ name, (offer shortName name).isAbsent = true ∧ (offer longName name).isAbsent = true) ∧
    ∃ w₁ w₂ w₃ w₄ t₁ w₅ t₂ w₆,
      load (fun v _ => pure v) (.ref c.store) d (newWorld h₄) = .ok (.ref c.store) w₁ ∧
      load (fun v _ => pure v) (.ref c.store) e w₁ = .ok (.ref c.store) w₂ ∧
      load (fun v _ => pure v) (.ref c'.store) e w₂ = .ok (.ref c'.store) w₃ ∧
      load (fun v _ => pure v) (.ref c'.store) d w₃ = .ok (.ref c'.store) w₄ ∧
      toDict (fun v _ => pure v) (.ref c.store) w₄ = .ok t₁ w₅ ∧
      toDict (fun v _ => pure v) (.ref c'.store) w₅ = .ok t₂ w₆ ∧ w₆.heap.same t₂ t₁ = false := by
  obtain ⟨d, h₁, e, h₂, h₃, h₄, scalar, scalar', c, c', hd, he, hc, hc', hb, -, hfd, hfe⟩ :=
    @create_two shortName longName rfl (by decide) rfl (by decide)
  refine ⟨d, h₁, e, h₂, h₃, h₄, c, c', hd, he, hc, hc', fun name hn t u ht hu => ?_,
    fun name => by cases name <;> decide, ?_⟩
  · simp only [scalarNames, List.mem_cons, List.not_mem_nil, or_false] at hn
    rcases hn with rfl | rfl | rfl
    · cases ht; cases hu; exact .inl ⟨rfl, rfl⟩
    · cases ht
    · cases ht
  obtain ⟨_, _, _, g, scalar₂, scalar₄, hrun₁, hrun₂, hrun₃, hrun₄, hb₄, htaken, -⟩ :=
    hb.load_both (w := newWorld h₄) (fun v _ => pure v) hfd hfe (fun name => by cases name <;> decide)
      fun name => by cases name <;> decide
  obtain ⟨t₁, h₅, hdump₁, hg₅, hw₁⟩ :=
    toDict_displays (fun v _ => pure v) (w := { newWorld h₄ with heap := g })
      hb₄.left.displays
  obtain ⟨t₂, h₆, hdump₂, hg₆, hw₂⟩ :=
    toDict_displays (fun v _ => pure v) (w := { newWorld h₄ with heap := h₅ })
      (hb₄.right.displays.grows hg₅)
  refine ⟨_, _, _, _, _, _, _, _, hrun₁, hrun₂, hrun₃, hrun₄, hdump₁, hdump₂,
    Bool.eq_false_iff.mpr fun hsame => ?_⟩
  -- each store has the name that it loaded last
  obtain ⟨hlong, hshort⟩ := htaken "site_name" (by decide)
  have hlong' : IsData g (.map [("long", text "The Shop")]) (scalar₂ "site_name") := hlong
  have hshort' : IsData g (.map [("short", text "Shop")]) (scalar₄ "site_name") := hshort
  have hnames := hw₂.sameTo_siteName (hw₁.later hg₆.cells) hsame
  have hlater := hg₅.cells.trans hg₆.cells
  rw [(hshort'.reads.extends hlater).sameTo_eq (by decide) (by decide)
    (hlong'.reads.extends hlater) rfl rfl ?_] at hnames
  · exact absurd hnames (by decide)
  · exact Nat.lt_of_le_of_lt hshort'.reads.height_le
      (Nat.lt_of_lt_of_le (hw₁.size_lt hg₅) hg₆.cells.size_le)

end Settings

end PageMeta
