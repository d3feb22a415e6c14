import PageMeta.Proofs.AttributeMap.Layers
import PageMeta.Proofs.Heap.Equality
import PageMeta.Proofs.Tree.Equality

/-!
# Equality of attribute maps

Attribute maps are compared by what they show, as plain data are.  A merge decides where to go on by
what is a map, and maps that are equal have maps in the same places, so maps that are equal stay so
when what is merged into them is equal.

## Key results

- `same_of_reordered`: maps with the same content in another order are equal
- `toDict_same`: a map is equal to what another one is written out as exactly if the maps are equal
- `merge_same`: equal maps stay equal when equal maps are merged into them
- `equality_congruence`: equality of maps is a congruence for merging
-/

namespace PageMeta

namespace Heap.IsContent

variable {h : Heap} {a b : Ref} {t : Tree String} {v : Value}
  {ts us : List (String × Tree String)}

theorem proper (hc : IsContent h t v) : t.Proper := ⟨hc.reads.distinct (by decide), hc.plain⟩

/-- Maps with plain leaves are equal exactly if the trees that they show are alike. -/
theorem same_eq (ha : IsContent h (.map ts) (.ref a)) (hb : IsContent h (.map us) (.ref b)) :
    h.same (.ref a) (.ref b) = (Tree.map ts).alike (.map us) :=
  ha.reads.same_eq (by decide) (by decide) hb.reads ha.plain hb.plain

end Heap.IsContent

namespace AttributeMap

open Heap

variable {h g : Heap} {a a₂ b b₂ c m : Ref} {t u : Tree String}
  {ts ts₂ us us₂ ws : List (String × Tree String)}

/-! ### An equivalence -/

theorem same_symm (ha : IsContent h (.map ts) (.ref a)) (hb : IsContent h (.map us) (.ref b)) :
    h.same (.ref a) (.ref b) = h.same (.ref b) (.ref a) := by
  rw [ha.same_eq hb, hb.same_eq ha, Bool.eq_iff_iff]
  exact ⟨Tree.alike_symm ha.proper hb.proper, Tree.alike_symm hb.proper ha.proper⟩

theorem same_trans (ha : IsContent h (.map ts) (.ref a)) (hb : IsContent h (.map us) (.ref b))
    (hc : IsContent h (.map ws) (.ref c)) (hab : h.same (.ref a) (.ref b) = true)
    (hbc : h.same (.ref b) (.ref c) = true) : h.same (.ref a) (.ref c) = true := by
  rw [ha.same_eq hb] at hab
  rw [hb.same_eq hc] at hbc
  rw [ha.same_eq hc]
  exact Tree.alike_trans ha.proper hb.proper hc.proper hab hbc

/-- Maps with the same content in another order are equal. -/
theorem same_of_reordered (ha : IsContent h (.map ts) (.ref a))
    (hb : IsContent h (.map us) (.ref b)) (hr : Tree.Reordered (.map ts) (.map us)) :
    h.same (.ref a) (.ref b) = true := by
  rw [ha.same_eq hb]
  exact Tree.alike_of_reordered ha.proper.distinct hr

/-- A map is equal to what another one is written out as exactly if it is equal to the other. -/
theorem toDict_same (ha : IsContent h (.map ts) (.ref a)) (hb : IsContent h (.map us) (.ref b)) :
    ∃ d g, toDict b h = .ok d g ∧ g.same (.ref a) d = h.same (.ref a) (.ref b) ∧
      g.same d (.ref a) = h.same (.ref a) (.ref b) := by
  obtain ⟨d, g, hrun, he, hd⟩ := unwrap_reads hb.reads
  have ha' := ha.reads.extends he
  refine ⟨d, g, hrun, ?_, ?_⟩
  · rw [ha'.same_eq (by decide) (by decide) hd ha.plain hb.plain, ha.same_eq hb]
  · rw [hd.same_eq (by decide) (by decide) ha' hb.plain ha.plain, same_symm ha hb, hb.same_eq ha]

/-! ### Merging -/

/-- The cells of a map that shares no part with the one that was merged into are as they were. -/
theorem Tended.agree_apart (ht : Tended m h g) (hapart : ∀ r, Part h m r → ¬ Part h c r) :
    Agree (fun r => h.Opens .stored (.ref c) r ∧ r.index < h.size) h g :=
  ht.agree fun r ho => ⟨ho.2, fun hp => hapart r hp ⟨ho.1, hp.2⟩⟩

section Apart

variable (ht : Tended m h g) (hr : Shows h .stored t (.ref c))
  (hapart : ∀ r, Part h m r → ¬ Part h c r)
include ht hr hapart

theorem Tended.shows_apart : Shows g .stored t (.ref c) :=
  ((hr.opened (by decide)).allocated.agree (ht.agree_apart hapart)).mono fun _ _ => trivial

theorem Tended.isTree_apart (htree : IsTree h (.ref c)) : IsTree g (.ref c) :=
  htree.agree (hr.opened (by decide)).allocated (ht.agree_apart hapart)

/-- A map that shares no part with the one that was merged into has its old parts only. -/
theorem Tended.part_apart {r : Ref} (hp : Part g c r) : Part h c r := by
  obtain ⟨ho, d, hd, hcontainer⟩ := hp
  have hagree := ht.agree_apart hapart
  have ho' := (hr.opened (by decide)).allocated.opens_of_agree hagree ho
  exact ⟨ho', d, hagree.read_eq r ⟨ho', hr.opens_lt ho'⟩ ▸ hd, hcontainer⟩

end Apart

theorem isContent_of_deepMerge {v : Value} (ht : (Tree.map ts).Proper) (hu : (Tree.map us).Proper)
    (hr : Shows h .stored ((Tree.map ts).deepMerge (.map us)) v) :
    IsContent h (.map (Tree.mergeEntries ts us)) v := by
  have hp := (ht.deepMerge hu).plain
  rw [Tree.deepMerge_map] at hp hr
  exact ⟨hr, hp⟩

/-- Equal maps stay equal when equal maps are merged into them. -/
theorem merge_same (hs : h.Sound) (ha : IsContent h (.map ts) (.ref a))
    (ha₂ : IsContent h (.map ts₂) (.ref a₂)) (hb : IsContent h (.map us) (.ref b))
    (hb₂ : IsContent h (.map us₂) (.ref b₂)) (htree : IsTree h (.ref a))
    (htree₂ : IsTree h (.ref a₂))
    (hapart : [a, a₂, b, b₂].Pairwise fun x y => ∀ r, Part h x r → ¬ Part h y r)
    (hsame : h.same (.ref a) (.ref a₂) = true) (hsame' : h.same (.ref b) (.ref b₂) = true) :
    ∃ g g', merge a (.ref b) h = .ok (.ref a) g ∧ merge a₂ (.ref b₂) g = .ok (.ref a₂) g' ∧
      g'.same (.ref a) (.ref a₂) = true := by
  simp only [List.pairwise_cons, List.mem_cons, forall_eq_or_imp] at hapart
  obtain ⟨⟨haa₂, hab, hab₂, -⟩, ⟨ha₂b, ha₂b₂, -⟩, -⟩ := hapart
  obtain ⟨g, hrun, ho⟩ := merge_tree hs ha.reads htree hb.reads hab rfl
  -- the second map and what comes into it are as they were
  have hread₂ := ho.tended.shows_apart ha₂.reads haa₂
  have hpart₂ := fun {r} => ho.tended.part_apart (r := r) ha₂.reads haa₂
  obtain ⟨g', hrun', ho'⟩ := merge_tree ho.sound hread₂
    (ho.tended.isTree_apart ha₂.reads haa₂ htree₂) (ho.tended.shows_apart hb₂.reads hab₂)
    (fun r hp hp' => ha₂b₂ r (hpart₂ hp) (ho.tended.part_apart hb₂.reads hab₂ hp')) rfl
  -- the first map has got no part of the second
  have hread := ho'.tended.shows_apart ho.reads fun r hp hp' =>
    ho.tended.not_part (ha₂.reads.opens_lt (hpart₂ hp).1) (fun hpa => haa₂ r hpa (hpart₂ hp)) hp'
  refine ⟨g, g', hrun, hrun', ?_⟩
  rw [(isContent_of_deepMerge ha.proper hb.proper hread).same_eq
    (isContent_of_deepMerge ha₂.proper hb₂.proper ho'.reads), ← Tree.deepMerge_map,
    ← Tree.deepMerge_map]
  exact Tree.alike_deepMerge_congr ha.proper hb.proper ha₂.proper hb₂.proper
    (ha.same_eq ha₂ ▸ hsame) (hb.same_eq hb₂ ▸ hsame')

/-- Equality of maps that hold plain data is symmetric and transitive.  It ignores the order of keys
at every depth, and it is equality with what the other map is written out as, whichever of the two
stands first.  Merging respects it: maps that share nothing with each other are equal again after
equal maps were merged into equal ones. -/
theorem equality_congruence (hs : h.Sound) :
    (∀ a b ts us, IsContent h (.map ts) (.ref a) → IsContent h (.map us) (.ref b) →
      h.same (.ref a) (.ref b) = h.same (.ref b) (.ref a)) ∧
    (∀ a b c ts us ws, IsContent h (.map ts) (.ref a) → IsContent h (.map us) (.ref b) →
      IsContent h (.map ws) (.ref c) → h.same (.ref a) (.ref b) = true →
      h.same (.ref b) (.ref c) = true → h.same (.ref a) (.ref c) = true) ∧
    (∀ a b ts us, IsContent h (.map ts) (.ref a) → IsContent h (.map us) (.ref b) →
      Tree.Reordered (.map ts) (.map us) → h.same (.ref a) (.ref b) = true) ∧
    (∀ a b ts us, IsContent h (.map ts) (.ref a) → IsContent h (.map us) (.ref b) →
      ∃ d g, toDict b h = .ok d g ∧ g.same (.ref a) d = h.same (.ref a) (.ref b) ∧
        g.same d (.ref a) = h.same (.ref a) (.ref b)) ∧
    ∀ a a₂ b b₂ ts ts₂ us us₂, IsContent h (.map ts) (.ref a) → IsContent h (.map ts₂) (.ref a₂) →
      IsContent h (.map us) (.ref b) → IsContent h (.map us₂) (.ref b₂) → IsTree h (.ref a) →
      IsTree h (.ref a₂) → ([a, a₂, b, b₂].Pairwise fun x y => ∀ r, Part h x r → ¬ Part h y r) →
      h.same (.ref a) (.ref a₂) = true → h.same (.ref b) (.ref b₂) = true →
      ∃ g g', merge a (.ref b) h = .ok (.ref a) g ∧ merge a₂ (.ref b₂) g = .ok (.ref a₂) g' ∧
        g'.same (.ref a) (.ref a₂) = true :=
  ⟨fun _ _ _ _ => same_symm, fun _ _ _ _ _ _ => same_trans, fun _ _ _ _ => same_of_reordered,
    fun _ _ _ _ => toDict_same, fun _ _ _ _ _ _ _ _ => merge_same hs⟩

/-! ### A sample -/

/-- A size and tags, with the number one in several types. -/
def sizeFirst : Entries String (Tree String) :=
  [("size", .map [("width", .leaf (.ofInt 1)), ("wide", .leaf (.bool true))]),
    ("tags", .list [.leaf (.ofInt 1)])]

@[inherit_doc sizeFirst]
def tagsFirst : Entries String (Tree String) :=
  [("tags", .list [.leaf (.bool true)]),
    ("size", .map [("wide", .leaf (.ofInt 1)), ("width", .leaf (.real (Binary64.ofInt 1) .shared))])]

/-- A width to be merged. -/
def widthOnly (width : Value) : Entries String (Tree String) :=
  [("size", .map [("width", .leaf width)])]

/-- A map for each of them, with the width as a number and as a truth value. -/
def likeMaps : Heap where
  cells := #[.dict [(Key.ofText "width", .ofInt 1), (Key.ofText "wide", .bool true)],
    .map (.ref ⟨0⟩), .list [.ofInt 1],
    .dict [(Key.ofText "size", .ref ⟨1⟩), (Key.ofText "tags", .ref ⟨2⟩)], .map (.ref ⟨3⟩),
    .list [.bool true],
    .dict [(Key.ofText "wide", .ofInt 1),
      (Key.ofText "width", .real (Binary64.ofInt 1) .shared)], .map (.ref ⟨6⟩),
    .dict [(Key.ofText "tags", .ref ⟨5⟩), (Key.ofText "size", .ref ⟨7⟩)], .map (.ref ⟨8⟩),
    .dict [(Key.ofText "width", .ofInt 0)], .map (.ref ⟨10⟩),
    .dict [(Key.ofText "size", .ref ⟨11⟩)], .map (.ref ⟨12⟩),
    .dict [(Key.ofText "width", .bool false)], .map (.ref ⟨14⟩),
    .dict [(Key.ofText "size", .ref ⟨15⟩)], .map (.ref ⟨16⟩)]
  made := 0

theorem equality_congruence_sample :
    likeMaps.same (.ref ⟨4⟩) (.ref ⟨9⟩) = likeMaps.same (.ref ⟨9⟩) (.ref ⟨4⟩) ∧
    likeMaps.same (.ref ⟨4⟩) (.ref ⟨4⟩) = true ∧ likeMaps.same (.ref ⟨4⟩) (.ref ⟨9⟩) = true ∧
    (∃ d g, toDict ⟨9⟩ likeMaps = .ok d g ∧
      g.same (.ref ⟨4⟩) d = likeMaps.same (.ref ⟨4⟩) (.ref ⟨9⟩) ∧
      g.same d (.ref ⟨4⟩) = likeMaps.same (.ref ⟨4⟩) (.ref ⟨9⟩)) ∧
    ∃ g g', merge ⟨4⟩ (.ref ⟨13⟩) likeMaps = .ok (.ref ⟨4⟩) g ∧
      merge ⟨9⟩ (.ref ⟨17⟩) g = .ok (.ref ⟨9⟩) g' ∧ g'.same (.ref ⟨4⟩) (.ref ⟨9⟩) = true := by
  obtain ⟨a, h₁, ha, hs₁, -, hra, hta⟩ :=
    exists_built (t := .map sizeFirst) sound_empty rfl (by decide)
  obtain ⟨a₂, h₂, ha₂, hs₂, he₂, hra₂, hta₂⟩ :=
    exists_built (t := .map tagsFirst) hs₁ rfl (by decide)
  obtain ⟨b, h₃, hb, hs₃, he₃, hrb, -⟩ :=
    exists_built (t := .map (widthOnly (.ofInt 0))) hs₂ rfl (by decide)
  obtain ⟨b₂, h₄, hb₂, hs₄, he₄, hrb₂, -⟩ :=
    exists_built (t := .map (widthOnly (.bool false))) hs₃ rfl (by decide)
  obtain ⟨rfl, rfl, rfl, rfl, rfl⟩ : a = .ref ⟨4⟩ ∧ a₂ = .ref ⟨9⟩ ∧ b = .ref ⟨13⟩ ∧
      b₂ = .ref ⟨17⟩ ∧ h₄ = likeMaps := by
    have hrun : (do
        let a ← build .wrapped ((Tree.map sizeFirst).mapKeys Key.ofText)
        let a₂ ← build .wrapped ((Tree.map tagsFirst).mapKeys Key.ofText)
        let b ← build .wrapped ((Tree.map (widthOnly (.ofInt 0))).mapKeys Key.ofText)
        let b₂ ← build .wrapped ((Tree.map (widthOnly (.bool false))).mapKeys Key.ofText)
        return (a, a₂, b, b₂)) Heap.empty =
          .ok (.ref ⟨4⟩, .ref ⟨9⟩, .ref ⟨13⟩, .ref ⟨17⟩) likeMaps := rfl
    simp only [bind, EStateM.bind, ha, ha₂, hb, hb₂] at hrun
    cases hrun
    exact ⟨rfl, rfl, rfl, rfl, rfl⟩
  have he₃₄ := he₃.trans he₄
  have he₂₄ := he₂.trans he₃₄
  have hca : IsContent likeMaps (.map sizeFirst) (.ref ⟨4⟩) :=
    ⟨(hra.extends he₂₄).mono fun _ _ => trivial, rfl⟩
  have hca₂ : IsContent likeMaps (.map tagsFirst) (.ref ⟨9⟩) :=
    ⟨(hra₂.extends he₃₄).mono fun _ _ => trivial, rfl⟩
  have hcb : IsContent likeMaps (.map (widthOnly (.ofInt 0))) (.ref ⟨13⟩) :=
    ⟨(hrb.extends he₄).mono fun _ _ => trivial, rfl⟩
  have hcb₂ : IsContent likeMaps (.map (widthOnly (.bool false))) (.ref ⟨17⟩) :=
    ⟨hrb₂.mono fun _ _ => trivial, rfl⟩
  -- each map consists of cells that were new when it was made
  have hapart : [(⟨4⟩ : Ref), ⟨9⟩, ⟨13⟩, ⟨17⟩].Pairwise
      fun x y => ∀ r, Part likeMaps x r → ¬ Part likeMaps y r := by
    simp only [List.pairwise_cons, List.mem_cons, List.not_mem_nil, or_false, forall_eq_or_imp,
      forall_eq, false_implies, implies_true, and_true, List.Pairwise.nil]
    exact ⟨⟨apart_of_vacant hra he₂₄ (hra₂.extends he₃₄),
      apart_of_vacant (hra.extends he₂) he₃₄ (hrb.extends he₄),
      apart_of_vacant (hra.extends (he₂.trans he₃)) he₄ hrb₂⟩,
      ⟨apart_of_vacant hra₂ he₃₄ (hrb.extends he₄), apart_of_vacant (hra₂.extends he₃) he₄ hrb₂⟩,
      apart_of_vacant hrb he₄ hrb₂⟩
  have horder : Tree.Reordered (.map sizeFirst) (.map tagsFirst) := by
    refine ⟨[("size", .map [("wide", .leaf (.ofInt 1)),
      ("width", .leaf (.real (Binary64.ofInt 1) .shared))]), ("tags", .list [.leaf (.bool true)])],
      ⟨_, _, rfl, ?_, _, _, rfl, ⟨_, _, rfl, rfl, rfl⟩, rfl⟩, .swap _ _ _⟩
    refine ⟨[("width", .leaf (.real (Binary64.ofInt 1) .shared)), ("wide", .leaf (.ofInt 1))],
      ⟨_, _, rfl, ?_, _, _, rfl, rfl, rfl⟩, .swap _ _ _⟩
    -- as numbers, the integer and the double are the same
    show Value.sameScalar true (.ofInt 1) (.real (Binary64.ofInt 1) .shared) = true
    decide +kernel
  obtain ⟨hsymm, htrans, hreordered, hdict, hmerge⟩ := equality_congruence hs₄
  have hlike := hreordered _ _ _ _ hca hca₂ horder
  refine ⟨hsymm _ _ _ _ hca hca₂, htrans _ _ _ _ _ _ hca hca₂ hca hlike ?_, hlike,
    hdict _ _ _ _ hca hca₂, hmerge _ _ _ _ _ _ _ _ hca hca₂ hcb hcb₂ (hta.extends hra he₂₄)
      (hta₂.extends hra₂ he₃₄) hapart hlike ?_⟩
  · rw [hsymm _ _ _ _ hca₂ hca, hlike]
  · rw [hcb.same_eq hcb₂]
    rfl

end AttributeMap

end PageMeta
