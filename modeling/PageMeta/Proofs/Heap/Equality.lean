import PageMeta.Heap.Equality
import PageMeta.Proofs.Heap.PlainData
import PageMeta.Proofs.Tree.Alike

/-!
# Equality of plain data

Plain data are equal exactly if the trees that they show are alike, also where the data are kept in
attribute maps.  Equality takes a cell for equal to itself without looking into it; that is no
difference, since a tree is like itself.

## Key results

- `Reads.sameTo_eq`: equality down to a depth that the trees do not exceed
- `Reads.same_eq`: equality of maps and dictionaries with plain leaves
- `same_eq_alike`: equality of dictionaries of plain data
-/

namespace PageMeta.Heap

variable {h : Heap} {view other : View} {within wider : Ref → Prop} {t u : Tree String}
  {v w : Value}

/-- A scalar of plain data is equal to no cell. -/
theorem sameScalar_ref_right (hv : v.isPlain = true) (r : Ref) :
    v.sameScalar true (.ref r) = false := by
  cases v with
  | real x mark => simp [Value.sameScalar, Value.integer?]
  | none | bool _ | int _ _ | text _ _ =>
    simp [Value.sameScalar, Value.integer?, Value.text?]
  | _ => cases hv

theorem sameScalar_ref_left (hv : v.isPlain = true) (r : Ref) :
    (Value.ref r).sameScalar true v = false := by
  cases v with
  | real x mark => simp [Value.sameScalar, Value.integer?]
  | none | bool _ | int _ _ | text _ _ =>
    simp [Value.sameScalar, Value.integer?, Value.text?]
  | _ => cases hv

theorem sameTo_of_isPlain_right (hw : w.isPlain = true) (n : Nat) (r : Ref) :
    h.sameTo (n + 1) true (.ref r) w = false := by
  have hscalar : h.sameTo (n + 1) true (.ref r) w = (Value.ref r).sameScalar true w := by
    cases w <;> first | (cases hw; done) | rfl
  rw [hscalar, sameScalar_ref_left hw]

theorem sameTo_of_isPlain (hv : v.isPlain = true) (n : Nat) (inside : Bool) :
    h.sameTo (n + 1) inside v w = v.sameScalar inside w := by
  cases v <;> first | (cases hv; done) | rfl

theorem contentAt_of_read {r : Ref} {c : Cell} (hr : h.read r = some c)
    (hc : ∀ data, c ≠ .map data) : h.contentAt r = some c := by
  unfold contentAt
  split
  · rename_i hm
    rw [hr] at hm
    cases hm
    exact absurd rfl (hc _)
  · exact hr

/-- What shows a list is a list, if it was not handed in. -/
theorem contentAt_of_items? (hview : view ≠ .given) {items : List Value}
    (hi : h.items? view v = some items) : ∃ r, v = .ref r ∧ h.contentAt r = some (.list items) := by
  obtain ⟨r, rfl, -⟩ := ref_of_items? hi
  exact ⟨r, rfl, contentAt_of_read (read_of_items? hview hi) fun _ heq => by cases heq⟩

/-- What shows a map counts as a dictionary. -/
theorem contentAt_of_entries? {entries : Entries Key Value}
    (he : h.entries? view v = some entries) :
    ∃ r, v = .ref r ∧ h.contentAt r = some (.dict entries) := by
  obtain ⟨r, rfl, ⟨hr, -⟩ | ⟨d, hr, -, -⟩⟩ := cell_of_entries? he
  · exact ⟨r, rfl, contentAt_of_read hr fun _ heq => by cases heq⟩
  · refine ⟨r, rfl, ?_⟩
    rw [contentAt, hr]
    dsimp only
    rw [entriesAt_of_entries? he]

/-- Cells are compared by content.  Whether they are one cell does not matter, as it shows one tree,
which is like itself. -/
theorem Reads.sameTo_ref (hother : other ≠ .given) {r s : Ref} {c d : Cell} {n : Nat}
    (ht : h.Reads view within t (.ref r)) (hu : h.Reads other wider u (.ref s))
    (hc : h.contentAt r = some c) (hd : h.contentAt s = some d)
    (hsame : h.sameCell (h.sameTo n true) c d = t.alike u) :
    h.sameTo (n + 1) true (.ref r) (.ref s) = t.alike u := by
  rw [sameTo, hc, hd]
  -- one cell shows one tree, and that is like itself without a look inside
  by_cases he : r = s
  · subst he
    rw [ht.given.functional hu.given, Tree.alike_refl (hu.distinct hother), beq_self_eq_true,
      Bool.true_or]
  · rw [beq_eq_false_iff_ne.mpr he, Bool.false_or]
    exact hsame

/-- Dictionaries have as many entries as the trees that they show. -/
theorem sameEntries_eq (hview : view ≠ .given) (hother : other ≠ .given)
    {same : Value → Value → Bool} {ts us : List (String × Tree String)} {ds es : Entries Key Value}
    (ht : h.ReadsEntries view within ts ds) (hu : h.ReadsEntries other wider us es)
    (hall : (ds.all fun p =>
      match es.get? p.1 with
      | some w => same p.2 w
      | none => false) = Tree.alikeEntries ts us) :
    sameEntries same ds es = (Tree.map ts).alike (.map us) := by
  have hlen : (ds.length == es.length) = (ts.length == us.length) := by
    rw [(ht.matched hview).length_eq, (hu.matched hother).length_eq]
  rw [sameEntries, agreeEntries, Tree.alike]
  exact congrArg₂ (· && ·) hlen hall

-- The trees of both sides are taken apart together; the depth that is left is more than the height
-- of the first.
mutual

/-- Values that were not handed in are equal as parts of a container exactly if the trees that they
show are alike, whether they are kept in attribute maps or are plain data. -/
theorem Reads.sameTo_eq (hview : view ≠ .given) (hother : other ≠ .given) :
    ∀ {t u : Tree String} {v w : Value} {n : Nat}, h.Reads view within t v →
      h.Reads other wider u w → t.isPlain = true → u.isPlain = true → t.height < n →
      h.sameTo n true v w = t.alike u
  | .leaf _, u, v, w, n + 1, ⟨he, _, _⟩, hu, hp, hq, _ => by
    subst he
    rw [sameTo_of_isPlain hp]
    -- a scalar is equal to scalars only, and no container is one
    cases u with
    | leaf x => obtain ⟨rfl, -⟩ := hu; rfl
    | list us =>
      obtain ⟨items, hi, -⟩ := hu
      obtain ⟨r, rfl, -⟩ := ref_of_items? hi
      exact sameScalar_ref_right hp r
    | map us =>
      obtain ⟨entries, hi, -⟩ := hu
      obtain ⟨r, rfl, -⟩ := ref_of_entries? hi
      exact sameScalar_ref_right hp r
  | .list ts, u, _, w, n + 1, ht@⟨vs, hi, _, hts⟩, hu, hp, hq, hn => by
    obtain ⟨r, rfl, hc⟩ := contentAt_of_items? hview hi
    cases u with
    | leaf x => obtain ⟨rfl, -⟩ := hu; exact sameTo_of_isPlain_right hq n r
    | list us =>
      obtain ⟨ws, hi', hown, hus⟩ := hu
      obtain ⟨s, rfl, hd⟩ := contentAt_of_items? hother hi'
      exact ht.sameTo_ref hother ⟨ws, hi', hown, hus⟩ hc hd
        (ReadsItems.sameTo_eq hview hother hts hus hp hq (Nat.lt_of_succ_lt_succ hn))
    | map us =>
      obtain ⟨es, he, hrest⟩ := hu
      obtain ⟨s, rfl, hd⟩ := contentAt_of_entries? he
      exact ht.sameTo_ref hother ⟨es, he, hrest⟩ hc hd rfl
  | .map ts, u, _, w, n + 1, ht@⟨ds, hi, _, _, hts⟩, hu, hp, hq, hn => by
    obtain ⟨r, rfl, hc⟩ := contentAt_of_entries? hi
    cases u with
    | leaf x => obtain ⟨rfl, -⟩ := hu; exact sameTo_of_isPlain_right hq n r
    | list us =>
      obtain ⟨ws, hi', hrest⟩ := hu
      obtain ⟨s, rfl, hd⟩ := contentAt_of_items? hother hi'
      exact ht.sameTo_ref hother ⟨ws, hi', hrest⟩ hc hd rfl
    | map us =>
      obtain ⟨es, he, hown, hapart, hus⟩ := hu
      obtain ⟨s, rfl, hd⟩ := contentAt_of_entries? he
      have hall :=
        ReadsEntries.sameTo_eq hview hother hts hus hp hq (Nat.lt_of_succ_lt_succ hn)
      exact ht.sameTo_ref hother ⟨es, he, hown, hapart, hus⟩ hc hd
        (sameEntries_eq hview hother hts hus hall)

/-- `Reads.sameTo_eq`, item by item. -/
theorem ReadsItems.sameTo_eq (hview : view ≠ .given) (hother : other ≠ .given) :
    ∀ {ts us : List (Tree String)} {vs ws : List Value} {n : Nat},
      h.ReadsItems view within ts vs → h.ReadsItems other wider us ws →
      Tree.allLeavesList Value.isPlain ts = true → Tree.allLeavesList Value.isPlain us = true →
      Tree.heightList ts < n → Heap.agree (h.sameTo n true) vs ws = Tree.alikeList ts us
  | [], [], _, _, _, hr, hu, _, _, _ => by
    rw [ReadsItems] at hr hu
    subst hr hu
    rfl
  | [], u :: us, _, _, _, hr, ⟨_, _, hw, _⟩, _, _, _ => by
    rw [ReadsItems] at hr
    subst hr hw
    rfl
  | t :: ts, [], _, _, _, ⟨_, _, hv, _⟩, hu, _, _, _ => by
    rw [ReadsItems] at hu
    subst hu hv
    rfl
  | t :: ts, u :: us, _, _, n, ⟨v, vs, hv, ht, hts⟩, ⟨w, ws, hw, hu, hus⟩, hp, hq, hn => by
    subst hv hw
    rw [Tree.allLeavesList, Bool.and_eq_true] at hp hq
    rw [Tree.heightList] at hn
    rw [Heap.agree, Tree.alikeList,
      ht.sameTo_eq hview hother hu hp.1 hq.1 (Nat.lt_of_le_of_lt (Nat.le_max_left _ _) hn),
      ReadsItems.sameTo_eq hview hother hts hus hp.2 hq.2
        (Nat.lt_of_le_of_lt (Nat.le_max_right _ _) hn)]

/-- `Reads.sameTo_eq`, entry by entry. -/
theorem ReadsEntries.sameTo_eq (hview : view ≠ .given) (hother : other ≠ .given) :
    ∀ {ts us : List (String × Tree String)} {ds es : Entries Key Value} {n : Nat},
      h.ReadsEntries view within ts ds → h.ReadsEntries other wider us es →
      Tree.allLeavesEntries Value.isPlain ts = true →
      Tree.allLeavesEntries Value.isPlain us = true → Tree.heightEntries ts < n →
      (ds.all fun p =>
        match es.get? p.1 with
        | some w => h.sameTo n true p.2 w
        | none => false) = Tree.alikeEntries ts us
  | [], _, _, _, _, hr, _, _, _, _ => by
    rw [ReadsEntries] at hr
    subst hr
    rfl
  | (name, t) :: ts, us, _, es, n, ⟨key, v, ds, hv, hk, ht, hts⟩, hus, hp, hq, hn => by
    subst hv
    rw [Tree.allLeavesEntries, Bool.and_eq_true] at hp
    rw [Tree.heightEntries] at hn
    have hrest := ReadsEntries.sameTo_eq hview hother hts hus hp.2 hq
      (Nat.lt_of_le_of_lt (Nat.le_max_right _ _) hn)
    rw [List.all_cons, hrest, Tree.alikeEntries]
    -- the second dictionary has the key exactly if its tree has the name
    rcases (hus.matched hother).get? (hk.text? hview) with ⟨hnone, hnone'⟩ | ⟨u, w, hget, hget', hu⟩
    · simp only [hnone, hnone']
    · have hpu := Tree.allLeavesEntries_iff.mp hq _ (Entries.mem_of_get? hget)
      have hsame :=
        ht.sameTo_eq hview hother hu hp.1 hpu (Nat.lt_of_le_of_lt (Nat.le_max_left _ _) hn)
      simp only [hget, hget', hsame]

end

/-- Maps and dictionaries of plain leaves are equal exactly if the trees that they show are alike. -/
theorem Reads.same_eq (hview : view ≠ .given) (hother : other ≠ .given)
    {ts us : List (String × Tree String)} (ht : h.Reads view within (.map ts) v)
    (hu : h.Reads other wider (.map us) w) (hp : (Tree.map ts).isPlain = true)
    (hq : (Tree.map us).isPlain = true) : h.same v w = (Tree.map ts).alike (.map us) := by
  obtain ⟨_, hi, -⟩ := id ht
  obtain ⟨_, hi', -⟩ := id hu
  obtain ⟨r, rfl, -⟩ := ref_of_entries? hi
  obtain ⟨s, rfl, -⟩ := ref_of_entries? hi'
  exact ht.sameTo_eq hview hother hu hp hq (Nat.lt_succ_of_le ht.height_le)

/-- Dictionaries of plain data are equal exactly if the trees that they show are alike. -/
theorem same_eq_alike {ts us : List (String × Tree String)} (hv : IsData h (.map ts) v)
    (hw : IsData h (.map us) w) : h.same v w = (Tree.map ts).alike (.map us) :=
  hv.reads.same_eq (by decide) (by decide) hw.reads hv.plain hw.plain

/-! ### The same again -/

/-- A value is equal to itself as a part of a container, even if it is not a number. -/
theorem sameTo_refl (n : Nat) (v : Value) : h.sameTo (n + 1) true v v = true := by
  cases v with
  | ref r => simp [sameTo]
  | _ => exact Key.same_refl (.atom _)

theorem agree_refl (n : Nat) : ∀ vs : List Value, Heap.agree (h.sameTo (n + 1) true) vs vs = true
  | [] => rfl
  | v :: vs => by rw [Heap.agree, sameTo_refl, agree_refl n vs, Bool.true_and]

/-- Cells with equal contents are equal. -/
theorem sameTo_of_contentAt {r s : Ref} {c d : Cell} {n : Nat} {inside : Bool}
    (hc : h.contentAt r = some c) (hd : h.contentAt s = some d)
    (hsame : h.sameCell (h.sameTo n true) c d = true) :
    h.sameTo (n + 1) inside (.ref r) (.ref s) = true := by
  rw [sameTo, hc, hd]
  dsimp only
  rw [hsame, Bool.or_true]

/-- Dictionaries are equal if they have as many entries, and each value of the first is equal to that of
the second. -/
theorem sameEntries_iff {same : Value → Value → Bool} {ds es : Entries Key Value} :
    sameEntries same ds es = true ↔ ds.length = es.length ∧
      ∀ p ∈ ds, ∃ w, es.get? p.1 = some w ∧ same p.2 w = true := by
  rw [sameEntries, agreeEntries, Bool.and_eq_true, beq_iff_eq, List.all_eq_true]
  refine and_congr_right fun _ => forall_congr' fun p => forall_congr' fun _ => ?_
  cases es.get? p.1 <;> simp

end PageMeta.Heap
