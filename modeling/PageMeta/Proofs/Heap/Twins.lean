import PageMeta.Proofs.Heap.Equality
import PageMeta.Proofs.Heap.Grove
import PageMeta.Proofs.Heap.Measures
import PageMeta.Proofs.Tree.Twin

/-!
# Values of the same content

Values of the same content cannot be told apart: they are equal to the same values, whatever these
are, and they are measured alike.

## Key results

- `sameTo_congr`: values of the same content are equal to the same values, and so to each other
- `Reads.measures_of_twin`: values of the same content are measured alike
-/

namespace PageMeta

/-! ### Keys that are no texts -/

/-- What is one key with a text is a text. -/
theorem Key.exists_text_of_beq {k l : Key} {s : String} (hk : k.text? = some s)
    (hb : (k == l) = true) : l.text? = some s := by
  cases k with
  | tuple r items => cases hk
  | atom v =>
    have hv : v.text? = some s := hk
    cases l with
    | tuple r items => exact absurd hb (by simp [BEq.beq, Key.same])
    | atom w =>
      have hs : v.sameScalar true w = true := hb
      show w.text? = some s
      cases v <;> cases hv <;> cases w <;> simp_all [Value.sameScalar, Value.text?, Value.integer?]

namespace Entries

variable {α : Type}

/-- What is found under a text is the value of an entry with this text. -/
theorem mem_of_get?_text {key : Key} {name : String} {a : α} {es : Entries Key α}
    (hk : key.text? = some name) (hget : get? key es = some a) :
    ∃ k, k.text? = some name ∧ (k, a) ∈ es := by
  induction es with
  | nil => cases hget
  | cons p rest ih =>
    obtain ⟨k, b⟩ := p
    rw [get?] at hget
    split at hget
    · rename_i hb
      cases hget
      exact ⟨k, Key.text?_of_beq hk hb, List.mem_cons_self⟩
    · obtain ⟨l, hl, hmem⟩ := ih hget
      exact ⟨l, hl, List.mem_cons_of_mem _ hmem⟩

/-- Among texts nothing else is found. -/
theorem Match.get?_of_no_text {β : Type} {Q : String → α → β → Prop} {named : Entries String α}
    {entries : Entries Key β} (hm : Match Q named entries) {key : Key} (hk : key.text? = none) :
    Entries.get? key entries = none := by
  induction hm with
  | nil => rfl
  | @cons p q _ _ hpq _ ih =>
    obtain ⟨k, b⟩ := q
    have hne : (k == key) = false := Bool.eq_false_iff.mpr fun hb => by
      rw [Key.exists_text_of_beq hpq.1 hb] at hk
      cases hk
    rw [Entries.get?, hne, if_neg Bool.false_ne_true, ih]

end Entries

namespace Heap

variable {h : Heap} {within wider : Ref → Prop} {t u : Tree String} {v w x y : Value} {n : Nat}

/-! ### Equal to the same values -/

/-- Whether two values are equal to the same values. -/
def SameTo (same : Value → Value → Bool) (x y : Value) : Prop :=
  ∀ v, same v x = same v y ∧ same x v = same y v

namespace SameTo

variable {same : Value → Value → Bool} {z : Value}

theorem symm (h : SameTo same x y) : SameTo same y x := fun v => ⟨(h v).1.symm, (h v).2.symm⟩

theorem trans (h : SameTo same x y) (h' : SameTo same y z) : SameTo same x z :=
  fun v => ⟨(h v).1.trans (h' v).1, (h v).2.trans (h' v).2⟩

end SameTo

/-- Lists of items that are equal to the same values are equal to the same lists. -/
theorem agree_congr {same : Value → Value → Bool} {xs ys : List Value}
    (hf : List.Forall₂ (SameTo same) xs ys) : ∀ vs, Heap.agree same vs xs = Heap.agree same vs ys ∧
      Heap.agree same xs vs = Heap.agree same ys vs := by
  induction hf with
  | nil => exact fun vs => ⟨rfl, rfl⟩
  | cons hxy _ ih =>
    intro vs
    cases vs with
    | nil => exact ⟨rfl, rfl⟩
    | cons v vs =>
      simp only [Heap.agree]
      rw [(hxy v).1, (hxy v).2, (ih vs).1, (ih vs).2]
      exact ⟨rfl, rfl⟩

section

variable {same : Value → Value → Bool} {Q Q' : String → Tree String → Value → Prop}
  {ts us : Entries String (Tree String)} {xs ys : Entries Key Value}

/-- Of dictionaries that match maps of the same content, one has a text as a key exactly if the other
has, and the values are equal to the same values if that is so wherever their trees have the same
content. -/
theorem get?_sameTo (hm : Entries.Match Q ts xs) (hm' : Entries.Match Q' us ys)
    (htwin : ∀ key, Tree.TwinOn (Entries.get? key ts) (Entries.get? key us))
    (hsame : ∀ name t u x y, Entries.get? name ts = some t → Entries.get? name us = some u →
      Tree.Twin t u → Q name t x → Q' name u y → SameTo same x y) {key : Key} {name : String}
    (hk : key.text? = some name) : (xs.get? key = none ∧ ys.get? key = none) ∨
      ∃ x y, xs.get? key = some x ∧ ys.get? key = some y ∧ SameTo same x y := by
  have hname := htwin name
  rcases hm.get? hk with ⟨hnone, hx⟩ | ⟨t, x, ht, hx, hq⟩ <;>
    rcases hm'.get? hk with ⟨hnone', hy⟩ | ⟨u, y, hu, hy, hq'⟩
  · exact .inl ⟨hx, hy⟩
  · rw [hnone, hu] at hname; exact hname.elim
  · rw [ht, hnone'] at hname; exact hname.elim
  · rw [ht, hu] at hname
    exact .inr ⟨x, y, hx, hy, hsame name t u x y ht hu hname hq hq'⟩

/-- Among texts, each entry is found under its text. -/
theorem forall_entries_iff {P : Option Value → Value → Prop} {es : Entries Key Value}
    (hx : xs.Apart) (hm : Entries.Match Q ts xs) : (∀ p ∈ xs, P (es.get? p.1) p.2) ↔
      ∀ name x, xs.get? (Key.ofText name) = some x → P (es.get? (Key.ofText name)) x := by
  constructor
  · intro h name x hget
    obtain ⟨k, hk, hmem⟩ := Entries.mem_of_get?_text rfl hget
    rw [Entries.get?_congr_text rfl hk]
    exact h _ hmem
  · intro h p hp
    obtain ⟨name, hname⟩ := hm.exists_text p hp
    have hkey : (Key.ofText name).text? = some name := rfl
    rw [Entries.get?_congr_text hname hkey]
    exact h name p.2 (by rw [Entries.get?_congr_text hkey hname, hx.get?_of_mem hp])

/-- Dictionaries that have the same texts as keys, with values that are equal to the same values, are
equal to the same dictionaries. -/
theorem sameEntries_congr (hlen : xs.length = ys.length) (hx : xs.Apart) (hy : ys.Apart)
    (hm : Entries.Match Q ts xs) (hm' : Entries.Match Q' us ys)
    (hget : ∀ {key : Key} {name : String}, key.text? = some name →
      (xs.get? key = none ∧ ys.get? key = none) ∨
        ∃ x y, xs.get? key = some x ∧ ys.get? key = some y ∧ SameTo same x y)
    (es : Entries Key Value) : sameEntries same es xs = sameEntries same es ys ∧
      sameEntries same xs es = sameEntries same ys es := by
  constructor
  · rw [Bool.eq_iff_iff, sameEntries_iff, sameEntries_iff, hlen]
    refine and_congr_right fun _ => forall_congr' fun p => forall_congr' fun _ => ?_
    -- a key that is no text is in neither
    cases hp : p.1.text? with
    | none => rw [hm.get?_of_no_text hp, hm'.get?_of_no_text hp]
    | some name =>
      rcases hget hp with ⟨hx, hy⟩ | ⟨x, y, hx, hy, hxy⟩
      · rw [hx, hy]
      · rw [hx, hy]
        simp [(hxy p.2).1]
  · rw [Bool.eq_iff_iff, sameEntries_iff, sameEntries_iff, hlen]
    refine and_congr_right fun _ => ?_
    refine (forall_entries_iff (P := fun o x => ∃ w, o = some w ∧ same x w = true) hx hm).trans
      (Iff.trans ?_ (forall_entries_iff (P := fun o x => ∃ w, o = some w ∧ same x w = true) hy hm').symm)
    refine forall_congr' fun name => ?_
    rcases hget (show (Key.ofText name).text? = some name from rfl) with ⟨hx, hy⟩ | ⟨x, y, hx, hy, hxy⟩
    · simp [hx, hy]
    · simp [hx, hy, (hxy _).2]

end

/-- A scalar is compared as a scalar, whatever it is compared with. -/
theorem sameTo_scalar {a : Value} (ha : ∀ r, a ≠ .ref r) (v : Value) :
    h.sameTo (n + 1) true v a = v.sameScalar true a ∧
      h.sameTo (n + 1) true a v = a.sameScalar true v := by
  cases a with
  | ref r => exact absurd rfl (ha r)
  | _ => cases v <;> exact ⟨rfl, rfl⟩

/-- Cells that are equal to themselves, and whose contents are equal to the same contents, are equal
to the same values. -/
theorem sameTo_ref_congr {r s : Ref} {c d : Cell} (hc : h.contentAt r = some c)
    (hd : h.contentAt s = some d) (hself : h.sameCell (h.sameTo n true) c c = true)
    (hself' : h.sameCell (h.sameTo n true) d d = true)
    (hcell : ∀ b, h.sameCell (h.sameTo n true) b c = h.sameCell (h.sameTo n true) b d ∧
      h.sameCell (h.sameTo n true) c b = h.sameCell (h.sameTo n true) d b) :
    SameTo (h.sameTo (n + 1) true) (.ref r) (.ref s) := by
  -- a cell is equal to itself anyway, so that it only matters what its content is equal to
  have hcontent : ∀ {r : Ref} {c : Cell} (q : Ref), h.contentAt r = some c →
      h.sameCell (h.sameTo n true) c c = true →
      h.sameTo (n + 1) true (.ref q) (.ref r) =
        ((h.contentAt q).any fun b => h.sameCell (h.sameTo n true) b c) ∧
      h.sameTo (n + 1) true (.ref r) (.ref q) =
        ((h.contentAt q).any fun b => h.sameCell (h.sameTo n true) c b) :=
    fun {r c} q hc hself => by
    rw [sameTo, sameTo, hc]
    by_cases he : q = r
    · subst he
      simp [hc, hself]
    · rw [beq_eq_false_iff_ne.mpr he, beq_eq_false_iff_ne.mpr (Ne.symm he)]
      cases h.contentAt q <;> exact ⟨rfl, rfl⟩
  intro v
  cases v with
  | ref q =>
    rw [(hcontent q hc hself).1, (hcontent q hd hself').1, (hcontent q hc hself).2,
      (hcontent q hd hself').2]
    simp only [(hcell _).1, (hcell _).2, and_self]
  | _ => simp [sameTo, Value.sameScalar, Value.integer?, Value.text?]

/-- Dictionaries are equal to themselves. -/
theorem sameEntries_refl {es : Entries Key Value} (ha : es.Apart) :
    sameEntries (h.sameTo (n + 1) true) es es = true :=
  sameEntries_iff.mpr ⟨rfl, fun p hp => ⟨p.2, ha.get?_of_mem hp, sameTo_refl n p.2⟩⟩

/-- Whether values of the same content are equal to the same values, as far as some depth is enough to
compare them. -/
def Congruent (h : Heap) (within wider : Ref → Prop) (n : Nat) : Prop :=
  ∀ {t u : Tree String} {x y : Value}, h.Reads .plain within t x → h.Reads .plain wider u y →
    Tree.Twin t u → t.height < n → u.height < n → SameTo (h.sameTo n true) x y

/-- Scalars of the same content are equal to the same values, and so is any other value to itself. -/
theorem sameTo_congr_leaf (htwin : x.twin y = true) : SameTo (h.sameTo (n + 1) true) x y := by
  intro v
  have hscalar : (∀ r, x ≠ .ref r) → (∀ r, y ≠ .ref r) →
      h.sameTo (n + 1) true v x = h.sameTo (n + 1) true v y ∧
        h.sameTo (n + 1) true x v = h.sameTo (n + 1) true y v := fun hx hy => by
    rw [(sameTo_scalar hx v).1, (sameTo_scalar hx v).2, (sameTo_scalar hy v).1,
      (sameTo_scalar hy v).2]
    exact ⟨Value.sameScalar_congr_right htwin v, Value.sameScalar_congr_left htwin v⟩
  rcases Value.twin_cases htwin with rfl | ⟨_, _, _, rfl, rfl⟩ | ⟨_, _, _, _, rfl, rfl, -⟩ |
    ⟨_, _, _, rfl, rfl⟩ | ⟨_, _, _, rfl, rfl⟩
  · exact ⟨rfl, rfl⟩
  all_goals exact hscalar (fun _ heq => by cases heq) fun _ heq => by cases heq

/-- Items of the same content are equal to the same values. -/
theorem ReadsItems.sameTo_congr (hc : Congruent h within wider n) :
    ∀ {ts us : List (Tree String)} {xs ys : List Value}, h.ReadsItems .plain within ts xs →
      h.ReadsItems .plain wider us ys → Tree.TwinList ts us → Tree.heightList ts < n →
      Tree.heightList us < n → List.Forall₂ (SameTo (h.sameTo n true)) xs ys
  | [], [], _, _, hxs, hys, _, _, _ => by
    rw [ReadsItems] at hxs hys
    subst hxs hys
    exact .nil
  | t :: ts, u :: us, _, _, ⟨x, xs, hx, ht, hxs⟩, ⟨y, ys, hy, hu, hys⟩, htwin, hn, hn' => by
    subst hx hy
    rw [Tree.heightList, Nat.max_lt] at hn hn'
    exact .cons (hc ht hu htwin.1 hn.1 hn'.1)
      (ReadsItems.sameTo_congr hc hxs hys htwin.2 hn.2 hn'.2)

/-- Values of the same content are equal to the same values, whatever their leaves are. -/
theorem sameTo_congr (h : Heap) (within wider : Ref → Prop) (n : Nat) :
    Congruent h within wider n := by
  induction n with
  | zero => exact fun _ _ _ hn => absurd hn (Nat.not_lt_zero _)
  | succ n ih =>
    intro t u x y ht hu htwin hn hn'
    have hdt := ht.distinct (by decide)
    have hdu := hu.distinct (by decide)
    cases t with
    | leaf a =>
      cases u with
      | leaf b =>
        obtain ⟨rfl, -⟩ := ht
        obtain ⟨rfl, -⟩ := hu
        exact sameTo_congr_leaf htwin
      | _ => exact htwin.elim
    | list ts =>
      cases u with
      | list us =>
        obtain ⟨xs, hi, -, hts⟩ := ht
        obtain ⟨ys, hi', -, hus⟩ := hu
        obtain ⟨r, rfl, hc⟩ := contentAt_of_items? (by decide) hi
        obtain ⟨s, rfl, hd⟩ := contentAt_of_items? (by decide) hi'
        have hlt := Nat.lt_of_succ_lt_succ hn
        -- a list is higher than nothing, so there is depth left for its items
        obtain ⟨m, rfl⟩ := Nat.exists_eq_add_one.mpr (Nat.zero_lt_of_lt hlt)
        refine sameTo_ref_congr hc hd (agree_refl m xs) (agree_refl m ys) fun b => ?_
        cases b with
        | list vs =>
          exact agree_congr (ReadsItems.sameTo_congr ih hts hus htwin hlt
            (Nat.lt_of_succ_lt_succ hn')) vs
        | _ => exact ⟨rfl, rfl⟩
      | _ => exact htwin.elim
    | map ts =>
      cases u with
      | map us =>
        obtain ⟨xs, he, -, hx, hts⟩ := ht
        obtain ⟨ys, he', -, hy, hus⟩ := hu
        obtain ⟨r, rfl, hc⟩ := contentAt_of_entries? he
        obtain ⟨s, rfl, hd⟩ := contentAt_of_entries? he'
        have hm : Entries.Match (fun _ t v => h.Reads .plain within t v) ts xs :=
          readsEntries_iff.mp hts
        have hm' : Entries.Match (fun _ t v => h.Reads .plain wider t v) us ys :=
          readsEntries_iff.mp hus
        have hlt := Nat.lt_of_succ_lt_succ hn
        obtain ⟨m, rfl⟩ := Nat.exists_eq_add_one.mpr (Nat.zero_lt_of_lt hlt)
        refine sameTo_ref_congr hc hd (sameEntries_refl hx) (sameEntries_refl hy) fun b => ?_
        cases b with
        | dict es =>
          refine sameEntries_congr ((hm.length_eq.trans htwin.1).trans hm'.length_eq.symm) hx hy hm hm'
            (get?_sameTo hm hm' ((Tree.twin_map_iff hdt.1 hdu.1).mp htwin) ?_) es
          intro name t u x y ht hu htwin hx hy
          exact ih hx hy htwin
            (Nat.lt_of_le_of_lt (Tree.height_le_heightEntries (Entries.mem_of_get? ht)) hlt)
            (Nat.lt_of_le_of_lt (Tree.height_le_heightEntries (Entries.mem_of_get? hu))
              (Nat.lt_of_succ_lt_succ hn'))
        | _ => exact ⟨rfl, rfl⟩
      | _ => exact htwin.elim

/-- Values that are equal to the same values are equal. -/
theorem SameTo.same (hxy : SameTo (h.sameTo (n + 1) true) x y) : h.sameTo (n + 1) true x y = true := by
  rw [← (hxy x).1, sameTo_refl]

/-! ### Measured alike -/

/-- Scalars of the same content are measured alike. -/
theorem measures_of_twin (htwin : v.twin w = true) :
    h.length v = h.length w ∧ h.truth v = h.truth w := by
  rcases Value.twin_cases htwin with rfl | ⟨n, k, l, rfl, rfl⟩ | ⟨x, y, k, l, rfl, rfl, hxy⟩ |
    ⟨s, k, l, rfl, rfl⟩ | ⟨bs, k, l, rfl, rfl⟩
  · exact ⟨rfl, rfl⟩
  · exact ⟨rfl, rfl⟩
  · refine ⟨rfl, ?_⟩
    rcases Binary64.eq_or_zeros_of_same hxy with rfl | ⟨s, t, rfl, rfl⟩ <;> rfl
  · exact ⟨rfl, rfl⟩
  · exact ⟨rfl, rfl⟩

/-- Values of the same content are measured alike, whatever their leaves are. -/
theorem Reads.measures_of_twin {view : View} (hv : view ≠ .given) (ht : h.Reads view within t v)
    (hu : h.Reads view wider u w) (htwin : Tree.Twin t u) :
    h.length v = h.length w ∧ h.truth v = h.truth w := by
  -- only a list and a map have a length that is read from the tree; a scalar is its own
  have hcontainer : (∀ x, t ≠ .leaf x) → (∀ x, u ≠ .leaf x) → t.length = u.length →
      t.truth = u.truth → h.length v = h.length w ∧ h.truth v = h.truth w :=
    fun hn hn' hlength htruth =>
    ⟨by rw [ht.length_of_not_leaf hv hn, hu.length_of_not_leaf hv hn', hlength],
      by rw [ht.truth_of_not_leaf hv hn, hu.truth_of_not_leaf hv hn', htruth]⟩
  cases t with
  | leaf x =>
    cases u with
    | leaf y =>
      obtain ⟨rfl, -⟩ := ht
      obtain ⟨rfl, -⟩ := hu
      exact Heap.measures_of_twin htwin
    | _ => exact htwin.elim
  | list ts =>
    cases u with
    | list us =>
      have hlen := Tree.Twin.length_eq htwin
      exact hcontainer (fun _ h => by cases h) (fun _ h => by cases h)
        (by rw [Tree.length, Tree.length, hlen]) (by rw [Tree.truth, Tree.truth, hlen])
    | _ => exact htwin.elim
  | map ts =>
    cases u with
    | map us =>
      exact hcontainer (fun _ h => by cases h) (fun _ h => by cases h)
        (by rw [Tree.length, Tree.length, htwin.1]) (by rw [Tree.truth, Tree.truth, htwin.1])
    | _ => exact htwin.elim

end Heap

end PageMeta
