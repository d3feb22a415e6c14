import Mathlib.Data.List.Forall2
import PageMeta.Proofs.Value.Entries
import PageMeta.Value.Basic

/-!
# Keys that are texts

An attribute map has texts as keys, and entries with such keys can be matched one by one with
entries that have plain texts as names.  Reading and writing keep the match.

## Key results

- `beq_of_text?`: two keys that are texts are one key exactly if the texts are
- `get?_put_of_text?`: writing under one text leaves what is read under another
- `Match.get?`, `Match.put`: reading and writing on both sides of a match
- `Match.apart_iff`: matched keys are apart exactly if the names are
-/

namespace PageMeta

/-- The text of a key that is one. -/
def Key.text? : Key → Option String
  | .atom v => v.text?
  | .tuple _ _ => none

/-- Two keys that are texts are one key exactly if the texts are. -/
theorem Key.beq_of_text? {k l : Key} {s t : String} (hk : k.text? = some s)
    (hl : l.text? = some t) : (k == l) = (s == t) := by
  cases k with
  | tuple r items => cases hk
  | atom v =>
    cases l with
    | tuple r items => cases hl
    | atom w =>
      change v.sameScalar true w = (s == t)
      have hv : v.text? = some s := hk
      have hw : w.text? = some t := hl
      cases v <;> cases w <;> cases hv <;> cases hw <;> rfl

/-- What is one key with a text has this text. -/
theorem Key.text?_of_beq {k l : Key} {s : String} (hl : l.text? = some s) (hb : (k == l) = true) :
    k.text? = some s := by
  cases l with
  | tuple r items => cases hl
  | atom w =>
    have hw : w.text? = some s := hl
    cases k with
    | tuple r items => exact absurd hb (by simp [BEq.beq, Key.same])
    | atom v =>
      have hs : v.sameScalar true w = true := hb
      show v.text? = some s
      cases w <;> cases hw <;> cases v <;> simp_all [Value.sameScalar, Value.text?, Value.integer?]

/-- Keys made of texts are one key exactly if the texts are one. -/
theorem Key.beq_ofText (s t : String) : (Key.ofText s == Key.ofText t) = (s == t) := rfl

namespace Entries

variable {α β : Type}

/-- Writing under one text leaves what is read under another. -/
theorem get?_put_of_text? {key other : Key} {name name' : String} (v : α) (entries : Entries Key α)
    (hk : key.text? = some name) (ho : other.text? = some name') (hne : name ≠ name') :
    get? other (put key v entries) = get? other entries := by
  have hapart : ∀ k : Key, (k == key) = true → (k == other) = false := fun k hkey => by
    rw [Key.beq_of_text? (Key.text?_of_beq hk hkey) ho, beq_eq_false_iff_ne]
    exact hne
  induction entries with
  | nil => simp [put, get?, hapart key BEq.rfl]
  | cons p rest ih =>
    obtain ⟨k, w⟩ := p
    rw [put]
    split
    · rename_i hkey
      simp [get?, hapart k hkey]
    · simp only [get?, ih]

/-- One text is looked up in the same way whatever key it is, among any keys. -/
theorem get?_congr_text {k l : Key} {name : String} (hk : k.text? = some name)
    (hl : l.text? = some name) (es : Entries Key α) : get? k es = get? l es := by
  induction es with
  | nil => rfl
  | cons p rest ih =>
    have hkey : (p.1 == k) = (p.1 == l) := by
      cases hp : p.1.text? with
      | some s => rw [Key.beq_of_text? hp hk, Key.beq_of_text? hp hl]
      | none =>
        have hno : ∀ {m : Key}, m.text? = some name → (p.1 == m) = false := fun hm =>
          Bool.eq_false_iff.mpr fun hb => by
            rw [Key.text?_of_beq hm hb] at hp
            cases hp
        rw [hno hk, hno hl]
    obtain ⟨q, a⟩ := p
    simp only [get?, ih] at hkey ⊢
    rw [hkey]

/-- Whether keys are all different as keys of one dictionary. -/
def Apart (entries : Entries Key α) : Prop := entries.Pairwise fun p q => (p.1 == q.1) = false

/-- What stands under a key that is apart from all others is found. -/
theorem Apart.get?_of_mem {entries : Entries Key α} (ha : entries.Apart) {key : Key} {v : α}
    (hm : (key, v) ∈ entries) : get? key entries = some v := by
  induction entries with
  | nil => cases hm
  | cons p rest ih =>
    obtain ⟨k, w⟩ := p
    obtain ⟨hhead, hrest⟩ := List.pairwise_cons.mp ha
    rw [get?]
    rcases List.mem_cons.mp hm with he | hr
    · cases he
      rw [BEq.rfl, if_pos rfl]
    · have hk : (k == key) = false := hhead (key, v) hr
      rw [hk, if_neg Bool.false_ne_true]
      exact ih hrest hr

/-- Entries whose keys are apart are what writing them one after the other gives. -/
theorem Apart.putAll_eq_append {entries : Entries Key α} {pairs : List (Key × α)}
    (ha : Apart (entries ++ pairs)) : putAll entries pairs = entries ++ pairs := by
  induction pairs generalizing entries with
  | nil => simp [putAll]
  | cons p rest ih =>
    obtain ⟨k, v⟩ := p
    have hno : has k entries = false := by
      rw [has_eq_any, List.any_eq_false]
      intro q hq
      have hne : (q.1 == k) = false :=
        (List.pairwise_append.mp ha).2.2 q hq (k, v) List.mem_cons_self
      simp [hne]
    have hstep : putAll entries ((k, v) :: rest) = putAll (entries ++ [(k, v)]) rest := by
      rw [← put_of_not_has v hno]
      rfl
    rw [hstep, ih (by simpa using ha)]
    simp

/-- Such entries are their own list of writes. -/
theorem Apart.ofList_eq_self {entries : Entries Key α} (ha : entries.Apart) :
    ofList entries = entries := by
  have happend : putAll [] entries = [] ++ entries := Apart.putAll_eq_append ha
  exact happend

/-- Whether entries match entries with names: each key is its name, and `Q` relates the values. -/
def Match (Q : String → α → β → Prop) (named : Entries String α) (entries : Entries Key β) : Prop :=
  List.Forall₂ (fun p q => q.1.text? = some p.1 ∧ Q p.1 p.2 q.2) named entries

namespace Match

variable {Q : String → α → β → Prop} {named : Entries String α} {entries : Entries Key β}

/-- What is matched in one relation is matched in another that follows for the entries there are. -/
theorem imp_mem {Q' : String → α → β → Prop} (hm : Match Q named entries)
    (hq : ∀ p ∈ named, ∀ q ∈ entries, q.1.text? = some p.1 → Q p.1 p.2 q.2 → Q' p.1 p.2 q.2) :
    Match Q' named entries := by
  induction hm with
  | nil => exact .nil
  | @cons p q ps qs hpq _ ih =>
    have hhead := hq p List.mem_cons_self q List.mem_cons_self hpq.1 hpq.2
    exact .cons ⟨hpq.1, hhead⟩ (ih fun p hp q hq' =>
      hq p (List.mem_cons_of_mem _ hp) q (List.mem_cons_of_mem _ hq'))

/-- A match in one relation is a match in every relation that follows from it. -/
theorem imp {Q' : String → α → β → Prop} (hm : Match Q named entries)
    (hq : ∀ name a b, Q name a b → Q' name a b) : Match Q' named entries :=
  hm.imp_mem fun _ _ _ _ _ => hq _ _ _

/-- Matched keys are apart exactly if the names are. -/
theorem apart_iff (hm : Match Q named entries) : entries.Apart ↔ (keys named).Nodup := by
  induction hm with
  | nil => simp [Apart, keys]
  | @cons p q ps qs hpq hrest ih =>
    have hhead : (∀ q' ∈ qs, (q.1 == q'.1) = false) ↔ p.1 ∉ keys ps := by
      clear ih
      induction hrest with
      | nil => simp [keys]
      | cons hpq' _ ih' =>
        rw [List.forall_mem_cons, ih', Key.beq_of_text? hpq.1 hpq'.1, beq_eq_false_iff_ne]
        simp only [keys, List.map_cons, List.mem_cons, not_or]
    simp only [Apart, List.pairwise_cons, keys, List.map_cons, List.nodup_cons] at ih hhead ⊢
    rw [ih, hhead]

/-- What is named is matched by an entry. -/
theorem exists_mem (hm : Match Q named entries) : ∀ p ∈ named, ∃ q ∈ entries, Q p.1 p.2 q.2 := by
  induction hm with
  | nil => simp
  | cons hpq _ ih =>
    refine List.forall_mem_cons.mpr ⟨⟨_, List.mem_cons_self, hpq.2⟩, fun p hp => ?_⟩
    obtain ⟨q, hq, hp⟩ := ih p hp
    exact ⟨q, List.mem_cons_of_mem _ hq, hp⟩

/-- An entry matches something that is named. -/
theorem exists_named (hm : Match Q named entries) :
    ∀ q ∈ entries, ∃ p ∈ named, q.1.text? = some p.1 ∧ Q p.1 p.2 q.2 := by
  induction hm with
  | nil => simp
  | cons hpq _ ih =>
    refine List.forall_mem_cons.mpr ⟨⟨_, List.mem_cons_self, hpq⟩, fun q hq => ?_⟩
    obtain ⟨p, hp, hq⟩ := ih q hq
    exact ⟨p, List.mem_cons_of_mem _ hp, hq⟩

theorem length_eq (hm : Match Q named entries) : entries.length = named.length :=
  (List.Forall₂.length_eq hm).symm

/-- Reading a key finds matching values, or nothing on either side. -/
theorem get? {key : Key} {name : String} (hm : Match Q named entries)
    (hk : key.text? = some name) :
    (Entries.get? name named = none ∧ Entries.get? key entries = none) ∨
      ∃ a b, Entries.get? name named = some a ∧ Entries.get? key entries = some b ∧ Q name a b := by
  induction hm with
  | nil => exact .inl ⟨rfl, rfl⟩
  | @cons p q ps qs hpq _ ih =>
    obtain ⟨n, a⟩ := p
    obtain ⟨k, b⟩ := q
    simp only [Entries.get?, Key.beq_of_text? hpq.1 hk]
    by_cases hn : (n == name) = true
    · have he := eq_of_beq hn
      subst he
      simp only [beq_self_eq_true, if_true]
      exact .inr ⟨a, b, rfl, rfl, hpq.2⟩
    · simpa only [hn, Bool.false_eq_true, if_false] using ih

/-- Writing matching values under a key and its name keeps a match. -/
theorem put {key : Key} {name : String} {a : α} {b : β} (hm : Match Q named entries)
    (hk : key.text? = some name) (hab : Q name a b) :
    Match Q (Entries.put name a named) (Entries.put key b entries) := by
  induction hm with
  | nil => exact .cons ⟨hk, hab⟩ .nil
  | @cons p q ps qs hpq hrest ih =>
    obtain ⟨n, a'⟩ := p
    obtain ⟨k, b'⟩ := q
    simp only [Entries.put, Key.beq_of_text? hpq.1 hk]
    by_cases hn : (n == name) = true
    · have he := eq_of_beq hn
      subst he
      simp only [beq_self_eq_true, if_true]
      exact .cons ⟨hpq.1, hab⟩ hrest
    · simp only [hn, Bool.false_eq_true, if_false]
      exact .cons hpq ih

/-- Writing matching pairs one after the other keeps a match. -/
theorem putAll {pairs : List (String × α)} {keyed : List (Key × β)} (hp : Match Q pairs keyed)
    (hm : Match Q named entries) :
    Match Q (Entries.putAll named pairs) (Entries.putAll entries keyed) := by
  induction hp generalizing named entries with
  | nil => exact hm
  | cons hpq _ ih => exact ih (hm.put hpq.1 hpq.2)

/-- Pairs that match give entries that match. -/
theorem ofList {pairs : List (String × α)} {keyed : List (Key × β)} (hp : Match Q pairs keyed) :
    Match Q (Entries.ofList pairs) (Entries.ofList keyed) := putAll hp .nil

/-- A change behind the value of one name only: every other value keeps its side of the match. -/
theorem put_named {Q' : String → α → β → Prop} {key : Key} {name : String} {a : α} {b : β}
    (hm : Match Q named entries) (hk : key.text? = some name) (hn : (keys named).Nodup)
    (hb : Entries.get? key entries = some b) (hab : Q' name a b)
    (hq : ∀ n a b, n ≠ name → Q n a b → Q' n a b) :
    Match Q' (Entries.put name a named) entries := by
  induction hm with
  | nil => cases hb
  | @cons p q ps qs hpq hrest ih =>
    obtain ⟨n, a'⟩ := p
    obtain ⟨k, b'⟩ := q
    simp only [keys, List.map_cons, List.nodup_cons] at hn
    simp only [Entries.get?, Key.beq_of_text? hpq.1 hk] at hb
    simp only [Entries.put]
    by_cases he : (n == name) = true
    · -- the entry itself: no later one has its name
      have he' := eq_of_beq he
      subst he'
      simp only [beq_self_eq_true, if_true, Option.some.injEq] at hb ⊢
      subst hb
      have hne : ∀ p ∈ ps, p.1 ≠ n := fun p hp hpn =>
        hn.1 (List.mem_map.mpr ⟨p, hp, hpn⟩)
      have htail : Match Q' ps qs := Match.imp_mem hrest fun p hp q _ _ => hq _ _ _ (hne p hp)
      exact .cons ⟨hpq.1, hab⟩ htail
    · simp only [he, Bool.false_eq_true, if_false] at hb ⊢
      have hne : n ≠ name := fun h => he (by simp [h])
      exact .cons ⟨hpq.1, hq _ _ _ hne hpq.2⟩ (ih hn.2 hb)

end Match

end Entries

end PageMeta
