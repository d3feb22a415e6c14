import PageMeta.CommandLine.Check
import PageMeta.Proofs.Tree.Leaves

/-!
# Trees that are read

Reading a JSON text gives scalars as leaves, and every object has each name once, as a name that comes
again keeps its place and takes the last value.  The one object that is no number is the literal, so
that a double that is about to be made is a number.

## Key results

- `IsRead`: trees that reading can give
- `readValue_isRead`: reading gives no others
- `readContent_isRead`: neither does reading the content of a file
-/

namespace PageMeta

/-- Whether reading can give a value as a scalar. -/
def Value.isRead : Value → Bool
  | .none | .bool _ | .int _ _ | .text _ _ => true
  | .real x mark => x != .nan || mark != .pending
  | _ => false

namespace Tree

/-- Whether reading can give a tree: its leaves are scalars, and every level has each key once. -/
structure IsRead (t : Tree String) : Prop where
  leaves : t.allLeaves Value.isRead = true
  distinct : t.Distinct

theorem isRead_list {ts : List (Tree String)} (hts : ∀ t ∈ ts, IsRead t) : IsRead (.list ts) := by
  refine ⟨allLeavesList_iff.mpr fun t ht => (hts t ht).leaves, ?_⟩
  show DistinctList ts
  induction ts with
  | nil => trivial
  | cons t ts ih =>
    exact ⟨(hts t List.mem_cons_self).distinct, ih fun u hu => hts u (List.mem_cons_of_mem t hu)⟩

/-- Members that are written one after the other make an object with each name once. -/
theorem isRead_ofList {members : List (String × Tree String)} (hm : ∀ p ∈ members, IsRead p.2) :
    IsRead (.map (Entries.ofList members)) := by
  have hvalues : ∀ p ∈ Entries.ofList members, IsRead p.2 :=
    forall_putAll hm fun p hp => absurd hp List.not_mem_nil
  refine ⟨allLeavesEntries_iff.mpr fun p hp => (hvalues p hp).leaves, ?_, ?_⟩
  · exact Entries.nodup_keys_putAll members List.nodup_nil
  · exact distinctEntries_iff.mpr fun p hp => (hvalues p hp).distinct

end Tree

/-! ### Scalars -/

namespace Binary64

theorem ofRatio_ne_nan (negative : Bool) (num den : Nat) : ofRatio negative num den ≠ .nan := by
  unfold ofRatio
  dsimp only
  split <;> exact fun heq => by cases heq

theorem ofDecimal_ne_nan (negative : Bool) (digits size : Nat) (exponent : Int) :
    ofDecimal negative digits size exponent ≠ .nan := by
  unfold ofDecimal
  split
  · exact fun heq => by cases heq
  · split
    · exact fun heq => by cases heq
    · split
      · exact fun heq => by cases heq
      · split <;> exact ofRatio_ne_nan _ _ _

end Binary64

namespace Decimal

theorem ne_nan_of_map {c : Prop} [Decidable c] {o : Option Int} {f : Int → Binary64} {x : Binary64}
    (hf : ∀ e, f e ≠ .nan) (hx : (if c then none else o.map f) = some x) : x ≠ .nan := by
  split at hx
  · cases hx
  · obtain ⟨e, -, rfl⟩ := Option.map_eq_some_iff.mp hx
    exact hf e

/-- What is read as a decimal is a number. -/
theorem unsigned?_ne_nan {negative : Bool} {text : List Char} {x : Binary64}
    (hx : unsigned? negative text = some x) : x ≠ .nan := by
  unfold unsigned? at hx
  dsimp only at hx
  split at hx <;> exact ne_nan_of_map (fun _ => Binary64.ofDecimal_ne_nan _ _ _ _) hx

end Decimal

namespace Json

open PageMeta.Tree (IsRead)

/-- If one reading after another succeeds, so does the first. -/
theorem exists_of_bind {ε α β : Type} {x : Except ε α} {f : α → Except ε β} {b : β}
    (hrun : (x >>= f) = .ok b) : ∃ a, x = .ok a ∧ f a = .ok b := by
  cases x with
  | error e => cases hrun
  | ok a => exact ⟨a, rfl, hrun⟩

theorem readNumber_isRead {text rest : List Char} {v : Value}
    (hrun : readNumber text = .ok (v, rest)) : v.isRead = true := by
  unfold readNumber at hrun
  dsimp only at hrun
  -- how the parts of a number are found does not matter
  generalize spanWhole (if (text.head? == some '-') = true then text.drop 1 else text) = whole at hrun
  split at hrun
  · cases hrun
  · split at hrun
    · split at hrun
      · cases hrun
      · cases hrun
        rfl
    · split at hrun
      · rename_i x hx
        cases hrun
        simp [Value.isRead, Decimal.unsigned?_ne_nan hx]
      · cases hrun

theorem readScalar_isRead {text rest : List Char} {v : Value}
    (hrun : readScalar text = .ok (v, rest)) : v.isRead = true := by
  have hliterals : ∀ p ∈ literals, p.2.isRead = true := by decide
  unfold readScalar at hrun
  dsimp only at hrun
  split at hrun
  · rename_i found hfound
    cases hrun
    obtain ⟨p, hp, hread⟩ := List.exists_of_findSome?_eq_some hfound
    obtain ⟨after, -, hv⟩ := Option.map_eq_some_iff.mp hread
    cases hv
    exact hliterals p hp
  · exact readNumber_isRead hrun

/-! ### Values -/

mutual

/-- A value that is read is a scalar, or made of what is read. -/
theorem readValue_isRead : ∀ {steps : Nat} {text rest : List Char} {t : Tree String},
    readValue steps text = .ok (t, rest) → IsRead t
  | 0, text, rest, t, hrun => by
    unfold readValue at hrun
    cases hrun
  | steps + 1, text, rest, t, hrun => by
    unfold readValue at hrun
    split at hrun
    · obtain ⟨⟨s, after⟩, -, hrun⟩ := exists_of_bind hrun
      cases hrun
      exact ⟨rfl, trivial⟩
    · split at hrun
      · cases hrun
        exact Tree.isRead_ofList fun p hp => absurd hp List.not_mem_nil
      · obtain ⟨⟨members, after⟩, hmembers, hrun⟩ := exists_of_bind hrun
        cases hrun
        exact Tree.isRead_ofList (readMembers_isRead hmembers)
    · split at hrun
      · cases hrun
        exact Tree.isRead_list fun t ht => absurd ht List.not_mem_nil
      · obtain ⟨⟨items, after⟩, hitems, hrun⟩ := exists_of_bind hrun
        cases hrun
        exact Tree.isRead_list (readItems_isRead hitems)
    · obtain ⟨⟨v, after⟩, hscalar, hrun⟩ := exists_of_bind hrun
      cases hrun
      exact ⟨readScalar_isRead hscalar, trivial⟩

/-- `readValue_isRead`, item by item. -/
theorem readItems_isRead : ∀ {steps : Nat} {text rest : List Char} {ts : List (Tree String)},
    readItems steps text = .ok (ts, rest) → ∀ t ∈ ts, IsRead t
  | 0, text, rest, ts, hrun => by
    unfold readItems at hrun
    cases hrun
  | steps + 1, text, rest, ts, hrun => by
    unfold readItems at hrun
    obtain ⟨⟨item, after⟩, hitem, hrun⟩ := exists_of_bind hrun
    have hfirst := readValue_isRead hitem
    dsimp only at hrun
    split at hrun
    · cases hrun
      exact List.forall_mem_singleton.mpr hfirst
    · obtain ⟨⟨items, after⟩, hitems, hrun⟩ := exists_of_bind hrun
      cases hrun
      exact List.forall_mem_cons.mpr ⟨hfirst, readItems_isRead hitems⟩
    · cases hrun

/-- `readValue_isRead`, member by member. -/
theorem readMembers_isRead : ∀ {steps : Nat} {text rest : List Char}
    {members : List (String × Tree String)},
    readMembers steps text = .ok (members, rest) → ∀ p ∈ members, IsRead p.2
  | 0, text, rest, members, hrun => by
    unfold readMembers at hrun
    cases hrun
  | steps + 1, text, rest, members, hrun => by
    unfold readMembers at hrun
    split at hrun
    · obtain ⟨⟨name, after⟩, -, hrun⟩ := exists_of_bind hrun
      dsimp only at hrun
      split at hrun
      · obtain ⟨⟨value, after⟩, hvalue, hrun⟩ := exists_of_bind hrun
        have hfirst := readValue_isRead hvalue
        dsimp only at hrun
        split at hrun
        · cases hrun
          exact List.forall_mem_singleton.mpr hfirst
        · obtain ⟨⟨others, after⟩, hothers, hrun⟩ := exists_of_bind hrun
          cases hrun
          exact List.forall_mem_cons.mpr ⟨hfirst, readMembers_isRead hothers⟩
        · cases hrun
      · cases hrun
    · cases hrun

end

/-- Reading a document gives a tree of scalars with each name once at every level. -/
theorem readDocument_isRead {text : List Char} {t : Tree String}
    (hrun : readDocument text = .ok t) : IsRead t := by
  unfold readDocument at hrun
  split at hrun
  · cases hrun
  · obtain ⟨⟨value, rest⟩, hvalue, hrun⟩ := exists_of_bind hrun
    dsimp only at hrun
    split at hrun
    · cases hrun
      exact readValue_isRead hvalue
    · cases hrun

end Json

/-- So does reading the content of a file. -/
theorem CommandLine.readContent_isRead {path : String} {content : List UInt8} {t : Tree String}
    (hrun : readContent path content = .ok t) : t.IsRead := by
  unfold readContent at hrun
  split at hrun
  · cases hrun
  · obtain ⟨u, hread, hrun⟩ := Json.exists_of_bind hrun
    unfold readJson at hread
    split at hread
    · rename_i hdocument
      cases hread
      split at hrun
      · cases hrun
        exact Json.readDocument_isRead hdocument
      · cases hrun
    · cases hread
    · cases hread

end PageMeta
