import PageMeta.Heap.Equality
import PageMeta.Settings.Rules

/-!
# What checking comes to

An object is checked against rules: either it is passed, or it is complained about with everything
that is wrong.  Some rules ask for the length of a value that counts as true.  Such a value need not
have a length, and then checking goes wrong.

## Key results

- `Judged`: what checking comes to, given the values whose lengths are asked for
- `found_of_measured`: what is found if the lengths of two values are asked for
-/

namespace PageMeta

variable {h : Heap} {v u : Value} {vs : List Value} {α : Type}

/-- A message is left out exactly if its condition is not met. -/
theorem Settings.when_eq_nil {condition : Bool} {message : String} :
    Settings.when condition message = [] ↔ condition = false := by
  cases condition <;> simp [Settings.when]

@[simp] theorem Error.kind_violations (messages : List String) :
    (Error.violations messages).kind = "ValidationError" := rfl

@[simp] theorem Error.message_violations (messages : List String) :
    (Error.violations messages).message = ", ".intercalate messages := rfl

/-- Whether the length of a value is asked for in vain: it counts as true, but has no length. -/
def Heap.Unmeasured (h : Heap) (v : Value) : Prop :=
  h.truth v = true ∧ h.length v = .error (.noLength (h.typeName v))

theorem Heap.length_cases (h : Heap) (v : Value) :
    (∃ n, h.length v = .ok n) ∨ h.length v = .error (.noLength (h.typeName v)) := by
  unfold Heap.length
  dsimp only
  split
  · exact .inl ⟨_, rfl⟩
  · exact .inr rfl

/-- A number that is not zero counts as true and has no length. -/
example : Heap.empty.Unmeasured (.ofInt 5) := ⟨rfl, rfl⟩

/-- Whether the length of a value can be told where it is asked for: the value counts as false or
has a length. -/
def Heap.Measurable (h : Heap) (v : Value) : Prop :=
  h.truth v = false ∨ ∃ n, h.length v = .ok n

/-- The length of a value; what has none is counted as empty. -/
def Heap.lengthOf (h : Heap) (v : Value) : Nat :=
  match h.length v with
  | .ok n => n
  | .error _ => 0

/-- Whether a value counts as true and is longer than a limit. -/
def Heap.TooLong (h : Heap) (v : Value) (limit : Nat) : Prop :=
  h.truth v = true ∧ ∃ n, h.length v = .ok n ∧ limit < n

theorem Heap.tooLong_iff {n limit : Nat} (hn : h.length v = .ok n) :
    h.TooLong v limit ↔ h.truth v = true ∧ limit < n := by
  simp [Heap.TooLong, hn]

/-- The absent value counts as false, so what may be missing is too long only if it is there. -/
theorem Heap.tooLong_getD {v? : Option Value} {limit : Nat} :
    h.TooLong (v?.getD .none) limit ↔ ∃ v, v? = some v ∧ h.TooLong v limit := by
  cases v? with
  | none => simp [Heap.TooLong, Heap.truth]
  | some v => simp

/-- What may be missing reads as the absent value if it is missing or is the absent value. -/
theorem Value.isNone_getD {v? : Option Value} :
    (v?.getD .none).isNone = true ↔ ∀ v, v? = some v → v = .none := by
  cases v? with
  | none => simp [Value.isNone]
  | some v => cases v <;> simp [Value.isNone]

instance (h : Heap) (v : Value) (limit : Nat) : Decidable (h.TooLong v limit) :=
  match hn : h.length v with
  | .ok _ => decidable_of_iff _ (Heap.tooLong_iff hn).symm
  | .error _ => isFalse (by simp [Heap.TooLong, hn])

/-- Where a length can be told, so can whether it is beyond a limit. -/
theorem Heap.Measurable.exceeds_eq (hv : h.Measurable v) (limit : Nat) :
    Settings.exceeds h v limit = .ok (decide (h.TooLong v limit)) := by
  unfold Settings.exceeds
  cases htruth : h.truth v with
  | false =>
    have hshort : ¬ h.TooLong v limit := fun hlong => by
      rw [hlong.1] at htruth
      cases htruth
    simp [hshort]
  | true =>
    -- what counts as true has a length by assumption
    obtain ⟨n, hn⟩ := hv.resolve_left (by simp [htruth])
    have hlong : h.TooLong v limit ↔ limit < n := by simp [Heap.tooLong_iff hn, htruth]
    simp only [hn, if_true, Except.map, decide_eq_decide.mpr hlong]

/-- What is said of some rules, each if its condition holds, is said of those that it holds of. -/
theorem Settings.flatMap_when {ρ : Type} (rules : List ρ) (p : ρ → Bool) (f : ρ → String) :
    (rules.flatMap fun rule => Settings.when (p rule) (f rule)) = (rules.filter p).map f := by
  induction rules with
  | nil => rfl
  | cons rule rules ih =>
    rw [List.flatMap_cons, List.filter_cons, ih]
    cases p rule <;> rfl

/-- What a question comes to that asks for the length of a value if it counts as true: there is an
answer, unless the length is asked for in vain. -/
def Measured (h : Heap) (v : Value) (x : Except Error α) : Prop :=
  ¬ h.Unmeasured v ∧ (∃ a, x = .ok a) ∨ h.Unmeasured v ∧ x = .error (.noLength (h.typeName v))

/-- A question about the length of a value that counts as true. -/
theorem measured_length (f : Nat → α) (a : α) :
    Measured h v (if h.truth v then (h.length v).map f else .ok a) := by
  cases htruth : h.truth v with
  | false => exact .inl ⟨fun hu => (by rw [hu.1] at htruth; cases htruth), a, rfl⟩
  | true =>
    rcases h.length_cases v with ⟨n, hn⟩ | hn
    · refine .inl ⟨fun hu => ?_, f n, by rw [hn]; rfl⟩
      rw [hu.2] at hn
      cases hn
    · exact .inr ⟨⟨htruth, hn⟩, by rw [hn]; rfl⟩

/-- An answer that is put into other words. -/
theorem Measured.map {β : Type} {x : Except Error α} (hx : Measured h v x) (f : α → β) :
    Measured h v (do let a ← x; return f a) := by
  rcases hx with ⟨hv, a, rfl⟩ | ⟨hv, rfl⟩
  · exact .inl ⟨hv, f a, rfl⟩
  · exact .inr ⟨hv, rfl⟩

/-- What looking for everything that is wrong comes to, given the values whose lengths are asked
for. -/
def Found (h : Heap) (vs : List Value) (x : Except Error (List String)) : Prop :=
  (∀ v ∈ vs, ¬ h.Unmeasured v) ∧ (∃ broken, x = .ok broken) ∨
    ∃ v ∈ vs, h.Unmeasured v ∧ x = .error (.noLength (h.typeName v))

theorem found_of_no_length (broken : List String) : Found h [] (.ok broken) :=
  .inl ⟨fun _ hv => absurd hv List.not_mem_nil, broken, rfl⟩

/-- Two values are asked for their lengths, one after the other. -/
theorem found_of_measured {β : Type} {x : Except Error α} {y : Except Error β}
    (hx : Measured h v x) (hy : Measured h u y) (f : α → β → List String) :
    Found h [v, u] (do let a ← x; let b ← y; return f a b) := by
  rcases hx with ⟨hv, a, rfl⟩ | ⟨hv, rfl⟩
  · rcases hy with ⟨hu, b, rfl⟩ | ⟨hu, rfl⟩
    · exact .inl ⟨by simp [hv, hu], f a b, rfl⟩
    · exact .inr ⟨u, by simp, hu, rfl⟩
  · exact .inr ⟨v, by simp, hv, rfl⟩

/-- What checking comes to, given the values whose lengths are asked for: if none is asked for in
vain, the object is passed or complained about; otherwise checking goes wrong there. -/
def Judged {σ : Type} (h : Heap) (vs : List Value) (r : EStateM.Result Error σ Value) : Prop :=
  (∀ v ∈ vs, ¬ h.Unmeasured v) ∧
      ((∃ s, r = .ok (.bool true) s) ∨ ∃ broken s, r = .error (.violations broken) s) ∨
    ∃ v ∈ vs, h.Unmeasured v ∧ ∃ s, r = .error (.noLength (h.typeName v)) s

/-- Checking is looking for everything that is wrong. -/
theorem judged_of_found {σ : Type} {x : Except Error (List String)}
    {r : EStateM.Result Error σ Value} (hx : Found h vs x)
    (hpass : x = .ok [] → ∃ s, r = .ok (.bool true) s)
    (hcomplain : ∀ broken, x = .ok broken → broken ≠ [] → ∃ s, r = .error (.violations broken) s)
    (hwrong : ∀ e, x = .error e → ∃ s, r = .error e s) : Judged h vs r := by
  rcases hx with ⟨hvs, broken, hx⟩ | ⟨v, hv, hu, hx⟩
  · by_cases hb : broken = []
    · subst hb
      exact .inl ⟨hvs, .inl (hpass hx)⟩
    · exact .inl ⟨hvs, .inr ⟨broken, hcomplain broken hx hb⟩⟩
  · exact .inr ⟨v, hv, hu, hwrong _ hx⟩

end PageMeta
