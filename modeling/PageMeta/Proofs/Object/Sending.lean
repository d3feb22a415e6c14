import PageMeta.Object.Invoke
import PageMeta.Proofs.Heap.Building
import PageMeta.Proofs.Outcome
import PageMeta.Proofs.Value.Entries

/-!
# What a call hands over, and what sending comes to

A function of a class takes the object it is about as its first argument.  That object is the value
of the first parameter, and every other parameter has a value that was given or that it has by
default: an argument by name cannot take the place of the object.

Sending a value a name that leads to a function is calling the function with the value in front, and
calling the field of a builder is calling the function that fields have for it.  Either way the result
is made if it was about to be made.

## Key results

- `Signature.bind_cases`: what a call hands over that has the arguments it needs
- `Signature.bind_after`: the values of the parameters in a call on an object
- `Signature.bind_options`: the names of the further arguments
- `Object.send_method`: sending a name that leads to a function
- `Object.invoke_field`: calling a field
-/

namespace PageMeta

variable {Q : Value → Prop} {v : Value}

/-- Whether all arguments of a call are values of some kind. -/
def Arguments.All (Q : Value → Prop) (args : Arguments) : Prop :=
  (∀ u ∈ args.positional, Q u) ∧ ∀ p ∈ args.named, Q p.2

/-- Whether all parameters that may be left out have values of some kind by default. -/
def Signature.Defaults (s : Signature) (Q : Value → Prop) : Prop :=
  ∀ p ∈ s.parameters, ∀ u, p.default? = some u → Q u

/-- Whether what a call hands over, the object it is about apart, are values of some kind. -/
structure Bound.On (v : Value) (Q : Value → Prop) (bound : Bound) : Prop where
  values : ∃ values, bound.values = v :: values ∧ ∀ u ∈ values, Q u
  rest : ∀ u ∈ bound.rest, Q u
  options : ∀ p ∈ bound.options, Q p.2

namespace Signature

/-- Placing arguments by name leaves the object that the call is about alone. -/
theorem placeNamed_head {s : Signature} {self : String} :
    ∀ {named : List (Name × Value)} {filled : Entries String Value} {options : Entries Key Value}
      {filled' : Entries String Value} {options' : Entries Key Value},
      (∀ p ∈ named, Q p.2) → (∀ p ∈ filled, Q p.2) → (∀ p ∈ options, Q p.2) →
      s.placeNamed ((self, v) :: filled) options named = .ok (filled', options') →
      ∃ rest, filled' = (self, v) :: rest ∧ (∀ p ∈ rest, Q p.2) ∧ ∀ p ∈ options', Q p.2
  | [], filled, options, _, _, _, hf, ho, hrun => by
    cases hrun
    exact ⟨filled, rfl, hf, ho⟩
  | (name, u) :: named, filled, options, filled', options', hn, hf, ho, hrun => by
    obtain ⟨hu, hn⟩ := List.forall_mem_cons.mp hn
    rw [placeNamed] at hrun
    split at hrun
    · split at hrun
      · cases hrun
      · -- the name is not taken, so it is not that of the object
        rename_i htaken
        have hself : (self == name.text) = false := by
          cases hb : self == name.text with
          | false => rfl
          | true => exact absurd (by simp [Entries.has, Entries.get?, hb]) htaken
        rw [Entries.put, hself, if_neg Bool.false_ne_true] at hrun
        refine placeNamed_head hn (fun p hp => ?_) ho hrun
        rcases Entries.mem_put hp with ⟨heq, -⟩ | hp
        · exact heq ▸ hu
        · exact hf p hp
    · split at hrun
      · refine placeNamed_head hn hf (fun p hp => ?_) hrun
        rcases Entries.mem_put hp with ⟨heq, -⟩ | hp
        · exact heq ▸ hu
        · exact ho p hp
      · cases hrun

/-- The value of a parameter that goes by another name than the object that the call is about. -/
theorem valueOf_cons {self : String} {filled : Entries String Value} {p : Parameter}
    (hself : (self == p.name) = false) (hf : ∀ q ∈ filled, Q q.2) (hnone : Q .none)
    (hp : ∀ u, p.default? = some u → Q u) : Q (valueOf ((self, v) :: filled) p) := by
  rw [valueOf, Entries.get?, hself, if_neg Bool.false_ne_true]
  cases hget : filled.get? p.name with
  | some u =>
    obtain ⟨k, hmem⟩ := Entries.exists_of_get? hget
    exact hf _ hmem
  | none =>
    cases hd : p.default? with
    | some u => exact hp u hd
    | none => exact hnone

/-- A call that hands its arguments over has placed those that go by name, and gives every parameter
a value. -/
theorem bind_cases {s : Signature} {args : Arguments} {bound : Bound}
    (hbind : s.bind args = .ok bound) : ∃ filled options,
      s.placeNamed ((s.parameters.map (·.name)).zip args.positional) [] args.named =
        .ok (filled, options) ∧
      bound = ⟨s.parameters.map (valueOf filled), args.positional.drop s.parameters.length,
        s.named.map (valueOf filled), options⟩ := by
  simp only [bind, Bind.bind, Except.bind] at hbind
  split at hbind
  · cases hbind
  · rename_i placed hplace
    split at hbind
    · cases hbind
    · split at hbind
      · cases hbind
        exact ⟨placed.1, placed.2, hplace, rfl⟩
      · cases hbind

/-- A call hands over one value per parameter. -/
theorem bind_lengths {s : Signature} {args : Arguments} {bound : Bound}
    (hbind : s.bind args = .ok bound) :
    bound.values.length = s.parameters.length ∧ bound.named.length = s.named.length := by
  obtain ⟨filled, options, -, rfl⟩ := bind_cases hbind
  exact ⟨List.length_map _, List.length_map _⟩

/-- Placing arguments by name adds options under names that were given. -/
theorem placeNamed_options {s : Signature} :
    ∀ {named : List (Name × Value)} {filled filled' : Entries String Value}
      {options options' : Entries Key Value},
      s.placeNamed filled options named = .ok (filled', options') →
      ∀ p ∈ options', (∃ q ∈ options, p.1 = q.1) ∨ ∃ q ∈ named, p.1 = .atom q.1.value
  | [], _, _, _, _, hrun, p, hp => by
    cases hrun
    exact .inl ⟨p, hp, rfl⟩
  | (name, u) :: named, _, options, _, _, hrun, p, hp => by
    rw [placeNamed] at hrun
    split at hrun
    · split at hrun
      · cases hrun
      · refine (placeNamed_options hrun p hp).imp_right ?_
        rintro ⟨q, hq, heq⟩
        exact ⟨q, List.mem_cons_of_mem _ hq, heq⟩
    · split at hrun
      · rcases placeNamed_options hrun p hp with ⟨q, hq, heq⟩ | ⟨q, hq, heq⟩
        · rcases Entries.mem_put hq with ⟨-, hkey | ⟨q', hq', hkey⟩⟩ | hq
          · exact .inr ⟨_, List.mem_cons_self, heq.trans hkey⟩
          · exact .inl ⟨q', hq', heq.trans hkey.symm⟩
          · exact .inl ⟨q, hq, heq⟩
        · exact .inr ⟨q, List.mem_cons_of_mem _ hq, heq⟩
      · cases hrun

/-- The options of a call go by names that were given. -/
theorem bind_options {s : Signature} {args : Arguments} {bound : Bound}
    (hbind : s.bind args = .ok bound) : ∀ p ∈ bound.options, ∃ q ∈ args.named, p.1 = .atom q.1.value := by
  intro p hp
  obtain ⟨filled, options, hplace, rfl⟩ := bind_cases hbind
  rcases placeNamed_options hplace p hp with ⟨q, hq, -⟩ | hnamed
  · exact absurd hq List.not_mem_nil
  · exact hnamed

/-- What a call on an object hands over: the object, and values that were given or are there by
default. -/
theorem bind_after {s : Signature} {self : Parameter} {others : List Parameter} {args : Arguments}
    {bound : Bound} (hparams : s.parameters = self :: others)
    (hself : ∀ p ∈ others, (self.name == p.name) = false) (hd : s.Defaults Q) (hnone : Q .none)
    (ha : args.All Q) (hbind : s.bind (args.after v) = .ok bound) : bound.On v Q := by
  obtain ⟨hpositional, hnamed⟩ := ha
  have hzip : ∀ p ∈ (others.map (·.name)).zip args.positional, Q p.2 := fun p hp =>
    hpositional _ (List.of_mem_zip hp).2
  obtain ⟨placed, options, hplace, rfl⟩ := bind_cases hbind
  simp only [hparams, Arguments.after, List.map_cons, List.zip_cons_cons] at hplace
  obtain ⟨filled, rfl, hf, ho⟩ :=
    placeNamed_head hnamed hzip (fun _ hp => absurd hp List.not_mem_nil) hplace
  refine ⟨⟨others.map (valueOf ((self.name, v) :: filled)), ?_, fun u hu => ?_⟩, fun u hu => ?_, ho⟩
  · -- the parameter for the object has the object for its value
    simp [hparams, valueOf, Entries.get?]
  · obtain ⟨p, hp, rfl⟩ := List.mem_map.mp hu
    refine valueOf_cons (hself p hp) hf hnone (hd p ?_)
    rw [hparams]
    exact List.mem_cons_of_mem _ hp
  · rw [hparams] at hu
    exact hpositional u (List.mem_of_mem_drop hu)

end Signature

end PageMeta

namespace PageMeta.Object

variable {κ : Type} {w : World κ} {call : Caller κ} {routine : Nat → Value → Action κ Unit} {v : Value}

/-- A question that has an answer. -/
theorem run_ask {α : Type} {question : Heap → Except Error α} {a : α}
    (hq : question w.heap = .ok a) : Action.ask question w = .ok a w := by
  simp only [Action.ask, Action.onHeap, Heap.ask, hq]

/-- A result that is made is handed over as it is. -/
theorem run_settle (hv : v.isMade = true) : Action.onHeap (Heap.settle v) w = .ok v w := by
  rw [Heap.settle_of_isMade hv]
  rfl

/-- Sending what leads to a function of the receiver's class is calling the function. -/
theorem send_method {name : Name} {owner : ClassName} {function : String} {args : Arguments}
    (hlookup : lookup w.heap v name.text = .ok (.method v owner function)) :
    send (invoke call routine) v name args w = (do
      let result ← callFunction call owner function (args.after v)
      Action.onHeap (Heap.settle result)) w := by
  rw [send, run_bind_ok (run_ask hlookup)]
  rfl

/-- Calling a field is calling the function that fields have for it. -/
theorem invoke_field {f : Ref} {owner own : Value} {args : Arguments}
    (hread : w.heap.read f = some (.field owner own)) :
    invoke call routine (.ref f) args w = (do
      let result ← callFunction call .dynamicField "__call__" (args.after (.ref f))
      Action.onHeap (Heap.settle result)) w := by
  have hcell : w.heap.cell? (.ref f) = some (.field owner own) := hread
  have happly : apply call routine (.ref f) args w =
      callFunction call .dynamicField "__call__" (args.after (.ref f)) w := by
    rw [apply, run_bind_ok run_get]
    simp only [hcell]
  simp only [invoke, bind, EStateM.bind, happly]

end PageMeta.Object
