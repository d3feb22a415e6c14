import PageMeta.Proofs.AttributeMap.Writes
import PageMeta.Proofs.Object.Sending
import PageMeta.Script.Run

/-!
# Ways of reading a map

A map is read by name, by index, and through `get`, and it can be asked whether it has a key or an
attribute.  All of them look for the text of a key, so they agree on what the map was written with.
Only a text that was never written tells them apart: the name is an error, the index is nothing, and
`get` gives its default.

## Key results

- `lookup_key`: a name that is no function leads to what a map has under it
- `stored_of_get?`, `absent_of_get?`: all ways of reading what a map has, or has not
- `read_written`: all ways of reading a map, after whatever it was written with
-/

namespace PageMeta.AttributeMap

open Heap

variable {κ : Type} {h : Heap} {v : Value} {m : Ref} {name : Name} {k : Value} {w : World κ}
  {call : Caller κ} {routine : Nat → Value → Action κ Unit}

/-- The functions of maps under public names. -/
def publicFunctions : List String := ["get", "set", "merge", "to_dict", "keys", "items"]

/-- All ways of reading a map give a value: by name, by index and through `get`, with every key of one
text. -/
structure Stored (call : Caller κ) (routine : Nat → Value → Action κ Unit) (w : World κ) (m : Ref)
    (name : Name) (v : Value) : Prop where
  contains : Object.contains (.ref m) name.value w.heap = .ok true w.heap
  hasAttribute : Script.hasAttribute w.heap (.ref m) name.text = .ok true
  byName : Object.getAttribute (.ref m) name w.heap = .ok v w.heap
  byKey : ∀ k, w.heap.keyText (.atom k) = name.text → Object.getItem w.heap (.ref m) k = .ok v
  byGet : ∀ k default, w.heap.keyText (.atom k) = name.text →
    Object.send (Object.invoke call routine) (.ref m) "get" (.of [k, default]) w = .ok v w

/-- No way of reading a map finds anything: a name is an error, which can be caught as one of this
library and as a missing attribute. -/
structure Absent (call : Caller κ) (routine : Nat → Value → Action κ Unit) (w : World κ) (m : Ref)
    (name : Name) : Prop where
  contains : Object.contains (.ref m) name.value w.heap = .ok false w.heap
  hasAttribute : Script.hasAttribute w.heap (.ref m) name.text = .ok false
  byName : Object.getAttribute (.ref m) name w.heap = .error (.undefinedKey name.text) w.heap
  caught : (Error.undefinedKey name.text).kind = (ClassName.error .undefinedKey).name ∧
    ∀ cls ∈ ["DSLError", "AttributeError"],
      cls ∈ (ClassName.error .undefinedKey).searchOrder.map ClassName.name
  byKey : ∀ k, w.heap.keyText (.atom k) = name.text → Object.getItem w.heap (.ref m) k = .ok .none
  byGet : ∀ k default, w.heap.keyText (.atom k) = name.text → default.isMade = true →
    Object.send (Object.invoke call routine) (.ref m) "get" (.of [k, default]) w = .ok default w

/-! ### Names -/

/-- The class of maps has no functions under other public names. -/
theorem definer?_eq_none {name : String} (hpublic : isPrivate name = false)
    (hname : name ∉ publicFunctions) : ClassName.attributeMap.definer? name = none := by
  have hfacts : ∀ cls ∈ ClassName.attributeMap.searchOrder, ∀ name ∈ cls.ownFunctions,
      isPrivate name = true ∨ name ∈ publicFunctions := by decide +kernel
  refine List.find?_eq_none.mpr fun cls hcls hmem => ?_
  rcases hfacts cls hcls name (by simpa using hmem) with hp | hp
  · rw [hpublic] at hp
    cases hp
  · exact hname hp

/-- The class of maps has no functions about itself under public names. -/
theorem classFunction?_eq_none {name : String} (hpublic : isPrivate name = false) :
    Object.classFunction? .attributeMap name = none := by
  have hprivate : ∀ name ∈ Plain.classFunctions "object", isPrivate name = true := by decide +kernel
  rw [Object.classFunction?, Option.map_eq_none_iff, List.find?_eq_none]
  intro cls hcls
  have hmem : cls ∈ [ClassName.attributeMap, .data "object"] := hcls
  simp only [List.mem_cons, List.not_mem_nil, or_false] at hmem
  rcases hmem with rfl | rfl
  · simp
  · intro hname
    have hp := hprivate name (by simpa using hname)
    rw [hpublic] at hp
    cases hp

/-- A map over a dictionary. -/
theorem exists_dict (hs : h.Sound) (hm : h.isMap (.ref m) = true) :
    ∃ d es, h.read m = some (.map (.ref d)) ∧ h.dict? m = some (d, es) ∧ h.entriesAt m = es := by
  obtain ⟨data, hread⟩ := read_of_isMap hm
  obtain ⟨d, es, rfl, hd, -⟩ := hs.cells m _ hread
  exact ⟨d, es, hread, dict?_of_map hread hd, entriesAt_map hread hd⟩

theorem className_map {d : Value} (hread : h.read m = some (.map d)) :
    h.className (.ref m) = .attributeMap := by
  simp [className, hread, Cell.className]

/-- A public name that is no function leads to what a map has under it. -/
theorem lookup_key {name : String} (hs : h.Sound) (hm : h.isMap (.ref m) = true)
    (hpublic : isPrivate name = false) (hname : name ∉ publicFunctions) :
    Object.lookup h (.ref m) name = Object.firstOf (.undefinedKey name)
      [((h.entriesAt m).get? (Key.ofText name)).map .stored] := by
  obtain ⟨d, es, hread, hdict, hes⟩ := exists_dict hs hm
  -- whatever a map answers to beside its keys and its functions has a private name
  have hprivate : ∀ text, isPrivate text = true → name ≠ text := fun text ht heq => by
    rw [heq, ht] at hpublic
    cases hpublic
  have hclass := hprivate "__class__" (by decide +kernel)
  have hhash := hprivate "__hash__" (by decide +kernel)
  have hdata := hprivate "_data" (by decide +kernel)
  have hdoc := hprivate "__doc__" (by decide +kernel)
  have hmodule := hprivate "__module__" (by decide +kernel)
  have hslots := hprivate "__slots__" (by decide +kernel)
  have hweak := hprivate "__weakref__" (by decide +kernel)
  have hbehalf : ∀ answer, Object.onBehalf .attributeMap name answer = answer := by
    rintro (e | found)
    · simp only [Object.onBehalf]
    · rfl
  simp only [Object.lookup, className_map hread, classFunction?_eq_none hpublic,
    definer?_eq_none hpublic hname, hclass, hhash, false_and, if_false, hbehalf,
    Object.cellAttribute, hread, Object.mapAttribute, hdata, hpublic, hdict, hes]
  rfl

/-! ### Keys -/

/-- Every key of one text is looked up as the text is. -/
theorem get?_nameKey {name : String} (es : Entries Key Value)
    (hk : h.keyText (.atom k) = name) :
    es.get? (h.nameKey k) = es.get? (Key.ofText name) :=
  Entries.get?_congr_text (text?_keyName (.atom k)) (hk ▸ rfl) es

theorem getItem_key {name : String} (hs : h.Sound) (hm : h.isMap (.ref m) = true)
    (hk : h.keyText (.atom k) = name) :
    Object.getItem h (.ref m) k = .ok (((h.entriesAt m).get? (Key.ofText name)).getD .none) := by
  obtain ⟨d, es, hread, hdict, hes⟩ := exists_dict hs hm
  simp only [Object.getItem, hread, Object.mapItem, hdict, getD, get?_nameKey _ hk]

theorem contains_key {name : Name} (hs : h.Sound) (hm : h.isMap (.ref m) = true) :
    Object.contains (.ref m) name.value h =
      .ok ((h.entriesAt m).has (Key.ofText name.text)) h := by
  obtain ⟨d, es, hread, hdict, hes⟩ := exists_dict hs hm
  have hk : h.keyText (.atom name.value) = name.text := rfl
  have hdata : h.dataOf? (.ref m) = some (.ref d) := by simp [dataOf?, cell?, hread]
  simp only [Object.contains, bind, EStateM.bind, run_get, hdata, hdict, Option.isSome_some, if_true,
    contains, Entries.has, get?_nameKey _ hk]
  rfl

theorem lookup_get (hs : h.Sound) (hm : h.isMap (.ref m) = true) :
    Object.lookup h (.ref m) "get" = .ok (.method (.ref m) .attributeMap "get") := by
  obtain ⟨d, es, hread, -⟩ := exists_dict hs hm
  have hown : ClassName.attributeMap.definer? "get" = some .attributeMap := by decide +kernel
  have hplain : Object.classFunction? .attributeMap "get" = none :=
    classFunction?_eq_none (by decide +kernel)
  simp [Object.lookup, className_map hread, hplain, hown, Object.cellAttribute, hread,
    Object.onBehalf]

/-- `get` gives what a map has under a key, or the default. -/
theorem send_get {name : String} {default : Value} (hs : w.heap.Sound)
    (hm : w.heap.isMap (.ref m) = true) (hk : w.heap.keyText (.atom k) = name)
    (hmade : (((w.heap.entriesAt m).get? (Key.ofText name)).getD default).isMade = true) :
    Object.send (Object.invoke call routine) (.ref m) "get" (.of [k, default]) w =
      .ok (((w.heap.entriesAt m).get? (Key.ofText name)).getD default) w := by
  obtain ⟨d, es, hread, hdict, hes⟩ := exists_dict hs hm
  have hbind : (Object.bindArguments (Object.signature .attributeMap "get")
      ((PageMeta.Arguments.of [k, default]).after (.ref m)) : Action κ Bound) =
      pure ⟨[.ref m, k, default], [], [], []⟩ := rfl
  have hmapping : w.heap.mapping? (.ref m) = some m := by simp [mapping?, hdict]
  have hown : callOwn m "get" [k, default] w.heap = .ok (getD w.heap m k default) w.heap := rfl
  have hcall : Object.callFunction call .attributeMap "get"
      ((PageMeta.Arguments.of [k, default]).after (.ref m)) w = .ok (getD w.heap m k default) w := by
    simp only [Object.callFunction, Object.callOwnFunction, hbind, pure_bind, List.headD_cons,
      List.tail_cons, callFunction]
    refine (run_bind_ok run_get).trans ?_
    simp only [hm, hmapping, Option.isSome_some, Bool.and_self]
    exact run_onHeap_ok hown
  rw [Object.send_method (lookup_get hs hm), run_bind_ok hcall]
  rw [getD, get?_nameKey _ hk]
  exact Object.run_settle hmade

/-! ### All ways of reading -/

/-- What a map has under a text is read in all ways. -/
theorem stored_of_get? (hs : w.heap.Sound) (hm : w.heap.isMap (.ref m) = true)
    (hpublic : isPrivate name.text = false) (hname : name.text ∉ publicFunctions)
    (hv : (w.heap.entriesAt m).get? (Key.ofText name.text) = some v) :
    Stored call routine w m name v := by
  obtain ⟨key, hmem⟩ := Entries.exists_of_get? hv
  have hmade : v.isMade = true := (fine_entriesAt hs m _ hmem).1
  have hlookup : Object.lookup w.heap (.ref m) name.text = .ok (.stored v) := by
    rw [lookup_key hs hm hpublic hname, hv]
    rfl
  -- one goal for each way of reading: all of them come down to the entry under the name
  refine ⟨?_, ?_, ?_, fun k hk => ?_, fun k default hk => ?_⟩
  · rw [contains_key hs hm, Entries.has, hv]
    rfl
  · rw [Script.hasAttribute, hlookup]
  · have hask : ask (fun h => Object.lookup h (.ref m) name.text) w.heap =
        .ok (.stored v) w.heap := by rw [ask, hlookup]
    rw [Object.getAttribute, run_bind_ok hask]
    dsimp only
    rw [settle_of_isMade hmade]
    rfl
  · rw [getItem_key hs hm hk, hv]
    rfl
  · have hfound : ((w.heap.entriesAt m).get? (Key.ofText name.text)).getD default = v := by
      rw [hv]
      rfl
    rw [send_get hs hm hk (hfound ▸ hmade), hfound]

/-- What a map has nothing under is found in no way. -/
theorem absent_of_get? (hs : w.heap.Sound) (hm : w.heap.isMap (.ref m) = true)
    (hpublic : isPrivate name.text = false) (hname : name.text ∉ publicFunctions)
    (hv : (w.heap.entriesAt m).get? (Key.ofText name.text) = none) :
    Absent call routine w m name := by
  have hlookup : Object.lookup w.heap (.ref m) name.text = .error (.undefinedKey name.text) := by
    rw [lookup_key hs hm hpublic hname, hv]
    rfl
  refine ⟨?_, ?_, ?_, ⟨rfl, by decide⟩, fun k hk => ?_, fun k default hk hmade => ?_⟩
  · rw [contains_key hs hm, Entries.has, hv]
    rfl
  · rw [Script.hasAttribute, hlookup]
    rfl
  · have hask : ask (fun h => Object.lookup h (.ref m) name.text) w.heap =
        .error (.undefinedKey name.text) w.heap := by rw [ask, hlookup]
    rw [Object.getAttribute, run_bind_error hask]
  · rw [getItem_key hs hm hk, hv]
    rfl
  · have hfound : ((w.heap.entriesAt m).get? (Key.ofText name.text)).getD default = default := by
      rw [hv]
      rfl
    rw [send_get hs hm hk (hfound.symm ▸ hmade), hfound]

/-- Every map that operations lead to has a history, and whatever it was written with, all ways of
reading it agree: on what is stored under a text that was written, which is nothing exactly if nothing
was written last, and on that there is nothing under a text that was not. -/
theorem read_written {start : Heap} (hn : Arguments 0 start) (hr : Reached start w.heap)
    (hm : w.heap.isMap (.ref m) = true) (call : Caller κ) (routine : Nat → Value → Action κ Unit) :
    (∃ ws, History start m w.heap ws) ∧
    ∀ ws, History start m w.heap ws → ∀ name : Name, isPrivate name.text = false →
      name.text ∉ publicFunctions →
        (name.text ∈ Entries.keys ws → ∃ v, Stored call routine w m name v ∧
          (v = .none ↔ Entries.get? name.text ws.reverse = some .none)) ∧
        (name.text ∉ Entries.keys ws → Absent call routine w m name) := by
  refine ⟨exists_history hn hr hm, fun ws hw name hpublic hname => ?_⟩
  have hs := hr.sound (sound_of_arguments hn)
  have hkey : (Key.ofText name.text).text? = some name.text := rfl
  -- the entries are those that were written, so a text has the last value written under it
  have hmatch := (hw.tracks hn).2.get? hkey
  rw [Entries.get?_ofList] at hmatch
  rcases hmatch with ⟨hnone, hv⟩ | ⟨u, v, hu, hv, huv⟩
  · have hunwritten := Entries.get?_reverse_eq_none.mp hnone
    exact ⟨fun hwritten => absurd hwritten hunwritten,
      fun _ => absent_of_get? hs hm hpublic hname hv⟩
  · refine ⟨fun _ => ⟨v, stored_of_get? hs hm hpublic hname hv, ?_⟩, fun hunwritten => ?_⟩
    · rw [hu, huv, Option.some.injEq]
    · rw [Entries.get?_reverse_eq_none.mpr hunwritten] at hu
      cases hu

/-- Nothing is stored under a number. -/
def sampleCall : MapCall := .set ⟨4⟩ (.ofInt 7) .none

/-- The world after nothing was stored in the map of a dictionary. -/
def sampleWorld : World Unit where
  heap := sampleCall.after repeatingCreated
  current := none
  log := []
  constants := []
  client := ()

/-- What the map was written with, by the texts of the keys. -/
def sampleWrites : List (String × Value) :=
  [("1", .ref ⟨0⟩), ("1", .ofInt 2), ("x", .ref ⟨0⟩), ("7", .none)]

theorem read_written_sample :
    History repeating ⟨4⟩ sampleWorld.heap sampleWrites ∧
      (∃ v, Stored (fun _ _ => throw .tooDeep) (fun _ _ => pure ()) sampleWorld ⟨4⟩ "7" v ∧
        v = .none) ∧
      Absent (fun _ _ => throw .tooDeep) (fun _ _ => pure ()) sampleWorld ⟨4⟩ "y" := by
  have hcreate : (create (.ref ⟨1⟩) repeating) = .ok (.ref ⟨4⟩) repeatingCreated := rfl
  have hfine : repeating.Fine (.ref ⟨1⟩) := ⟨rfl, fun r heq => by cases heq; decide⟩
  have hgiven : sampleCall.Given repeatingCreated :=
    ⟨by decide +kernel, rfl, fun r heq => by cases heq⟩
  have hw : History repeating ⟨4⟩ sampleWorld.heap sampleWrites :=
    .call sampleCall (.created .start hfine hcreate) hgiven
  obtain ⟨-, hreads⟩ := read_written (m := ⟨4⟩) arguments_repeating hw.reached
    (by decide +kernel) (fun _ _ => throw .tooDeep) fun _ _ => pure ()
  obtain ⟨hstored, -⟩ := hreads _ hw "7" (by decide +kernel) (by decide)
  obtain ⟨-, habsent⟩ := hreads _ hw "y" (by decide +kernel) (by decide)
  obtain ⟨v, hv, hnone⟩ := hstored (by decide)
  exact ⟨hw, ⟨v, hv, hnone.mpr rfl⟩, habsent (by decide)⟩

/-- A number is stored under the state of a feature. -/
def stateCall : MapCall := .set ⟨1⟩ (.feature .enabled) (.ofInt 1)

/-- The heap after the number was stored in a new map. -/
def stateHeap : Heap := stateCall.after ((MapCall.create .none).after .empty)

/-- The state of a feature is stored under the text that it is, so there is nothing under the text that
it is displayed as. -/
theorem state_not_displayed :
    History .empty ⟨1⟩ stateHeap [("enabled", .ofInt 1)] ∧
      stateHeap.display (.feature .enabled) = "FeatureState.ENABLED" ∧
      Object.contains (.ref ⟨1⟩) (.ofText "FeatureState.ENABLED") stateHeap =
        .ok false stateHeap := by
  have hcreate : create .none .empty = .ok (.ref ⟨1⟩) ((MapCall.create .none).after .empty) := rfl
  have hgiven : stateCall.Given ((MapCall.create .none).after .empty) :=
    ⟨by decide +kernel, rfl, fun r heq => by cases heq⟩
  have hw : History .empty ⟨1⟩ stateHeap [("enabled", .ofInt 1)] :=
    .call stateCall (.created .start ⟨rfl, fun r heq => by cases heq⟩ hcreate) hgiven
  exact ⟨hw, by decide +kernel, rfl⟩

end PageMeta.AttributeMap
