import Mathlib.Data.List.DropRight
import PageMeta.Proofs.Builder.History
import PageMeta.Proofs.Builder.Reporting

/-!
# Fields for platforms

A builder of Twitter Cards has three fields that are filed by platform.  A call of one writes a value for
one platform or for all of them, or just reads.  However the calls of the three fields are interleaved,
what is left in a field is what its own writes give when they are replayed: the last value for all
platforms, and over it the later ones, each for its platform.

## Key results

- `replay`: what a log of writes leaves
- `send_replays`: what one call does
- `appFields_replay`: what any calls leave, and that nothing changes what was read before
-/

namespace PageMeta.Builder

open Heap (Extends AgreeBut)

/-! ### What a log leaves -/

/-- A write to a field for platforms. -/
inductive AppWrite where
  /-- A value for all platforms. -/
  | everywhere (v : Value)
  /-- A value for one platform. -/
  | one (platform : String) (v : Value)

namespace AppWrite

def isOne : AppWrite → Bool
  | everywhere _ => false
  | one _ _ => true

/-- The value that is written for all platforms. -/
def everywhere? : AppWrite → Option Value
  | everywhere v => some v
  | one _ _ => none

/-- The platform and the value that are written for one platform. -/
def entry? : AppWrite → Option (String × Value)
  | everywhere _ => none
  | one platform v => some (platform, v)

end AppWrite

variable {log : List AppWrite} {named : Entries String Value}

/-- A value for all platforms. -/
def onAllPlatforms (v : Value) : Entries String Value := appPlatforms.map fun p => (p, v)

/-- What a log starts from: the last value for all platforms, if there is one. -/
def replayBase (log : List AppWrite) : Entries String Value :=
  ((log.filterMap AppWrite.everywhere?).getLast?.map onAllPlatforms).getD []

/-- What a log leaves: nothing if nothing was written, and else the last value for all platforms with
what was written later, each under its platform. -/
def replay (log : List AppWrite) : Option (Entries String Value) :=
  if log.isEmpty then none
  else some ((replayBase log).putAll ((log.rtakeWhile AppWrite.isOne).filterMap AppWrite.entry?))

/-- A value for all platforms replaces everything. -/
theorem replay_everywhere (log : List AppWrite) (v : Value) :
    replay (log ++ [.everywhere v]) = some (onAllPlatforms v) := by
  simp [replay, replayBase, AppWrite.everywhere?, AppWrite.isOne, Entries.putAll]

/-- A value for one platform is written over what was left before. -/
theorem replay_one (log : List AppWrite) (platform : String) (v : Value) :
    replay (log ++ [.one platform v]) = some (((replay log).getD []).put platform v) := by
  have hbase : replayBase (log ++ [.one platform v]) = replayBase log := by
    simp [replayBase, AppWrite.everywhere?]
  by_cases hlog : log = []
  · subst hlog
    rfl
  · have hlater := List.rtakeWhile_concat_pos AppWrite.isOne log (.one platform v) rfl
    simp [replay, hbase, hlog, hlater, AppWrite.entry?, Entries.putAll]

/-- No log starts from a platform twice. -/
theorem nodup_replayBase (log : List AppWrite) : (Entries.keys (replayBase log)).Nodup := by
  rw [replayBase]
  cases (log.filterMap AppWrite.everywhere?).getLast? with
  | none => exact List.nodup_nil
  | some v =>
    have hplatforms : appPlatforms.Nodup := by decide
    simpa [Entries.keys, onAllPlatforms, Function.comp_def] using hplatforms

/-- No platform is left twice. -/
theorem nodup_replay (log : List AppWrite) : (Entries.keys ((replay log).getD [])).Nodup := by
  rw [replay]
  split
  · exact List.nodup_nil
  · exact Entries.nodup_keys_putAll _ (nodup_replayBase log)

/-! ### Calls -/

/-- A field for platforms. -/
inductive AppField where
  | name
  | id
  | url
deriving DecidableEq, Repr

/-- The name of a field for platforms. -/
def AppField.text : AppField → String
  | .name => "app_name"
  | .id => "app_id"
  | .url => "app_url"

theorem AppField.rule (field : AppField) :
    BuilderKind.twitterCards.field? (Name.ofText field.text).text = some .app := by
  cases field <;> decide

theorem AppField.text_injective : Function.Injective AppField.text := by
  intro f g
  cases f <;> cases g <;> decide

/-- A call of a field for platforms of a builder, with the value and the platform that its arguments
give; one that is left out is none, and a platform is a text. -/
structure AppCall (b : Value) where
  field : AppField
  args : Arguments
  value : Value
  platform : Value
  binds : (Object.signature (.builder .twitterCards) field.text).bind (args.after b) =
    .ok ⟨[b, value, platform], [], [], []⟩
  named : platform = .none ∨ ∃ s, platform.text? = some s

namespace AppCall

variable {κ : Type} {b : Value}

/-- What a call writes: nothing if it has no value. -/
def write? (k : AppCall b) : Option AppWrite :=
  (present? k.value).map fun v =>
    match k.platform.text? with
    | some platform => .one platform v
    | none => .everywhere v

/-- Makes a call. -/
def send (call : Caller κ) (routine : Nat → Value → Action κ Unit) (k : AppCall b) : Action κ Value :=
  Object.send (Object.invoke call routine) b k.field.text k.args

/-- Makes calls one after the other. -/
def sendAll (call : Caller κ) (routine : Nat → Value → Action κ Unit) :
    List (AppCall b) → Action κ Unit
  | [] => pure ()
  | k :: rest => do
    discard (k.send call routine)
    sendAll call routine rest

/-- What calls write to a field, in order. -/
def writesTo (field : AppField) (calls : List (AppCall b)) : List AppWrite :=
  calls.filterMap fun k => if k.field = field then k.write? else none

/-- A call writes to its own field only. -/
theorem writesTo_concat (field : AppField) (calls : List (AppCall b)) (k : AppCall b) :
    writesTo field (calls ++ [k]) =
      writesTo field calls ++ (if k.field = field then k.write? else none).toList := by
  rw [writesTo, List.filterMap_append]
  cases hwrite : (if k.field = field then k.write? else none) <;> simp [hwrite, writesTo]

end AppCall

variable {κ : Type} {call : Caller κ} {routine : Nat → Value → Action κ Unit} {w : World κ}
  {h h' : Heap} {kind : BuilderKind} {c : Cells} {name : String} {left : Option (Entries String Value)}
  {ws : List (String × Value)} {v platform : Value}

/-! ### What a field is filed with -/

/-- Whether entries with texts as keys say what entries with names say, in the same order. -/
abbrev Says (named : Entries String Value) (entries : Entries Key Value) : Prop :=
  Entries.Match (fun _ v w => w = v) named entries

/-- Whether what a builder has filed under a text is what is left: nothing, or a dictionary that says
it, apart from the buffer of the builder. -/
def FiledAs (h : Heap) (c : Cells) (name : String) : Option (Entries String Value) → Prop
  | none => (filed h c).get? name = none
  | some named => ∃ r entries, (filed h c).get? name = some (.ref r) ∧ r ≠ c.buffer ∧
      h.read r = some (.dict entries) ∧ Says named entries

namespace FiledAs

/-- What is left is none or a cell. -/
theorem filedAt_cases (hf : FiledAs h c name left) :
    (left = none ∧ filedAt h c name = .none) ∨
      ∃ r entries named, left = some named ∧ filedAt h c name = .ref r ∧ r ≠ c.buffer ∧
        h.read r = some (.dict entries) ∧ Says named entries := by
  cases left with
  | none => exact .inl ⟨rfl, by rw [filedAt, show (filed h c).get? name = none from hf]; rfl⟩
  | some named =>
    obtain ⟨r, entries, hr, hne, hread, hmatch⟩ := hf
    exact .inr ⟨r, entries, named, rfl, by rw [filedAt, hr]; rfl, hne, hread, hmatch⟩

theorem isMade (hf : FiledAs h c name left) : (filedAt h c name).isMade = true := by
  rcases hf.filedAt_cases with ⟨-, heq⟩ | ⟨r, -, -, -, heq, -⟩ <;> rw [heq] <;> rfl

/-- What is filed under other texts makes no difference. -/
theorem filesOnly (hf : FiledAs h c name left) (hw : FilesOnly kind c ws h h')
    (hname : name ∉ Entries.keys ws) : FiledAs h' c name left := by
  have hfiled : (filed h' c).get? name = (filed h c).get? name := by
    rw [hw.filed_eq, Entries.get?_putAll, Entries.get?_reverse_eq_none.mpr hname, Option.none_or]
  cases left with
  | none => exact hfiled.trans hf
  | some named =>
    obtain ⟨r, entries, hr, hne, hread, hmatch⟩ := hf
    have hkept := hw.agree.read_eq r ⟨hne, Heap.lt_size_of_read hread⟩
    exact ⟨r, entries, hfiled.trans hr, hne, hkept.trans hread, hmatch⟩

/-- A new dictionary is filed. -/
theorem of_new {r : Ref} {entries : Entries Key Value} {named : Entries String Value}
    (hw : FilesOnly kind c [(name, .ref r)] h h') (hne : r ≠ c.buffer)
    (hread : h.read r = some (.dict entries)) (hmatch : Says named entries) :
    FiledAs h' c name (some named) := by
  have hkept := hw.agree.read_eq r ⟨hne, Heap.lt_size_of_read hread⟩
  refine ⟨r, entries, ?_, hne, hkept.trans hread, hmatch⟩
  rw [hw.filed_eq]
  exact Entries.get?_put_self _ _ _

end FiledAs

/-! ### What a call files -/

/-- What is filed under a text is turned into entries that say what was left, if anything was, whatever
is done with them then. -/
theorem takeFiled_run {α : Type} (call : Caller κ) (hf : FiledAs w.heap c name left)
    (hn : (Entries.keys (left.getD [])).Nodup) (next : Entries Key Value → Action κ α) :
    ∃ entries h', (if w.heap.truth (filedAt w.heap c name) = true then do
          let entries ← Object.updateEntries call (filedAt w.heap c name)
          next entries
        else do
          let entries ← pure []
          next entries) w = next entries { w with heap := h' } ∧
      Extends w.heap h' ∧ Says (left.getD []) (Entries.ofList entries) := by
  rcases hf.filedAt_cases with ⟨rfl, heq⟩ | ⟨r, entries, named, rfl, heq, -, hread, hmatch⟩
  · rw [heq]
    exact ⟨[], w.heap, rfl, Heap.Agree.refl _ _, .nil⟩
  · have hself : Entries.ofList entries = entries := (hmatch.apart_iff.mpr hn).ofList_eq_self
    rw [heq]
    split
    · obtain ⟨h', hrun, he⟩ := Heap.updateEntries_dict call hread
      exact ⟨_, h', run_bind_ok hrun, he, by rw [hself, hself]; exact hmatch⟩
    · -- a dictionary that counts as false is empty
      rename_i hfalse
      have hlength : w.heap.length (.ref r) = .ok entries.length := by
        simp only [Heap.length, hread, Option.bind_some, Heap.cellLength?]
      have hempty : entries = [] := by simpa [Heap.truth, hlength] using hfalse
      subst hempty
      exact ⟨[], w.heap, rfl, Heap.Agree.refl _ _, hmatch⟩

/-- Whether working out a value gives a new dictionary that says what entries with names say. -/
def MakesDict (x : Action κ (Option Value)) (w : World κ) (named : Entries String Value) : Prop :=
  ∃ r entries h', x w = .ok (some (.ref r)) { w with heap := h' } ∧ Extends w.heap h' ∧
    w.heap.size ≤ r.index ∧ h'.read r = some (.dict entries) ∧ Says named entries

/-- Making the dictionary is the last step. -/
theorem MakesDict.of_newDict {entries : Entries Key Value} {x : Action κ (Option Value)}
    (he : Extends w.heap h') (hmatch : Says named entries)
    (hx : x w = (do return some (← Action.onHeap (Heap.newDict entries))) { w with heap := h' }) :
    MakesDict x w named :=
  ⟨h'.next, entries, h'.push (.dict entries), hx, he.trans (Heap.extends_push _ _), he.size_le,
    Heap.read_alloc_new _ _, hmatch⟩

theorem platformValue_everywhere (call : Caller κ) (b name : Value) (hv : v ≠ .none) :
    MakesDict (platformValue call b name v .none) w (onAllPlatforms v) := by
  refine MakesDict.of_newDict (Heap.Agree.refl _ _) (Heap.match_textKeys _) ?_
  cases v with
  | none => exact absurd rfl hv
  | _ => rfl

theorem platformValue_one (call : Caller κ) (hb : Intact w.heap kind c) (hv : v ≠ .none)
    {s : String} (hs : platform.text? = some s) (hf : FiledAs w.heap c name left)
    (hn : (Entries.keys (left.getD [])).Nodup) :
    MakesDict (platformValue call (.ref c.builder) (.ofText name) v platform) w
      ((left.getD []).put s v) := by
  obtain ⟨entries, h', htake, he, hmatch⟩ := takeFiled_run call hf hn fun entries => do
    let key ← Action.ask fun h => h.toKey platform
    return some (← Action.onHeap (Heap.newDict ((Entries.ofList entries).put key v)))
  have hkeyed : (Key.atom platform).text? = some s := hs
  have hkey : Action.ask (fun h => h.toKey platform) { w with heap := h' } =
      .ok (.atom platform) { w with heap := h' } :=
    Object.run_ask (toKey_of_text? h' hkeyed)
  refine MakesDict.of_newDict he (hmatch.put hkeyed rfl) ?_
  unfold platformValue
  split
  · exact absurd rfl hv
  · cases hs
  · exact (run_bind_ok (readFrom_filed call hb rfl)).trans ((run_bind_ok run_get).trans
      (htake.trans (run_bind_ok hkey)))

/-! ### What calls leave -/

/-- Whether each of the fields for platforms of a builder is filed as the writes of calls leave it. -/
def Replayed (h : Heap) (c : Cells) (calls : List (AppCall (.ref c.builder))) : Prop :=
  ∀ field : AppField, FiledAs h c field.text (replay (AppCall.writesTo field calls))

/-- A later heap in which calls are replayed, and nothing but the buffer has changed. -/
structure Replays (c : Cells) (calls : List (AppCall (.ref c.builder))) (h h' : Heap) : Prop where
  intact : Intact h' .twitterCards c
  agree : AgreeBut c.buffer h h'
  replayed : Replayed h' c calls

namespace AppCall

variable {calls later : List (AppCall (.ref c.builder))} {k : AppCall (.ref c.builder)}
  {write : AppWrite}

/-- A call that writes works out what is left with its write. -/
theorem makesDict (call : Caller κ) (hb : Intact w.heap kind c) (hwrite : k.write? = some write)
    (hf : FiledAs w.heap c k.field.text (replay log)) :
    ∃ named, replay (log ++ [write]) = some named ∧
      MakesDict (platformValue call (.ref c.builder) (.ofText k.field.text) k.value k.platform) w
        named := by
  obtain ⟨v, hv, rfl⟩ := Option.map_eq_some_iff.mp hwrite
  obtain ⟨rfl, hvalue⟩ := present?_eq_some.mp hv
  rcases k.named with hnone | ⟨s, hs⟩
  · rw [hnone]
    exact ⟨_, replay_everywhere log _, platformValue_everywhere call _ _ hvalue⟩
  · rw [hs]
    exact ⟨_, replay_one log s _, platformValue_one call hb hvalue hs hf (nodup_replay log)⟩

/-- A call without a value reads, and changes nothing. -/
theorem send_reads (hb : Intact w.heap .twitterCards c) (hvalue : k.value = .none)
    (hf : FiledAs w.heap c k.field.text left) :
    k.send call routine w = .ok (filedAt w.heap c k.field.text) w := by
  have hnothing : fieldValue call (.ref c.builder) k.field.text .app
      ⟨[.ref c.builder, k.value, k.platform], [], [], []⟩ w = .ok none w := by
    rw [hvalue]
    rfl
  exact send_field_reads hb k.field.rule k.binds hnothing hf.isMade

/-- A call leaves the fields as its write leaves them. -/
theorem send_replays (call : Caller κ) (routine : Nat → Value → Action κ Unit)
    (hb : Intact w.heap .twitterCards c) (hr : Replayed w.heap c calls)
    (k : AppCall (.ref c.builder)) :
    ∃ u w', k.send call routine w = .ok u w' ∧ Replays c (calls ++ [k]) w.heap w'.heap := by
  cases hwrite : k.write? with
  | none =>
    have hvalue : k.value = .none := by
      by_contra hne
      rw [write?, present?_eq_some.mpr ⟨rfl, hne⟩] at hwrite
      cases hwrite
    refine ⟨_, w, send_reads hb hvalue (hr k.field), hb, Heap.Agree.refl _ _, fun field => ?_⟩
    rw [writesTo_concat, hwrite, ite_self, Option.toList_none, List.append_nil]
    exact hr field
  | some write =>
    obtain ⟨named, hreplay, r, entries, h₁, hrun, he, hnew, hread, hmatch⟩ :=
      makesDict call hb hwrite (hr k.field)
    have hb₁ : Intact ({ w with heap := h₁ } : World κ).heap .twitterCards c := hb.of_extends he
    obtain ⟨u, h', hsend, hw⟩ := send_field_files hb k.field.rule k.binds hb₁ hrun
    have hne : r ≠ c.buffer := fun heq => by
      obtain ⟨old, hbuffer⟩ := hb.buffer
      exact absurd (Heap.lt_size_of_read hbuffer) (Nat.not_lt.mpr (heq ▸ hnew))
    refine ⟨u, { w with heap := h' }, hsend, hw.intact, he.agreeBut.trans hw.agree,
      fun field => ?_⟩
    rw [writesTo_concat]
    by_cases hfield : k.field = field
    · subst hfield
      rw [if_pos rfl, hwrite, Option.toList_some, hreplay]
      exact .of_new hw hne hread hmatch
    · -- the other fields stay as they are
      rw [if_neg hfield, Option.toList_none, List.append_nil]
      refine ((hr field).filesOnly (.of_extends hb he) List.not_mem_nil).filesOnly hw fun hmem => ?_
      exact hfield (AppField.text_injective (List.mem_singleton.mp hmem).symm)

/-- So do calls that are made one after the other. -/
theorem sendAll_replays (call : Caller κ) (routine : Nat → Value → Action κ Unit)
    (later : List (AppCall (.ref c.builder))) (hb : Intact w.heap .twitterCards c)
    (hr : Replayed w.heap c calls) :
    ∃ w', sendAll call routine later w = .ok () w' ∧ Replays c (calls ++ later) w.heap w'.heap := by
  induction later generalizing w calls with
  | nil =>
    rw [List.append_nil]
    exact ⟨w, rfl, hb, Heap.Agree.refl _ _, hr⟩
  | cons k rest ih =>
    obtain ⟨u, w₁, hsend, h₁⟩ := send_replays call routine hb hr k
    obtain ⟨w', hrest, h'⟩ := ih h₁.intact h₁.replayed
    rw [List.append_assoc, List.singleton_append] at h'
    exact ⟨w', (run_bind_ok (run_discard_ok hsend)).trans hrest, h'.intact, h₁.agree.trans h'.agree,
      h'.replayed⟩

end AppCall

/-- Any calls of the fields for platforms of a builder that has none of them set leave in each field what
its own writes leave.  A call without a value then reads it and changes nothing, and whatever is called
later, a dictionary that was read stays as it was. -/
theorem appFields_replay (call : Caller κ) (routine : Nat → Value → Action κ Unit)
    (hb : Intact w.heap .twitterCards c)
    (hunset : ∀ field : AppField, (filed w.heap c).get? field.text = none)
    (calls later : List (AppCall (.ref c.builder))) :
    ∃ w₁ w₂, AppCall.sendAll call routine calls w = .ok () w₁ ∧
      AppCall.sendAll call routine later w₁ = .ok () w₂ ∧
      Replayed w₁.heap c calls ∧ Replayed w₂.heap c (calls ++ later) ∧
      (∀ k : AppCall (.ref c.builder), k.value = .none →
        k.send call routine w₁ = .ok (filedAt w₁.heap c k.field.text) w₁) ∧
      ∀ field : AppField, ∀ r, filedAt w₁.heap c field.text = .ref r →
        w₂.heap.read r = w₁.heap.read r := by
  have hnone : Replayed w.heap c [] := hunset
  obtain ⟨w₁, hrun₁, h₁⟩ := AppCall.sendAll_replays call routine calls hb hnone
  obtain ⟨w₂, hrun₂, h₂⟩ := AppCall.sendAll_replays call routine later h₁.intact h₁.replayed
  refine ⟨w₁, w₂, hrun₁, hrun₂, h₁.replayed, h₂.replayed,
    fun k hvalue => AppCall.send_reads h₁.intact hvalue (h₁.replayed k.field), fun field r hr => ?_⟩
  rcases (h₁.replayed field).filedAt_cases with ⟨-, hnone⟩ | ⟨s, entries, -, -, hs, hne, hread, -⟩
  · rw [hnone] at hr
    cases hr
  · obtain rfl := Value.ref.inj (hs.symm.trans hr)
    exact h₂.agree.read_eq s ⟨hne, Heap.lt_size_of_read hread⟩

/-- A call with a value and maybe a platform, in the order of the parameters. -/
def AppCall.given (b : Value) (field : AppField) (value : Value) (platform : Option String) :
    AppCall b where
  field
  args := .of [value, (platform.map Value.ofText).getD .none]
  value
  platform := (platform.map Value.ofText).getD .none
  binds := by cases field <;> rfl
  named := by
    cases platform with
    | none => exact .inl rfl
    | some s => exact .inr ⟨s, rfl⟩

theorem intact_builderWorld (kind : BuilderKind) (buffer : Entries String Value) (more : List Cell) :
    Intact (builderWorld kind buffer more).heap kind builderCells := by
  refine ⟨⟨placed_builderWorld kind buffer more, by decide⟩, fun name hname => ?_,
    fun entries hread => ?_⟩
  · rcases List.mem_pair.mp hname with rfl | rfl <;> rfl
  · cases hread
    exact Heap.textKeys_texts _

/-- The world with a builder of cards that has a title. -/
def cardWorld : World Unit := builderWorld .twitterCards [("title", .ofText "Shop")] []

/-- A name for tablets before and after one for all platforms, and a number on the web. -/
def cardCalls : List (AppCall (.ref ⟨2⟩)) :=
  [.given _ .name (.ofText "Old") (some "ipad"), .given _ .id (.ofInt 7) (some "web"),
    .given _ .name (.ofText "Shop") none, .given _ .name .none (some "kiosk"),
    .given _ .name (.ofText "Shop HD") (some "ipad")]

/-- A name for a further platform. -/
def kioskCall : AppCall (.ref ⟨2⟩) := .given _ .name (.ofText "Stand") (some "kiosk")

/-- What is replayed of them. -/
example : replay (AppCall.writesTo .name cardCalls) = some [("iphone", .ofText "Shop"),
      ("ipad", .ofText "Shop HD"), ("googleplay", .ofText "Shop")] ∧
    replay (AppCall.writesTo .id cardCalls) = some [("web", .ofInt 7)] ∧
    replay (AppCall.writesTo .url cardCalls) = none := ⟨rfl, rfl, rfl⟩

theorem appFields_replay_card : ∃ w₁ w₂,
    AppCall.sendAll unanswered noRoutine cardCalls cardWorld = .ok () w₁ ∧
    AppCall.sendAll unanswered noRoutine [kioskCall] w₁ = .ok () w₂ ∧
    Replayed w₁.heap builderCells cardCalls ∧
    Replayed w₂.heap builderCells (cardCalls ++ [kioskCall]) ∧
    (∀ k : AppCall (.ref ⟨2⟩), k.value = .none → k.send unanswered noRoutine w₁ =
      .ok (filedAt w₁.heap builderCells k.field.text) w₁) ∧
    ∀ field : AppField, ∀ r, filedAt w₁.heap builderCells field.text = .ref r →
      w₂.heap.read r = w₁.heap.read r := by
  have hb : Intact cardWorld.heap .twitterCards builderCells := intact_builderWorld _ _ _
  have hunset : ∀ field : AppField, (filed cardWorld.heap builderCells).get? field.text = none := by
    intro field
    cases field <;> rfl
  exact appFields_replay unanswered noRoutine hb hunset cardCalls [kioskCall]

end PageMeta.Builder
