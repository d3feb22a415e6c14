import PageMeta.Proofs.Heap.Equality
import PageMeta.Proofs.Heap.Measures
import PageMeta.Proofs.Settings.Checking
import PageMeta.Proofs.Settings.Contents

/-!
# Rules on contents

What is wrong with a store that holds plain data, and which of its features are on, can be told from
its contents.  So two stores with the same contents are both in order or both not.

## Key results

- `faults_eq`: what is wrong with a store, by its contents
- `featureState_eq`: the states of features, by the contents of a store
-/

namespace PageMeta

namespace Settings

open Heap

/-! ### Contents in order -/

namespace Contents

variable (x : Contents)

/-- The value that a section has under a key. -/
def setting (name : SectionName) (key : String) : Tree String := (x.part name).under key

/-- What is wrong with the locales. -/
def localeFaults : List String :=
  match x.scalar "available_locales" with
  | .list ts =>
    when ts.isEmpty "available_locales must be a non-empty list" ++
      when (!ts.any (·.alike (x.scalar "default_locale")))
        "default_locale must be included in available_locales"
  | _ => ["available_locales must be a non-empty list"]

/-- What is wrong with the site map. -/
def hostFaults : List String :=
  when ((x.setting .sitemap "enabled").truth && (x.setting .sitemap "host").isAbsent)
    "sitemap.host is required when sitemap is enabled"

/-- What is wrong with the length of a default of the meta tags. -/
def lengthFaults (key : String) (limit : Nat) : Except Error (List String) := do
  let long ← (x.setting .metaTags key).exceeds limit
  return when long
    ("meta_tags." ++ key ++ " should be max " ++ Decimal.digitsOf limit ++ " characters")

/-- What is wrong. -/
def faults : Except Error (List String) := do
  let title ← x.lengthFaults "default_title" maxTitle
  let description ← x.lengthFaults "default_description" maxDescription
  return x.localeFaults ++ x.hostFaults ++ title ++ description

/-- The state of the feature that a value names. -/
def featureState (name : Value) : FeatureState :=
  match Registry.namedFeature? name with
  | none => .unknown
  | some feature =>
    match x.setting feature "enabled" with
    | .leaf (.bool true) => .enabled
    | _ => .disabled

end Contents

variable {h : Heap} {c : Cells} {scalar : String → Value} {x : Contents} {κ : Type} {w : World κ}

/-- The value that a section has under a key shows what the contents have there. -/
theorem Stands.setting_reads (hx : Stands h c x) (name : SectionName) (key : String) :
    h.Reads .stored (fun _ => True) (x.setting name key) (settingAt h c name key) := by
  obtain ⟨us, hus⟩ := hx.part_eq_map name
  have hread := (hx.parts name).reads
  rw [hus] at hread
  rw [Contents.setting, hus]
  exact hread.getD (by decide) key

theorem Stands.setting_isPlain (hx : Stands h c x) (name : SectionName) (key : String) :
    (x.setting name key).isPlain = true := Tree.isPlain_under (hx.parts name).plain key

/-- An item is equal to a value exactly if they show trees that are alike. -/
theorem sameItem_eq {t u : Tree String} {v w : Value} (ht : IsData h t v) (hu : IsData h u w) :
    h.sameItem v w = t.alike u :=
  ht.reads.sameTo_eq (by decide) (by decide) hu.reads ht.plain hu.plain
    (Nat.lt_succ_of_le ht.reads.height_le)

/-- Whether a list of plain data has an item that is equal to a value. -/
theorem any_sameItem {ts : List (Tree String)} {vs : List Value} {u : Tree String} {v : Value}
    (hu : IsData h u v) (hts : h.ReadsItems .plain h.Free ts vs)
    (hp : Tree.allLeavesList Value.isPlain ts = true) :
    vs.any (h.sameItem · v) = ts.any (·.alike u) := by
  induction ts generalizing vs with
  | nil => rw [ReadsItems] at hts; rw [hts]; rfl
  | cons t ts ih =>
    obtain ⟨w, vs, rfl, ht, hts⟩ := hts
    rw [Tree.allLeavesList, Bool.and_eq_true] at hp
    rw [List.any_cons, List.any_cons, sameItem_eq ⟨ht, hp.1⟩ hu, ih hts hp.2]

/-- What is wrong with the locales can be told from the contents. -/
theorem localeFaults_eq (hd : ∀ name ∈ scalarNames, IsData h (x.scalar name) (scalar name)) :
    localeFaults h scalar = x.localeFaults := by
  have hlocale := hd "default_locale" (by decide)
  obtain ⟨hlocales, hp⟩ := hd "available_locales" (by decide)
  -- both sides look at what the attribute is; the case is that of the tree that it shows
  unfold localeFaults Contents.localeFaults
  revert hlocales hp
  generalize x.scalar "available_locales" = t
  generalize scalar "available_locales" = v
  intro hlocales hp
  cases t with
  | leaf u =>
    obtain ⟨rfl, -⟩ := hlocales
    cases v <;> first | (cases hp; done) | rfl
  | list ts =>
    obtain ⟨items, hi, -, hts⟩ := hlocales
    obtain ⟨r, rfl, -⟩ := ref_of_items? hi
    have hempty : items.isEmpty = ts.isEmpty := by
      have hlen := (readsItems_iff.mp hts).length_eq
      cases ts <;> cases items <;> simp at hlen ⊢
    simp only [cell?, read_of_items? (by decide) hi, any_sameItem hlocale hts hp, hempty]
  | map ts =>
    obtain ⟨es, he, -⟩ := hlocales
    obtain ⟨r, rfl, ⟨hread, -⟩ | ⟨_, -, -, hview⟩⟩ := cell_of_entries? he
    · simp only [cell?, hread]
    · exact absurd rfl hview

/-- What is wrong with the site map can be told from the contents. -/
theorem hostFaults_eq (hx : Stands h c x) : hostFaults h c = x.hostFaults := by
  rw [hostFaults, Contents.hostFaults,
    (hx.setting_reads .sitemap "enabled").truth_eq (by decide) (hx.setting_isPlain _ _),
    (hx.setting_reads .sitemap "host").isNone_eq]

theorem lengthFaults_eq (hx : Stands h c x) (key : String) (limit : Nat) :
    lengthFaults h c key limit = x.lengthFaults key limit := by
  have hread := hx.setting_reads .metaTags key
  have hplain := hx.setting_isPlain .metaTags key
  rw [lengthFaults, Contents.lengthFaults, exceeds, Tree.exceeds, hread.truth_eq (by decide) hplain,
    hread.length_eq (by decide) hplain]

/-- What is wrong with a store can be told from its contents. -/
theorem faults_eq (hx : Stands h c x)
    (hd : ∀ name ∈ scalarNames, IsData h (x.scalar name) (scalar name)) :
    faults h c scalar = x.faults := by
  rw [faults, Contents.faults, localeFaults_eq hd, hostFaults_eq hx, lengthFaults_eq hx,
    lengthFaults_eq hx]

/-! ### Features -/

/-- A feature is on exactly if the contents have the truth value true for it. -/
theorem setting_eq_true (hx : Stands h c x) (name : SectionName) (key : String) :
    (settingAt h c name key == .bool true) = match x.setting name key with
      | .leaf (.bool true) => true
      | _ => false := by
  have hread := hx.setting_reads name key
  have hplain := hx.setting_isPlain name key
  revert hread hplain
  generalize x.setting name key = t
  generalize settingAt h c name key = v
  intro hread hplain
  -- only a truth value can be equal to one; a list or a map is a cell
  cases t with
  | leaf u =>
    obtain ⟨rfl, -⟩ := hread
    cases v with
    | bool b => cases b <;> rfl
    | _ => first | (cases hplain; done) | rfl
  | list ts =>
    obtain ⟨items, hi, -⟩ := hread
    obtain ⟨r, rfl, -⟩ := ref_of_items? hi
    rfl
  | map ts =>
    obtain ⟨es, he, -⟩ := hread
    obtain ⟨r, rfl, -⟩ := ref_of_entries? he
    rfl

/-- The states of features can be told from the contents. -/
theorem featureState_eq (call : Caller κ) (hx : Stands w.heap c x) (name : Value) :
    Registry.featureState call name (.ref c.store) w = .ok (x.featureState name) w := by
  obtain ⟨scalar, hc, -⟩ := hx.scalars
  unfold Registry.featureState Contents.featureState
  cases hname : Registry.namedFeature? name with
  | none => rfl
  | some feature =>
    -- a feature is asked for by a function of the class, which looks into the section of its name
    have hquery := queryFeature_ok call hc (List.mem_of_find?_eq_some hname)
    have hstate := setting_eq_true hx feature "enabled"
    simp only [bind, EStateM.bind, pure, EStateM.pure, hquery, hstate]
    split <;> rfl

end Settings

end PageMeta
