import PageMeta.Proofs.Json.Reading
import PageMeta.Proofs.Settings.Configuring
import PageMeta.Proofs.Tree.Content

/-!
# Settings after loading, as one tree

What a store holds after data were loaded is the defaults merged with what it knows of the data: its
scalars, and its sections unless they are absent.  Whether that is in order, and which features are on,
is said here of the merged tree alone.

Which objects the scalars of some data are makes no difference when the data are loaded: not for what a
store holds then, up to its content, nor for what is wrong with it.

## Key results

- `content_loaded`: the content of data can be taken before or after they are loaded
- `faults_of_content`: what is wrong with a store can be told from the content of what it holds
- `tree_loaded`: the settings after loading are a merge with what is known of the data
- `faults_cases`: checking goes wrong exactly for true or a number where a length is asked for
- `inOrder_iff`: nothing is found wrong exactly if all rules are kept
-/

namespace PageMeta

namespace Tree

/-- Whether a tree is true, or a number that is not zero. -/
def isNonzero : Tree String → Bool
  | .leaf (.bool b) => b
  | .leaf (.int n _) => n != 0
  | .leaf (.real x _) => !x.isZero
  | _ => false

/-- Asking how long a tree is goes wrong exactly for true and for numbers, unless they are zero. -/
theorem exceeds_cases {t : Tree String} (ht : t.allLeaves Value.isRead = true) (limit : Nat) :
    (t.isNonzero = true ∧ ∃ type, t.exceeds limit = .error (.noLength type)) ∨
      (t.isNonzero = false ∧ ∃ long, t.exceeds limit = .ok long) := by
  have hlong : ∀ n, t.length = .ok n → ∃ long, t.exceeds limit = .ok long := fun n hn => by
    rw [exceeds, hn]
    split <;> exact ⟨_, rfl⟩
  -- only a number other than zero counts as true and has no length
  cases t with
  | list ts => exact .inr ⟨rfl, hlong _ rfl⟩
  | map ts => exact .inr ⟨rfl, hlong _ rfl⟩
  | leaf v =>
    cases v with
    | none => exact .inr ⟨rfl, false, rfl⟩
    | text s mark => exact .inr ⟨rfl, hlong _ rfl⟩
    | bool b =>
      cases b
      · exact .inr ⟨rfl, false, rfl⟩
      · exact .inl ⟨rfl, _, rfl⟩
    | int n mark =>
      cases hn : n != 0 with
      | true => exact .inl ⟨hn, "int", by simp [exceeds, truth, Heap.truth, hn]; rfl⟩
      | false => exact .inr ⟨hn, false, by simp [exceeds, truth, Heap.truth, hn]⟩
    | real x mark =>
      cases hx : !x.isZero with
      | true => exact .inl ⟨hx, "float", by simp [exceeds, truth, Heap.truth, hx]; rfl⟩
      | false => exact .inr ⟨hx, false, by simp [exceeds, truth, Heap.truth, hx]⟩
    | _ => cases ht

end Tree

namespace Settings

variable {ts us : Entries String (Tree String)} {x y : Contents} {name key : String} {t : Tree String}

/-! ### The content of settings -/

theorem content_offer (ts : Entries String (Tree String)) (part : SectionName) :
    offer (Tree.contents ts) part = (offer ts part).content := by
  rw [offer, offer, Tree.get?_mapLeavesEntries]
  cases Entries.get? part.name ts <;> rfl

theorem fit_of_content (heq : Tree.contents ts = Tree.contents us) : Fit ts ↔ Fit us := by
  have hfit : ∀ ts : Entries String (Tree String), Fit (Tree.contents ts) ↔ Fit ts := fun ts => by
    refine forall_congr' fun part => ?_
    rw [content_offer, Tree.isAbsent_content, Tree.content, Tree.isMap_mapLeaves]
  rw [← hfit ts, heq, hfit us]

namespace Contents

/-- The content of contents. -/
def content (x : Contents) : Contents where
  scalar name := (x.scalar name).content
  part name := (x.part name).content

/-- The content of data can be taken before or after they are loaded. -/
theorem content_loaded (x : Contents) (ts : Entries String (Tree String)) :
    (x.loaded ts).content = x.content.loaded (Tree.contents ts) := by
  refine congrArg₂ Contents.mk (funext fun name => ?_) (funext fun part => ?_)
  · simp only [loaded, withScalars, content, Tree.get?_mapLeavesEntries]
    split
    · cases Entries.get? name ts <;> rfl
    · rfl
  · have hmap : (offer ts part).content.isMap = (offer ts part).isMap := Tree.isMap_mapLeaves _ _
    simp only [loaded, content, content_offer, hmap]
    split
    · exact Tree.mapLeaves_deepMerge _ _ _
    · rfl

theorem loaded_of_content (x : Contents) (heq : Tree.contents ts = Tree.contents us) :
    (x.loaded ts).content = (x.loaded us).content := by
  rw [content_loaded, heq, content_loaded]

theorem tree_content (x : Contents) : x.content.tree = x.tree.content := by
  rw [tree, tree, Tree.content, Tree.mapLeaves, Tree.mapLeavesEntries_eq, entries, entries,
    List.map_append, List.map_map, List.map_map]
  rfl

theorem setting_content (x : Contents) (part : SectionName) (key : String) :
    x.content.setting part key = (x.setting part key).content :=
  (Tree.content_under (x.part part) key).symm

theorem localeFaults_content (x : Contents) : x.content.localeFaults = x.localeFaults := by
  have hany : ∀ (ts : List (Tree String)) (u : Tree String),
      (Tree.mapLeavesList Value.content ts).any (·.alike u.content) = ts.any (·.alike u) :=
    fun ts u => by
      induction ts with
      | nil => rfl
      | cons t ts ih =>
        rw [Tree.mapLeavesList, List.any_cons, List.any_cons, ih]
        exact congrArg (· || _) (Tree.alike_content t u)
  unfold localeFaults content
  dsimp only
  cases x.scalar "available_locales" with
  | leaf v => rfl
  | map ts => rfl
  | list ts =>
    have hempty : (Tree.mapLeavesList Value.content ts).isEmpty = ts.isEmpty := by cases ts <;> rfl
    show when (Tree.mapLeavesList Value.content ts).isEmpty _ ++
      when (!(Tree.mapLeavesList Value.content ts).any _) _ = _
    rw [hempty, hany]

/-- What is wrong with contents can be told from their content. -/
theorem faults_content (x : Contents) : x.content.faults = x.faults := by
  simp only [faults, localeFaults_content, hostFaults, lengthFaults, setting_content,
    Tree.truth_content, Tree.isAbsent_content, Tree.exceeds_content]

theorem faults_of_content (heq : x.content = y.content) : x.faults = y.faults := by
  rw [← faults_content, heq, faults_content]

end Contents

/-! ### What is known -/

/-- What a store knows of data: its scalars, and its sections unless they are absent. -/
def known (ts : Entries String (Tree String)) : Entries String (Tree String) :=
  ts.filter fun p => p.1 ∈ scalarNames || (SectionName.ofName? p.1).isSome && !p.2.isAbsent

theorem get?_filter {q : String × Tree String → Bool} (hts : (Entries.keys ts).Nodup) :
    Entries.get? name (ts.filter q) = (Entries.get? name ts).filter fun t => q (name, t) := by
  induction ts with
  | nil => rfl
  | cons p rest ih =>
    obtain ⟨k, t⟩ := p
    obtain ⟨hnew, hrest⟩ := List.nodup_cons.mp hts
    by_cases hk : k = name
    · subst hk
      have hnone : Entries.get? k rest = none := Entries.get?_eq_none_of_not_mem hnew
      cases hq : q (k, t) <;> simp [hq, Entries.get?, ih hrest, hnone, Option.filter]
    · cases hq : q (k, t) <;> simp [hq, Entries.get?, ih hrest, hk]

theorem get?_known_scalar (hts : (Entries.keys ts).Nodup) (hn : name ∈ scalarNames) :
    Entries.get? name (known ts) = Entries.get? name ts := by
  rw [known, get?_filter hts]
  cases Entries.get? name ts with
  | none => rfl
  | some t => simp [hn]

theorem get?_known_section (hts : (Entries.keys ts).Nodup) (part : SectionName) :
    Entries.get? part.name (known ts) =
      if (offer ts part).isAbsent then none else some (offer ts part) := by
  have hname : part.name ∉ scalarNames ∧ SectionName.ofName? part.name = some part := by
    cases part <;> decide
  rw [known, get?_filter hts, offer]
  cases Entries.get? part.name ts with
  | none => rfl
  | some t => cases ht : t.isAbsent <;> simp [hname, ht]

/-- All that is known is known by a name of the settings. -/
theorem filter_known (x : Contents) :
    (known ts).filter (fun p => !Entries.has p.1 x.entries) = [] := by
  refine List.filter_eq_nil_iff.mpr fun p hp => ?_
  have hp := (List.mem_filter.mp hp).2
  rw [Bool.or_eq_true, Bool.and_eq_true, decide_eq_true_eq] at hp
  rw [Bool.not_eq_true, Bool.not_eq_false', Entries.has]
  rcases hp with hn | ⟨hn, -⟩
  · rw [x.get?_scalar hn]
    rfl
  · -- a section has the name that it is found by
    obtain ⟨part, hpart⟩ := Option.isSome_iff_exists.mp hn
    rw [SectionName.ofName?] at hpart
    have hname := List.find?_some hpart
    rw [← eq_of_beq hname, x.get?_part part]
    rfl

/-- What loading leaves is a merge with what is known of the data, if their sections are maps and the
scalars of the store are none. -/
theorem tree_loaded (hx : ∀ name ∈ scalarNames, (x.scalar name).isMap = false)
    (hd : (Tree.map ts).Distinct) (hfit : Fit ts) :
    (x.loaded ts).tree = x.tree.deepMerge (.map (known ts)) := by
  have hmerge : ∀ old : List (String × Tree String), Tree.mergeOld old (known ts) =
      old.map fun p => (p.1, Tree.mergedValue (known ts) p.1 p.2) := fun old => by
    induction old with
    | nil => rfl
    | cons p rest ih => rw [Tree.mergeOld, ih, List.map_cons]; rfl
  rw [Contents.tree, Contents.tree, Tree.deepMerge_map, Tree.mergeEntries, filter_known,
    List.append_nil, hmerge, Contents.entries, Contents.entries, List.map_append, List.map_map,
    List.map_map]
  refine congrArg Tree.map (congrArg₂ _ (List.map_congr_left fun name hn => ?_)
    (List.map_congr_left fun part _ => ?_))
  · -- a scalar is replaced
    show (name, (x.loaded ts).scalar name) =
      (name, Tree.mergedValue (known ts) name (x.scalar name))
    simp only [Tree.mergedValue, get?_known_scalar hd.1 hn, Contents.loaded,
      Contents.withScalars, if_pos hn]
    cases Entries.get? name ts with
    | none => rfl
    | some u =>
      dsimp only
      rw [Option.getD_some, Tree.deepMerge_of_not_map (by rw [hx name hn]; rfl)]
  · -- a section is merged unless it is absent
    show (part.name, (x.loaded ts).part part) =
      (part.name, Tree.mergedValue (known ts) part.name (x.part part))
    simp only [Tree.mergedValue, get?_known_section hd.1, Contents.loaded]
    have hpart := hfit part
    generalize offer ts part = u at hpart ⊢
    cases u with
    | map us => rfl
    | list us => exact absurd hpart (by simp [Tree.isAbsent, Tree.isMap])
    | leaf v =>
      have habsent : (Tree.leaf v).isAbsent = true := hpart.resolve_right Bool.false_ne_true
      rw [habsent]
      rfl

/-! ### Lengths -/

/-- The settings whose lengths are asked for. -/
def measuredKeys : List String := ["default_title", "default_description"]

/-- Whether data have true or a number that is not zero where a length is asked for. -/
def Unmeasurable (ts : Entries String (Tree String)) : Prop :=
  ∃ key ∈ measuredKeys, ((offer ts .metaTags).under key).isNonzero = true

/-- These settings have no defaults, so they are what data have for them. -/
theorem setting_loaded (hn : key ∈ measuredKeys) :
    (defaultContents.loaded ts).setting .metaTags key = (offer ts .metaTags).under key := by
  have hdefault : ∃ old, defaultSection .metaTags = .map old ∧
      Entries.get? key old = some absent := by
    refine ⟨_, rfl, ?_⟩
    simp only [measuredKeys, List.mem_cons, List.not_mem_nil, or_false] at hn
    rcases hn with rfl | rfl <;> rfl
  obtain ⟨old, hold, hget⟩ := hdefault
  have hpart : (defaultContents.loaded ts).part .metaTags =
      if (offer ts .metaTags).isMap then (Tree.map old).deepMerge (offer ts .metaTags)
      else .map old := by rw [← hold]; rfl
  rw [Contents.setting, hpart]
  cases offer ts .metaTags with
  | leaf v => simp only [Tree.isMap, Bool.false_eq_true, if_false, Tree.under, hget]; rfl
  | list us => simp only [Tree.isMap, Bool.false_eq_true, if_false, Tree.under, hget]; rfl
  | map us =>
    rw [Tree.isMap, if_pos rfl, Tree.deepMerge_map, Tree.under, Tree.get?_mergeEntries_eq, hget, Tree.under]
    cases Entries.get? key us with
    | none => rfl
    | some u => rw [Tree.mergeOn_some, Tree.deepMerge_of_not_map rfl]

/-- What is wrong with settings whose lengths can be told, and with others. -/
theorem faults_cases (hts : Tree.allLeavesEntries Value.isRead ts = true) :
    (Unmeasurable ts ∧ ∃ type, (defaultContents.loaded ts).faults = .error (.noLength type)) ∨
      (¬ Unmeasurable ts ∧ ∃ broken, (defaultContents.loaded ts).faults = .ok broken) := by
  have hread : ∀ key, ((offer ts .metaTags).under key).allLeaves Value.isRead = true := fun key => by
    have hunder : ∀ {us : Entries String (Tree String)} (name : String),
        Tree.allLeavesEntries Value.isRead us = true →
          ((us.get? name).getD (.leaf .none)).allLeaves Value.isRead = true := fun name hus => by
      cases hget : Entries.get? name _ with
      | none => rfl
      | some u => exact Tree.allLeavesEntries_iff.mp hus _ (Entries.mem_of_get? hget)
    have hoffer : (offer ts .metaTags).allLeaves Value.isRead = true := hunder _ hts
    cases hmap : offer ts .metaTags with
    | map us => rw [hmap] at hoffer; exact hunder key hoffer
    | _ => rfl
  have hcases := fun key (hn : key ∈ measuredKeys) limit =>
    Tree.exceeds_cases ((@setting_loaded ts key hn).symm ▸ hread key) limit
  have htitle := hcases "default_title" (by decide) maxTitle
  have hdescription := hcases "default_description" (by decide) maxDescription
  have hiff : Unmeasurable ts ↔
      ((defaultContents.loaded ts).setting .metaTags "default_title").isNonzero = true ∨
      ((defaultContents.loaded ts).setting .metaTags "default_description").isNonzero = true := by
    rw [setting_loaded (by decide), setting_loaded (by decide), Unmeasurable]
    simp [measuredKeys]
  rw [hiff, Contents.faults, Contents.lengthFaults, Contents.lengthFaults]
  -- the title is asked for first
  rcases htitle with ⟨hyes, type, hrun⟩ | ⟨hno, long, hrun⟩
  · exact .inl ⟨.inl hyes, type, by rw [hrun]; rfl⟩
  · rcases hdescription with ⟨hyes, type, hrun'⟩ | ⟨hno', long', hrun'⟩
    · exact .inl ⟨.inr hyes, type, by rw [hrun, hrun']; rfl⟩
    · refine .inr ⟨by simp [hno, hno'], _, by rw [hrun, hrun']; rfl⟩

/-! ### One tree -/

/-- What a tree of settings has for the scalars and the sections. -/
def Contents.ofTree (t : Tree String) : Contents where
  scalar name := t.under name
  part part := t.under part.name

theorem Contents.scalar_ofTree (x : Contents) (hn : name ∈ scalarNames) :
    (ofTree x.tree).scalar name = x.scalar name := by
  show (Entries.get? name x.entries).getD _ = x.scalar name
  rw [x.get?_scalar hn, Option.getD_some]

theorem Contents.part_ofTree (x : Contents) (part : SectionName) :
    (ofTree x.tree).part part = x.part part := by
  show (Entries.get? part.name x.entries).getD _ = x.part part
  rw [x.get?_part part, Option.getD_some]

theorem Contents.faults_ofTree (x : Contents) : (ofTree x.tree).faults = x.faults := by
  have hlocales : (ofTree x.tree).scalar "available_locales" = x.scalar "available_locales" :=
    x.scalar_ofTree (by decide)
  have hlocale : (ofTree x.tree).scalar "default_locale" = x.scalar "default_locale" :=
    x.scalar_ofTree (by decide)
  simp only [faults, localeFaults, hostFaults, lengthFaults, setting, part_ofTree, hlocales, hlocale]

/-- Whether settings keep the five rules: there is a list of locales with something in it, the default
locale among them, a site map that is on has a host, and the defaults of the meta tags are short. -/
structure InOrder (t : Tree String) : Prop where
  locales : ∃ ts, t.under "available_locales" = .list ts ∧ ts ≠ [] ∧
    ∃ u ∈ ts, u.alike (t.under "default_locale") = true
  host : ((t.under "sitemap").under "enabled").truth = true →
    ((t.under "sitemap").under "host").isAbsent = false
  title : ((t.under "meta_tags").under "default_title").exceeds maxTitle = .ok false
  description : ((t.under "meta_tags").under "default_description").exceeds maxDescription = .ok false

theorem localeFaults_eq_nil : (Contents.ofTree t).localeFaults = [] ↔
    ∃ ts, t.under "available_locales" = .list ts ∧ ts ≠ [] ∧
      ∃ u ∈ ts, u.alike (t.under "default_locale") = true := by
  unfold Contents.localeFaults Contents.ofTree
  dsimp only
  cases t.under "available_locales" with
  | leaf v => simp
  | map ts => simp
  | list ts => simp [List.append_eq_nil_iff, when_eq_nil]

theorem hostFaults_eq_nil : (Contents.ofTree t).hostFaults = [] ↔
    (((t.under "sitemap").under "enabled").truth = true →
      ((t.under "sitemap").under "host").isAbsent = false) := by
  rw [Contents.hostFaults, when_eq_nil, Bool.and_eq_false_imp]
  rfl

theorem lengthFaults_eq_nil (key : String) (limit : Nat) :
    (Contents.ofTree t).lengthFaults key limit = .ok [] ↔
      ((t.under "meta_tags").under key).exceeds limit = .ok false := by
  have hsetting : (Contents.ofTree t).setting .metaTags key = (t.under "meta_tags").under key := rfl
  rw [Contents.lengthFaults, hsetting]
  cases ((t.under "meta_tags").under key).exceeds limit with
  | error e => simp [bind, Except.bind]
  | ok long => cases long <;> simp [bind, Except.bind, pure, Except.pure, when]

/-- Nothing is found wrong with settings exactly if they keep all rules. -/
theorem inOrder_iff : (Contents.ofTree t).faults = .ok [] ↔ InOrder t := by
  have hboth : (Contents.ofTree t).faults = .ok [] ↔
      (Contents.ofTree t).localeFaults = [] ∧ (Contents.ofTree t).hostFaults = [] ∧
      (Contents.ofTree t).lengthFaults "default_title" maxTitle = .ok [] ∧
      (Contents.ofTree t).lengthFaults "default_description" maxDescription = .ok [] := by
    rw [Contents.faults]
    cases (Contents.ofTree t).lengthFaults "default_title" maxTitle with
    | error e => simp [bind, Except.bind]
    | ok title =>
      cases (Contents.ofTree t).lengthFaults "default_description" maxDescription with
      | error e => simp [bind, Except.bind]
      | ok description => simp [bind, Except.bind, pure, Except.pure]
  rw [hboth, localeFaults_eq_nil, hostFaults_eq_nil, lengthFaults_eq_nil, lengthFaults_eq_nil]
  constructor
  · rintro ⟨hlocales, hhost, htitle, hdescription⟩
    exact ⟨hlocales, hhost, htitle, hdescription⟩
  · intro ho
    exact ⟨ho.locales, ho.host, ho.title, ho.description⟩

/-- The state of a feature: it is on exactly if its section says so with the truth value true. -/
def stateIn (t : Tree String) (name : String) : FeatureState :=
  if name ∈ Registry.featureNames then
    match (t.under name).under "enabled" with
    | .leaf (.bool true) => .enabled
    | _ => .disabled
  else .unknown

theorem stateIn_content (t : Tree String) (name : String) :
    stateIn t.content name = stateIn t name := by
  rw [stateIn, stateIn, ← Tree.content_under, ← Tree.content_under]
  cases (t.under name).under "enabled" with
  | leaf v =>
    cases v with
    | bool b => cases b <;> rfl
    | _ => rfl
  | _ => rfl

theorem Contents.featureState_eq_stateIn (x : Contents) (name : String) :
    x.featureState (.ofText name) = stateIn x.tree name := by
  unfold featureState stateIn
  cases hnamed : Registry.namedFeature? (.ofText name) with
  | none =>
    have hno : name ∉ Registry.featureNames := fun hin => by
      obtain ⟨feature, hfeature, rfl⟩ := List.mem_map.mp hin
      exact List.find?_eq_none.mp hnamed feature hfeature (beq_self_eq_true _)
    rw [if_neg hno]
  | some feature =>
    rw [Registry.namedFeature?] at hnamed
    have hname := List.find?_some hnamed
    cases eq_of_beq hname
    have hin : feature.name ∈ Registry.featureNames :=
      List.mem_map_of_mem (List.mem_of_find?_eq_some hnamed)
    have hpart : x.tree.under feature.name = x.part feature := x.part_ofTree feature
    rw [if_pos hin, hpart]
    rfl

end Settings

end PageMeta
