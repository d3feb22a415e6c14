import PageMeta.Proofs.Heap.NewData
import PageMeta.Proofs.Settings.Configuring
import PageMeta.Proofs.Settings.Merged

/-!
# What the command comes to

How the command ends that checks a settings file is determined by the settings that are read from it
and the features that are asked for.  Either a section is given as something that cannot be merged; or
a length is asked for in vain; or rules are broken, which are reported; or the report shows the defaults
merged with the settings, and the state of every feature that was asked for.

## Key results

- `featureStates_eq`: the states of features are those that the contents of a store tell
- `load_unfit`, `load_fit`: how loading and checking ends
- `run_determined`: how the command ends
-/

namespace PageMeta

open Heap

/-! ### Reports -/

namespace Tree

variable {P : Value → Prop}

mutual

/-- A tree with names as keys is the tree that it has the names of, once its keys are written as
texts. -/
theorem mapKeys_of_named (h : Heap) : ∀ {u : Tree Key} {t : Tree String},
    u.Named P t → u.mapKeys h.keyText = t
  | .leaf v, _, ⟨ht, _⟩ => ht.symm
  | .list us, _, ⟨ts, ht, hus⟩ => by
    subst ht
    exact congrArg Tree.list (mapKeysList_of_named h hus)
  | .map us, _, ⟨ts, ht, hus⟩ => by
    subst ht
    exact congrArg Tree.map (mapKeysEntries_of_named h hus)

/-- `mapKeys_of_named`, item by item. -/
theorem mapKeysList_of_named (h : Heap) : ∀ {us : List (Tree Key)} {ts : List (Tree String)},
    NamedItems P us ts → mapKeysList h.keyText us = ts
  | [], _, hts => hts.symm
  | u :: us, _, ⟨t, ts, hts, hu, hus⟩ => by
    rw [hts, mapKeysList, mapKeys_of_named h hu, mapKeysList_of_named h hus]

/-- `mapKeys_of_named`, entry by entry. -/
theorem mapKeysEntries_of_named (h : Heap) : ∀ {us : List (Key × Tree Key)}
    {ts : List (String × Tree String)}, NamedEntries P us ts → mapKeysEntries h.keyText us = ts
  | [], _, hts => hts.symm
  | (key, u) :: us, _, ⟨name, t, ts, hts, hk, hu, hus⟩ => by
    rw [hts, mapKeysEntries, keyText_of_text? hk, mapKeys_of_named h hu,
      mapKeysEntries_of_named h hus]

end

end Tree

/-- The report on a value that shows plain data shows the data. -/
theorem Heap.IsData.report {h : Heap} {t : Tree String} {v : Value} (hd : IsData h t v) :
    (·.mapKeys h.keyText) <$> h.tree .given v = .ok t := by
  obtain ⟨u, hu, hnamed⟩ := Reads.tree .given hd.reads.given
  rw [Tree.norm_of_distinct (hd.reads.distinct (by decide))] at hnamed
  rw [hu]
  exact congrArg Except.ok (Tree.mapKeys_of_named h hnamed)

/-- Writing what a key has already, or writing it at the end. -/
theorem Entries.put_map {α : Type} (f : String → α) (name : String) (names : List String) :
    Entries.put name (f name) (names.map fun n => (n, f n)) =
      (if name ∈ names then names else names ++ [name]).map fun n => (n, f n) := by
  induction names with
  | nil => rfl
  | cons first rest ih =>
    by_cases heq : first = name
    · subst heq
      simp [Entries.put]
    · have hne : name ≠ first := fun h => heq h.symm
      rw [List.map_cons, Entries.put, if_neg (by simpa using heq), ih]
      by_cases hin : name ∈ rest <;> simp [hin, hne]

/-- If what is written depends on the key, every key stays where it came first. -/
theorem Entries.ofList_map {α : Type} (f : String → α) (names : List String) :
    Entries.ofList (names.map fun n => (n, f n)) = names.eraseDups.map fun n => (n, f n) := by
  induction names using List.reverseRecOn with
  | nil => rfl
  | append_singleton names name ih =>
    have hput : Entries.ofList ((names ++ [name]).map fun n => (n, f n)) =
        Entries.put name (f name) (Entries.ofList (names.map fun n => (n, f n))) := by
      simp [Entries.ofList, Entries.putAll]
    rw [hput, ih, Entries.put_map, List.eraseDups_append]
    by_cases hin : name ∈ names <;> simp [hin, List.removeAll, List.eraseDups_cons]

namespace CommandLine

open Settings

variable {h : Heap} {c : Cells} {x : Contents} {ts : Entries String (Tree String)} {w : World Unit}

/-- The states of features are those that the contents of a store tell. -/
theorem featureStates_eq (call : Caller Unit) (hx : Stands w.heap c x) (names : List String) :
    featureStates call (.ref c.store) (names.map .text) w =
      .ok (names.map fun name => (name, .leaf (.ofText (stateIn x.tree name).text))) w := by
  induction names with
  | nil => rfl
  | cons name names ih =>
    have hstate := featureState_eq call hx (.ofText name)
    rw [x.featureState_eq_stateIn] at hstate
    rw [List.map_cons, featureStates, run_bind_ok hstate, run_bind_ok ih]
    rfl

/-- The names of the features that are reported on. -/
def reported (names : List String) : List String :=
  if names.isEmpty then Registry.featureNames else names

/-- The report on settings: all of them, and the states of the features that were asked for. -/
def report (settings : Tree String) (names : List String) : Tree String :=
  .map [("config", settings), ("features", .map ((reported names).eraseDups.map fun name =>
    (name, .leaf (.ofText (stateIn settings name).text))))]

/-! ### Loading and checking -/

/-- What is built of settings that were read are plain data with their content. -/
theorem build_settings_isRead (hread : (Tree.map ts).IsRead) :
    ∃ us v h, buildText .plain (.map ts) .empty = .ok v h ∧ h.Sound ∧ IsData h (.map us) v ∧
      Tree.contents us = Tree.contents ts := by
  obtain ⟨u, v, h, hbuild, hg, hd, hcontent⟩ := buildText_isRead hread AttributeMap.sound_empty
  cases u with
  | map us => exact ⟨us, v, h, hbuild, hg.sound, hd, Tree.map.inj hcontent⟩
  | leaf w => cases hcontent
  | list us => cases hcontent

/-- The settings that a store has after loading, as far as they are known. -/
def merged (ts : Entries String (Tree String)) : Tree String :=
  defaults.deepMerge (.map (known ts))

theorem tree_defaults_loaded (hread : (Tree.map ts).IsRead) (hfit : Fit ts) :
    (defaultContents.loaded ts).tree = merged ts :=
  tree_loaded (x := defaultContents) (fun name hn => by
    simp only [scalarNames, List.mem_cons, List.not_mem_nil, or_false] at hn
    rcases hn with rfl | rfl | rfl <;> rfl) hread.distinct hfit

/-- Settings with something else than an object for a section cannot be merged. -/
theorem load_unfit (hread : (Tree.map ts).IsRead) (hfit : ¬ Fit ts) (features : List Given) :
    ∃ type w, load (.map ts) features start = .error (.cannotMerge type) w ∧ Unwarned start w := by
  obtain ⟨us, v, h, hbuild, hs, hd, hcontent⟩ := build_settings_isRead hread
  have hstart : (Action.onHeap (buildText .plain (.map ts)) : Action Unit Value) start =
      .ok v { start with heap := h } := by simp only [Action.onHeap, start, hbuild]
  obtain ⟨type, w, hrun, hlog⟩ := configure_unfit (w := { start with heap := h }) hs rfl hd
    (loads_loader v) fun hus => hfit ((fit_of_content hcontent).mp hus)
  refine ⟨type, w, ?_, hlog⟩
  rw [load, run_bind_ok hstart]
  exact run_bind_error hrun

/-- Other settings are loaded and checked, which comes to what is wrong with them, or to the report. -/
theorem load_fit (hread : (Tree.map ts).IsRead) (hfit : Fit ts) (names : List String) :
    match (defaultContents.loaded ts).faults with
    | .error e => ∃ w, load (.map ts) (names.map .text) start = .error e w ∧ Unwarned start w
    | .ok [] => ∃ settings w, load (.map ts) (names.map .text) start =
        .ok (report settings names) w ∧ settings.content = (merged ts).content ∧ Unwarned start w
    | .ok broken => ∃ w, load (.map ts) (names.map .text) start = .error (.violations broken) w ∧
        Unwarned start w := by
  obtain ⟨us, v, h, hbuild, hs, hd, hcontent⟩ := build_settings_isRead hread
  have hstart : (Action.onHeap (buildText .plain (.map ts)) : Action Unit Value) start =
      .ok v { start with heap := h } := by simp only [Action.onHeap, start, hbuild]
  have hsame := defaultContents.loaded_of_content hcontent
  have hends := configure_fit (w := { start with heap := h }) hs rfl hd (loads_loader v)
    ((fit_of_content hcontent).mpr hfit)
  rw [Contents.faults_of_content hsame] at hends
  rw [load, run_bind_ok hstart]
  generalize (defaultContents.loaded ts).faults = found at hends ⊢
  cases found with
  | error e =>
    obtain ⟨w, hrun, hlog⟩ := hends
    exact ⟨w, run_bind_error hrun, hlog⟩
  | ok broken =>
    cases broken with
    | cons first rest =>
      obtain ⟨w, hrun, hlog⟩ := hends
      exact ⟨w, run_bind_error hrun, hlog⟩
    | nil =>
      -- nothing is wrong, so what the store holds is reported
      obtain ⟨c, w, hrun, hx, hlog⟩ := hends
      obtain ⟨plain, h', hdump, hg, hplain⟩ := toDict_data (loader v) hx
      have hconfig : (Action.ask fun h => (·.mapKeys h.keyText) <$> h.tree .given plain : Action Unit _)
          { w with heap := h' } = .ok (defaultContents.loaded us).tree { w with heap := h' } := by
        simp only [Action.ask, Action.onHeap, ask, hplain.report]
      have hnames : (if (names.map Given.text).isEmpty then Registry.featureNames.map Given.text
          else names.map Given.text) = (reported names).map Given.text := by
        cases names <;> rfl
      have hstates := featureStates_eq (w := { w with heap := h' }) (loader v) (hx.grows hg)
        (reported names)
      refine ⟨(defaultContents.loaded us).tree, { w with heap := h' }, ?_, ?_, hlog⟩
      · rw [run_bind_ok hrun, run_bind_ok hdump, run_bind_ok hconfig, hnames, run_bind_ok hstates,
          Entries.ofList_map]
        rfl
      · rw [← Contents.tree_content, hsame, Contents.tree_content, tree_defaults_loaded hread hfit]

/-! ### The command -/

theorem content_report {settings other : Tree String} (heq : settings.content = other.content)
    (names : List String) : (report settings names).content = (report other names).content := by
  have hstates : ∀ name, stateIn settings name = stateIn other name := fun name => by
    rw [← stateIn_content, heq, stateIn_content]
  simp only [report, hstates]
  show Tree.map [("config", settings.content), _] = Tree.map [("config", other.content), _]
  rw [heq]

theorem logLines_of_unwarned (hlog : Unwarned start w) : logLines false w.log = "" := by
  obtain ⟨records, hlog, hdebug⟩ := hlog
  have hnone : records.filter (fun r => false || r.level == .warning) = [] :=
    List.filter_eq_nil_iff.mpr fun r hr => by rw [hdebug r hr]; decide
  rw [logLines, hlog]
  show String.join ((records.filter _).map _) = ""
  rw [hnone]
  rfl

variable {folder : Folder} {arguments names : List String} {path : String} {content : List UInt8}

/-- Checking settings that were read from a file. -/
theorem run_of_read (hparse : parse arguments = .ok (.check ⟨.text path, names.map .text, false⟩))
    (hfile : folder.find path = .file content)
    (hread : readContent (normalPath path) content = .ok (.map ts)) :
    run folder arguments = check false (.map ts) (names.map .text) := by
  have hjob : interpret arguments = .ok ⟨path, names.map .text, false⟩ := by
    rw [interpret, hparse]
  rw [run, hjob]
  dsimp only
  rw [Job.carryOut, hfile, readSettings, hread]

theorem check_unfit (hread : (Tree.map ts).IsRead) (hfit : ¬ Fit ts) (features : List Given) :
    ∃ e, check false (.map ts) features = ⟨.error e, "", ""⟩ ∧ e.kind = "DSLError" := by
  obtain ⟨type, w, hrun, hlog⟩ := load_unfit hread hfit features
  refine ⟨.cannotMerge type, ?_, rfl⟩
  rw [check, hrun]
  dsimp only
  rw [logLines_of_unwarned hlog]

theorem check_unmeasurable (hread : (Tree.map ts).IsRead) (hfit : Fit ts) (hlength : Unmeasurable ts)
    (names : List String) : ∃ e, check false (.map ts) (names.map .text) = ⟨.error e, "", ""⟩ ∧
      e.kind = "TypeError" := by
  obtain ⟨-, type, hfaults⟩ | ⟨hno, -⟩ := faults_cases hread.leaves
  swap
  · exact absurd hlength hno
  have hends := load_fit hread hfit names
  rw [hfaults] at hends
  obtain ⟨w, hrun, hlog⟩ := hends
  refine ⟨.noLength type, ?_, rfl⟩
  rw [check, hrun]
  dsimp only
  rw [logLines_of_unwarned hlog]

theorem faults_merged (hread : (Tree.map ts).IsRead) (hfit : Fit ts) :
    (defaultContents.loaded ts).faults = (Contents.ofTree (merged ts)).faults := by
  rw [← tree_defaults_loaded hread hfit, Contents.faults_ofTree]

theorem check_broken (hread : (Tree.map ts).IsRead) (hfit : Fit ts) (hlength : ¬ Unmeasurable ts)
    (hbroken : ¬ InOrder (merged ts)) (names : List String) : ∃ broken, broken ≠ [] ∧
      (Contents.ofTree (merged ts)).faults = .ok broken ∧ check false (.map ts) (names.map .text) =
        ⟨.ok 1, "", "[invalid] " ++ (Error.violations broken).message ++ "\n"⟩ := by
  obtain ⟨hyes, -⟩ | ⟨-, broken, hfaults⟩ := faults_cases hread.leaves
  · exact absurd hyes hlength
  have hends := load_fit hread hfit names
  rw [hfaults] at hends
  rw [faults_merged hread hfit] at hfaults
  cases broken with
  | nil => exact absurd (inOrder_iff.mp hfaults) hbroken
  | cons first rest =>
    obtain ⟨w, hrun, hlog⟩ := hends
    refine ⟨first :: rest, List.cons_ne_nil _ _, hfaults, ?_⟩
    rw [check, hrun]
    dsimp only
    rw [logLines_of_unwarned hlog, String.empty_append]

theorem check_inOrder (hread : (Tree.map ts).IsRead) (hfit : Fit ts) (hin : InOrder (merged ts))
    (names : List String) : check false (.map ts) (names.map .text) =
      ⟨.ok 0, Json.Style.report.write (report (merged ts) names) ++ "\n", ""⟩ := by
  have hends := load_fit hread hfit names
  rw [faults_merged hread hfit, inOrder_iff.mpr hin] at hends
  obtain ⟨settings, w, hrun, hcontent, hlog⟩ := hends
  rw [check, hrun]
  dsimp only
  rw [logLines_of_unwarned hlog, Tree.write_eq_of_content _ (content_report hcontent names)]

/-- What is read from the content of a file, step by step. -/
theorem readContent_of_document {text : String} (hdecode : Text.decode content = .ok text)
    (hread : Json.readDocument (withPlainLines text.toList) = .ok (.map ts)) :
    readContent path content = .ok (.map ts) := by
  rw [readContent, hdecode]
  dsimp only
  rw [readJson, hread]
  rfl

/-- How the command ends that checks a settings file is determined by the settings and the names of
features.  It ends with an error of its own if a section is given as something that cannot be merged, and
otherwise with one of the language if a length is asked for in vain.  Then the rules that the merged
settings break are reported, or else the merged settings and the state of every feature, once each and
in the order in which they were asked for. -/
theorem run_determined
    (hparse : parse arguments = .ok (.check ⟨.text path, names.map .text, false⟩))
    (hfile : folder.find path = .file content)
    (hread : readContent (normalPath path) content = .ok (.map ts)) :
    (¬ Fit ts → ∃ e, run folder arguments = ⟨.error e, "", ""⟩ ∧ e.kind = "DSLError") ∧
    (Fit ts → Unmeasurable ts →
      ∃ e, run folder arguments = ⟨.error e, "", ""⟩ ∧ e.kind = "TypeError") ∧
    (Fit ts → ¬ Unmeasurable ts → ¬ InOrder (merged ts) → ∃ broken, broken ≠ [] ∧
      (Contents.ofTree (merged ts)).faults = .ok broken ∧ run folder arguments =
        ⟨.ok 1, "", "[invalid] " ++ (Error.violations broken).message ++ "\n"⟩) ∧
    (Fit ts → ¬ Unmeasurable ts → InOrder (merged ts) → run folder arguments =
      ⟨.ok 0, Json.Style.report.write (report (merged ts) names) ++ "\n", ""⟩) := by
  have hisRead := readContent_isRead hread
  rw [run_of_read hparse hfile hread]
  refine ⟨fun hfit => check_unfit hisRead hfit _, fun hfit hlength => ?_,
    fun hfit hlength hbroken => ?_, fun hfit _ hin => check_inOrder hisRead hfit hin names⟩
  · exact check_unmeasurable hisRead hfit hlength names
  · exact check_broken hisRead hfit hlength hbroken names

/-- A file that names the site. -/
def siteFile : List UInt8 := "\x7b\"site_name\": \"Shop\"\x7d".toUTF8.toList

/-- The settings in the file. -/
def siteSettings : Entries String (Tree String) := [("site_name", .leaf (.newText "Shop"))]

theorem readContent_siteFile : readContent path siteFile = .ok (.map siteSettings) := by
  have hdecode : Text.decode siteFile = .ok "\x7b\"site_name\": \"Shop\"\x7d" := by decide +kernel
  refine readContent_of_document hdecode ?_
  have htext : withPlainLines "\x7b\"site_name\": \"Shop\"\x7d".toList =
      '\x7b' :: ("\"site_name\"".toList ++ [':', ' ', '"', 'S', 'h', 'o', 'p', '"', '\x7d']) := by
    decide +kernel
  have hname : Json.readString ("\"site_name\"".toList ++ [':', ' ', '"', 'S', 'h', 'o', 'p', '"', '\x7d']) =
      .ok ("site_name", [':', ' ', '"', 'S', 'h', 'o', 'p', '"', '\x7d']) := by decide +kernel
  have hvalue : Json.readString ['"', 'S', 'h', 'o', 'p', '"', '\x7d'] = .ok ("Shop", ['\x7d']) := by
    decide +kernel
  -- reading strings is the only step that does not compute by itself
  rw [htext, Json.readDocument]
  show (((Json.readString ("\"site_name\"".toList ++ _) >>= _) >>= _) >>= _) = _
  rw [hname]
  show ((((Json.readString ['"', 'S', 'h', 'o', 'p', '"', '\x7d'] >>= _) >>= _) >>= _) >>= _) = _
  rw [hvalue]
  rfl

theorem run_determined_site :
    run (.ofList [("s.json", siteFile)]) ["--config", "s.json", "--feature", "sitemap",
        "--feature", "shop", "--feature", "sitemap"] =
      ⟨.ok 0, Json.Style.report.write
        (report (merged siteSettings) ["sitemap", "shop", "sitemap"]) ++ "\n", ""⟩ := by
  have hparse : parse ["--config", "s.json", "--feature", "sitemap", "--feature", "shop",
      "--feature", "sitemap"] =
      .ok (.check ⟨.text "s.json", ["sitemap", "shop", "sitemap"].map .text, false⟩) := by
    decide +kernel
  have hfile : (Folder.ofList [("s.json", siteFile)]).find "s.json" = .file siteFile := by
    decide +kernel
  have hfit : Fit siteSettings := fun name => by cases name <;> decide
  have hlength : ¬ Unmeasurable siteSettings := by
    unfold Unmeasurable
    decide
  have hin : InOrder (merged siteSettings) :=
    ⟨⟨_, rfl, List.cons_ne_nil _ _, _, List.mem_cons_self, rfl⟩, fun h => (by cases h), rfl, rfl⟩
  exact (run_determined hparse hfile readContent_siteFile).2.2.2 hfit hlength hin

/-- A file with a name that settings do not have. -/
def unknownFile : List UInt8 := "\x7b\"foo\": 1\x7d".toUTF8.toList

/-- The settings in the file. -/
def unknownSettings : Entries String (Tree String) := [("foo", .leaf (.newInt 1))]

theorem readContent_unknownFile : readContent path unknownFile = .ok (.map unknownSettings) := by
  have hdecode : Text.decode unknownFile = .ok "\x7b\"foo\": 1\x7d" := by decide +kernel
  refine readContent_of_document hdecode ?_
  have htext : withPlainLines "\x7b\"foo\": 1\x7d".toList =
      ['\x7b', '"', 'f', 'o', 'o', '"', ':', ' ', '1', '\x7d'] := by decide +kernel
  have hname : Json.readString ['"', 'f', 'o', 'o', '"', ':', ' ', '1', '\x7d'] =
      .ok ("foo", [':', ' ', '1', '\x7d']) := by decide +kernel
  rw [htext, Json.readDocument]
  show (((Json.readString ['"', 'f', 'o', 'o', '"', ':', ' ', '1', '\x7d'] >>= _) >>= _) >>= _) = _
  rw [hname]
  rfl

/-- What stands under such a name is left out of the report, so that the report is not on the defaults
merged with all that is in the file. -/
theorem report_without_unknown :
    parse ["--config", "s.json"] = .ok (.check ⟨.text "s.json", [], false⟩) ∧
    (Folder.ofList [("s.json", unknownFile)]).find "s.json" = .file unknownFile ∧
    readContent (normalPath "s.json") unknownFile = .ok (.map unknownSettings) ∧
    Fit unknownSettings ∧ ¬ Unmeasurable unknownSettings ∧
    InOrder (defaults.deepMerge (.map unknownSettings)) ∧
    run (.ofList [("s.json", unknownFile)]) ["--config", "s.json"] ≠
      ⟨.ok 0, Json.Style.report.write
        (report (defaults.deepMerge (.map unknownSettings)) []) ++ "\n", ""⟩ := by
  have hparse : parse ["--config", "s.json"] =
      .ok (.check ⟨.text "s.json", List.map .text [], false⟩) := by decide +kernel
  have hfile : (Folder.ofList [("s.json", unknownFile)]).find "s.json" = .file unknownFile := by
    decide +kernel
  have hfit : Fit unknownSettings := fun name => by cases name <;> decide
  have hlength : ¬ Unmeasurable unknownSettings := by
    unfold Unmeasurable
    decide
  have hin : InOrder (merged unknownSettings) :=
    ⟨⟨_, rfl, List.cons_ne_nil _ _, _, List.mem_cons_self, rfl⟩, fun h => (by cases h), rfl, rfl⟩
  refine ⟨hparse, hfile, readContent_unknownFile, hfit, hlength,
    ⟨⟨_, rfl, List.cons_ne_nil _ _, _, List.mem_cons_self, rfl⟩, fun h => (by cases h), rfl, rfl⟩, ?_⟩
  rw [run_of_read hparse hfile readContent_unknownFile,
    check_inOrder (readContent_isRead (@readContent_unknownFile "s.json")) hfit hin]
  intro heq
  have houtput := congrArg Ending.output heq
  revert houtput
  decide +kernel

end CommandLine

end PageMeta
