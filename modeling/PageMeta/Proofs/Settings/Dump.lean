import PageMeta.Proofs.Settings.Configuring

/-!
# Configuring with a dump

Whether plain data configure a new store, and what the store then holds, can be told from the data.
What the store is written down as are plain data again, which configure a new store with the same
contents: a merge with the defaults has all that they have, in their order, so that merging it with
the defaults once more changes nothing.

## Key results

- `configure_data`: when a new store is configured with plain data, and what it holds then
- `configure_dump`: a dump configures a new store as it was
-/

namespace PageMeta.Settings

open Heap

variable {v : Value} {ts : Entries String (Tree String)} {κ : Type} {call : Caller κ} {w : World κ}

/-! ### Data that configure a store -/

/-- Whether plain data configure a new store: they have nothing for a section but maps, and with the
defaults they break no rule. -/
def Accepted (ts : Entries String (Tree String)) : Prop :=
  Fit ts ∧ (defaultContents.loaded ts).faults = .ok []

theorem reset_ok : ∃ w' : World κ, Registry.reset w = .ok () w' ∧ w'.heap = w.heap ∧
    w'.current = none := ⟨_, rfl, rfl, rfl⟩

/-- Plain data configure a new store exactly if they are accepted, and then it holds what was
loaded. -/
theorem configure_data {f : Value} (hs : w.heap.Sound) (hd : IsData w.heap (.map ts) v)
    (hf : Loads call f v) :
    (Accepted ts ∧ ∃ (c : Cells) (w' : World κ),
      (Registry.reset >>= fun _ => Registry.configure call f) w = .ok (.ref c.store) w' ∧
        Stands w'.heap c (defaultContents.loaded ts)) ∨
    (¬ Accepted ts ∧ ∃ e w',
      (Registry.reset >>= fun _ => Registry.configure call f) w = .error e w') := by
  -- the store that was current is gone, so the one that is configured is new
  obtain ⟨w₁, hreset, hheap, hnone⟩ := reset_ok (w := w)
  rw [run_bind_ok hreset]
  rw [← hheap] at hs hd
  by_cases hfit : Fit ts
  · have hends := configure_fit hs hnone hd hf hfit
    cases hfaults : (defaultContents.loaded ts).faults with
    | error e =>
      rw [hfaults] at hends
      obtain ⟨w', hrun, -⟩ := hends
      exact .inr ⟨fun ha => (by cases hfaults.symm.trans ha.2), e, w', hrun⟩
    | ok broken =>
      rw [hfaults] at hends
      cases broken with
      | nil =>
        obtain ⟨c, w', hrun, hx, -⟩ := hends
        exact .inl ⟨⟨hfit, hfaults⟩, c, w', hrun, hx⟩
      | cons first rest =>
        obtain ⟨w', hrun, -⟩ := hends
        exact .inr ⟨fun ha => (by cases hfaults.symm.trans ha.2), _, w', hrun⟩
  · obtain ⟨type, w', hrun, -⟩ := configure_unfit hs hnone hd hf hfit
    exact .inr ⟨fun ha => hfit ha.1, _, w', hrun⟩

/-! ### The dump of a configured store -/

theorem isMap_defaultSection (name : SectionName) : (defaultSection name).isMap = true := by
  cases name <;> decide

/-- What is loaded with the defaults stays the same if it is loaded with them again. -/
theorem defaults_loaded (hd : (Tree.map ts).Distinct) :
    defaultContents.loaded (defaultContents.loaded ts).entries = defaultContents.loaded ts :=
  loaded_loaded isMap_defaultSection distinct_defaultSection hd

/-- If data are accepted, so is what they leave. -/
theorem accepted_entries (hd : (Tree.map ts).Distinct) (ha : Accepted ts) :
    Accepted (defaultContents.loaded ts).entries := by
  refine ⟨fun name => .inr ?_, ?_⟩
  · rw [Contents.offer_entries]
    exact (part_loaded (isMap_defaultSection name) (distinct_defaultSection name) hd).1
  · rw [defaults_loaded hd]
    exact ha.2

/-- If plain data configure a new store, then so does what the store is written down as: the other
store is written down as the same plain data, with the keys in the same order, and has the same
features. -/
theorem configure_dump {f s : Value} {w₁ : World κ} (hs : w.heap.Sound)
    (hd : IsData w.heap (.map ts) v) (hf : Loads call f v)
    (hrun : (Registry.reset >>= fun _ => Registry.configure call f) w = .ok s w₁) :
    ∃ t w₂, toDict call s w₁ = .ok t w₂ ∧ IsData w₂.heap (defaultContents.loaded ts).tree t ∧
      ∀ {call' : Caller κ} {f' : Value}, Loads call' f' t → ∃ s' w₃ t' w₄,
        (Registry.reset >>= fun _ => Registry.configure call' f') w₂ = .ok s' w₃ ∧
        toDict call' s' w₃ = .ok t' w₄ ∧
        IsData w₄.heap (defaultContents.loaded ts).tree t' ∧
        ∀ name, ∃ state, Registry.featureState call name s w₂ = .ok state w₂ ∧
          Registry.featureState call' name s' w₄ = .ok state w₄ := by
  obtain ⟨haccepted, c, w', hrun', hx⟩ | ⟨-, e, w', hrun'⟩ := configure_data hs hd hf
  swap
  · rw [hrun] at hrun'
    cases hrun'
  obtain ⟨rfl, rfl⟩ : Value.ref c.store = s ∧ w' = w₁ := by
    rw [hrun] at hrun'
    cases hrun'
    exact ⟨rfl, rfl⟩
  have hdistinct := hd.reads.distinct (by decide)
  obtain ⟨t, h₂, hdump, hg₂, ht⟩ := toDict_data call hx
  refine ⟨t, _, hdump, ht, fun {call' f'} hf' => ?_⟩
  -- what a store is written out as has the defaults already, so it is accepted and changes nothing
  have hagain := accepted_entries hdistinct haccepted
  obtain ⟨-, c', w₃, hrun'', hx'⟩ | ⟨hno, -⟩ :=
    configure_data (w := { w' with heap := h₂ }) hg₂.sound ht hf'
  swap
  · exact absurd hagain hno
  rw [defaults_loaded hdistinct] at hx'
  obtain ⟨t', h₄, hdump', hg₄, ht'⟩ := toDict_data call' hx'
  refine ⟨_, w₃, t', _, hrun'', hdump', ht', fun name =>
    ⟨(defaultContents.loaded ts).featureState name, ?_, ?_⟩⟩
  · exact featureState_eq (w := { w' with heap := h₂ }) call (hx.grows hg₂) name
  · exact featureState_eq (w := { w₃ with heap := h₄ }) call' (hx'.grows hg₄) name

/-- Settings of a shop: a site map, no preview images for the web, and something new. -/
def shopSettings : Entries String (Tree String) :=
  [("site_name", text "Shop"),
    ("sitemap", .map [("host", text "https://shop.example"), ("enabled", flag true)]),
    ("images", .map [("webp", absent), ("origin", .map [("depth", number 3)])])]

theorem accepted_shopSettings : Accepted shopSettings :=
  ⟨fun name => by cases name <;> decide, by rfl⟩

theorem configure_dump_shop : ∃ data h s w₁,
    buildText .plain (.map shopSettings) .empty = .ok data h ∧
    (Registry.reset >>= fun _ => Registry.configure (CommandLine.loader data) (.routine 0))
      (newWorld h) = .ok s w₁ ∧
    ∃ t w₂, toDict (CommandLine.loader data) s w₁ = .ok t w₂ ∧
      IsData w₂.heap (defaultContents.loaded shopSettings).tree t ∧ ∃ s' w₃ t' w₄,
        (Registry.reset >>= fun _ => Registry.configure (CommandLine.loader t) (.routine 0)) w₂ =
          .ok s' w₃ ∧
        toDict (CommandLine.loader t) s' w₃ = .ok t' w₄ ∧
        IsData w₄.heap (defaultContents.loaded shopSettings).tree t' ∧
        ∀ name, ∃ state,
          Registry.featureState (CommandLine.loader data) name s w₂ = .ok state w₂ ∧
          Registry.featureState (CommandLine.loader t) name s' w₄ = .ok state w₄ := by
  obtain ⟨data, h, hbuild, hs, hd⟩ := @build_settings shopSettings rfl (by decide)
  obtain ⟨-, c, w₁, hrun, -⟩ | ⟨hno, -⟩ :=
    configure_data (w := newWorld h) hs hd (loads_loader (.ref data))
  swap
  · exact absurd accepted_shopSettings hno
  obtain ⟨t, w₂, hdump, ht, hagain⟩ :=
    configure_dump (w := newWorld h) hs hd (loads_loader (.ref data)) hrun
  exact ⟨_, h, _, w₁, hbuild, hrun, t, w₂, hdump, ht, hagain (loads_loader t)⟩

end PageMeta.Settings
