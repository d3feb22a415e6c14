import PageMeta.Proofs.Heap.Nesting
import PageMeta.Proofs.Heap.Simple
import PageMeta.Proofs.Object.Inert

/-!
# Simple data in use

Whatever simple data are gone through, flattened or read as a dictionary, nothing but simple data comes
out.  No code of a caller is run: simple data cannot be asked for keys of their own making.

## Key results

- `elements_simple`: what going through a simple value yields
- `flatten_simple`: the leaves of simple values
- `updateEntries_simple`: the entries of a simple value turned into a dictionary
-/

namespace PageMeta.Heap

variable {κ : Type} {w : World κ} {h h' : Heap} {v : Value} {vs : List Value} {key : Key} {r : Ref}

/-! ### Elements -/

/-- Making a scalar. -/
theorem settle_scalar (h : Heap) (hv : v.isAtom = true) :
    Outcome (settle v) h (fun u h' => h'.cells = h.cells ∧ u.isScalar = true) fun _ => False := by
  obtain ⟨mark, h', hrun, hmade, hc⟩ := settle_marked h v
  have hatom : (v.withMark mark).isAtom = true := by cases v <;> first | rfl | cases hv
  exact Outcome.of_ok hrun ⟨hc, Bool.and_eq_true_iff.mpr ⟨hatom, hmade⟩⟩

theorem settleAll_scalars : ∀ (vs : List Value) (h : Heap), (∀ v ∈ vs, v.isAtom = true) →
    Outcome (settleAll vs) h (fun us h' => h'.cells = h.cells ∧ ∀ u ∈ us, u.isScalar = true)
      fun _ => False
  | [], _, _ => ⟨rfl, fun _ hu => absurd hu List.not_mem_nil⟩
  | v :: rest, h, hvs => by
    obtain ⟨hv, hrest⟩ := List.forall_mem_cons.mp hvs
    refine Outcome.bind ((settle_scalar h hv).mono ?_ fun _ => id)
    rintro u h₁ ⟨hcells, hu⟩
    refine Outcome.bind ((settleAll_scalars rest h₁ hrest).mono ?_ fun _ => id)
    rintro us h₂ ⟨hcells', hus⟩
    exact ⟨hcells'.trans hcells, List.forall_mem_cons.mpr ⟨hu, hus⟩⟩

theorem simple_of_scalars (h : Heap) (hvs : ∀ v ∈ vs, v.isScalar = true) : h.Simple vs :=
  simple_iff.mpr fun v hv => simple_of_isScalar h (hvs v hv)

/-- A scalar key is a scalar. -/
theorem isScalar_value {key : Key} (hk : key.isScalar = true) : key.value.isScalar = true := by
  cases key with
  | atom v => exact hk
  | tuple r items => cases hk

/-- What going through a simple value yields is simple. -/
theorem elements_simple (hv : h.Simple [v]) :
    Outcome (elements v) h (fun us h' => Extends h h' ∧ h'.Simple us) (Extends h) := by
  -- characters are made of a text, and numbers of bytes; anything else is there
  have hchars : ∀ s : String, Outcome (settleAll (s.toList.map Value.ofChar)) h
      (fun us h' => h'.Simple us) fun _ => True := fun s => by
    refine (settleAll_scalars _ h fun u hu => ?_).mono
      (fun us h' hus => simple_of_scalars h' hus.2) fun _ => False.elim
    obtain ⟨ch, -, rfl⟩ := List.mem_map.mp hu
    rfl
  have hyields : Outcome (elements v) h (fun us h' => h'.Simple us) fun _ => True := by
    refine Outcome.get_bind ?_
    rcases hv.cases with hscalar | ⟨r, items, rfl, hread, hitems⟩ | ⟨r, es, rfl, hread, hes⟩
    · cases v with
      | text s mark => exact hchars s
      | feature state => exact hchars state.text
      | bytes bs mark =>
        refine simple_of_scalars h fun u hu => ?_
        obtain ⟨b, -, rfl⟩ := List.mem_map.mp hu
        rfl
      | none | bool | int | real => exact trivial
      | _ => cases hscalar
    · simp only [hread]
      exact hitems
    · simp only [hread]
      refine simple_of_scalars h fun u hu => ?_
      obtain ⟨key, hkey, rfl⟩ := List.mem_map.mp hu
      obtain ⟨p, hp, rfl⟩ := List.mem_map.mp hkey
      exact isScalar_value (hes p hp).1
  exact ((elements_extends v h).and hyields).mono (fun _ _ => id) fun _ => And.left

/-! ### Leaves -/

/-- The leaves of simple values are simple. -/
theorem flatten_simple {flat : List Value} (hvs : h.Simple vs) (hrun : h.flatten vs = .ok flat) :
    h.Simple flat := by
  have hitems : ∀ v items, h.Simple [v] → h.sequence? v = some items → ∀ u ∈ items, h.Simple [u] := by
    intro v items hv hs
    rcases hv.cases with hscalar | ⟨r, us, rfl, hread, hus⟩ | ⟨r, es, rfl, hread, -⟩
    · have hnone : h.sequence? v = none := by
        cases v <;> first | rfl | cases hscalar
      rw [hnone] at hs
      cases hs
    · simp only [sequence?, cell?, hread, Option.some.injEq] at hs
      exact simple_iff.mp (hs ▸ hus)
    · simp [sequence?, cell?, hread] at hs
  exact simple_iff.mpr fun u hu => (flattenTo_forall hitems (simple_iff.mp hvs) hrun u hu).1

/-! ### Dictionaries -/

/-- A simple value that is a key is a scalar. -/
theorem toKey_simple (hv : h.Simple [v]) (hk : h.toKey v = .ok key) : key.isScalar = true := by
  rcases hv.cases with hscalar | ⟨r, items, rfl, hread, -⟩ | ⟨r, es, rfl, hread, -⟩
  · cases v <;> first | (cases hk; exact hscalar) | cases hscalar
  · simp [toKey, depth, toKeyTo, hread, isHashableCell] at hk
  · simp [toKey, depth, toKeyTo, hread, isHashableCell] at hk

/-- A simple value is a dictionary, or does not tell its keys. -/
theorem Simple.lookup_keys (hv : h.Simple [v]) :
    (∃ entries, h.cell? v = some (.dict entries)) ∨ ∃ e, Object.lookup h v "keys" = .error e := by
  rcases hv.cases with hscalar | ⟨r, items, rfl, hread, -⟩ | ⟨r, es, rfl, hread, -⟩
  · cases v with
    | feature state => exact .inr ⟨_, rfl⟩
    | none | bool | int | real | text | bytes => exact Inert.lookup_keys trivial
    | _ => cases hscalar
  · exact Inert.lookup_keys (.inl ⟨items, hread⟩)
  · exact .inl ⟨es, hread⟩

/-- A later heap with a new dictionary of simple data at an address. -/
structure Gathers (r : Ref) (h h' : Heap) : Prop extends Collects r h h' where
  simple : h'.SimpleAt r

namespace Gathers

theorem trans (hg : Gathers r h h') {h'' : Heap} (he : Extends h' h'') : Gathers r h h'' :=
  ⟨hg.toCollects.trans he, hg.simple.extends he⟩

/-- The dictionary is written with simple data, and all simple data stay simple. -/
theorem put (hg : Gathers r h h') {es : Entries Key Value} (hes : h'.SimpleEntries es) :
    Outcome (putEntries r es) h' (fun _ h'' => Gathers r h h'' ∧ SimpleKept h' h'') fun _ => False := by
  obtain ⟨old, hread⟩ := hg.dict
  have hrun : putEntries r es h' = .ok () (h'.write r (.dict es)) := by
    simp only [putEntries, dict?_of_dict hread]
  have hkept : SimpleKept h' (h'.write r (.dict es)) := simpleKept_write fun _ => hes.cell
  exact Outcome.of_ok hrun
    ⟨⟨(hg.toCollects.put es).result hrun, hkept r hg.simple⟩, hkept⟩

end Gathers

/-- Writing the pairs in a sequence of simple pairs. -/
theorem writePairs_simple : ∀ (vs : List Value) (n : Nat) {h' : Heap}, Gathers r h h' →
    h'.Simple vs →
    Outcome (Object.writePairs r n vs) h' (fun _ h'' => Gathers r h h'') fun _ => True
  | [], _, _, hg, _ => hg
  | v :: rest, n, h', hg, hvs => by
    obtain ⟨hv, hrest⟩ := List.forall_mem_cons.mp (simple_iff.mp hvs)
    have helements : Outcome (elements v) h' (fun parts h₁ => Extends h' h₁ ∧ h₁.Simple parts)
        fun _ => True := (elements_simple hv).mono (fun _ _ => id) fun _ _ => trivial
    refine Outcome.bind (Outcome.mono (Outcome.tryCatch helements fun e h₁ _ => ?_)
      (fun parts h₁ hparts => ?_) fun _ => id)
    · split <;> exact trivial
    obtain ⟨he, hparts⟩ := hparts
    split
    · -- two parts are a key and the value under it
      rename_i k u
      obtain ⟨hk, hu⟩ := List.forall_mem_cons.mp (simple_iff.mp hparts)
      have hu := hu u List.mem_cons_self
      have hg₁ := hg.trans he
      obtain ⟨old, hread⟩ := hg₁.dict
      refine Outcome.bind (Outcome.ask (fun key hkey => Outcome.bind ?_) trivial)
      have hes : h₁.SimpleEntries ((h₁.entriesAt r).put key u) := by
        rw [entriesAt_dict hread]
        exact (hg₁.simple.entries hread).put (toKey_simple hk hkey) hu
      refine (hg₁.put hes).mono (fun _ h₂ hput => ?_) fun _ => False.elim
      have hrest' := ((simple_iff.mpr hrest).extends he).later hput.2
      exact writePairs_simple rest (n + 1) hput.1 hrest'
    · exact trivial

/-- Taking a dictionary from a simple value makes new cells only, and gives simple entries. -/
theorem updateEntries_simple (call : Caller κ) (hv : w.heap.Simple [v]) :
    Outcome (Object.updateEntries call v) w
      (fun es w' => Extends w.heap w'.heap ∧ w'.heap.SimpleEntries es) fun _ => True := by
  have he := extends_push w.heap (.dict [])
  have hnew := newDict_simple (SimpleEntries.nil w.heap)
  have hg : Gathers w.heap.next w.heap (w.heap.push (.dict [])) :=
    ⟨⟨he, Nat.le_refl _, [], read_alloc_new _ _⟩, hnew⟩
  have hv' := hv.extends he
  have hfrom : Outcome (Object.updateFrom call w.heap.next v)
      { w with heap := w.heap.push (.dict []) }
      (fun _ w' => Gathers w.heap.next w.heap w'.heap) fun _ => True := by
    refine Outcome.get_bind ?_
    dsimp only
    split
    · rename_i entries hcell
      obtain ⟨r, rfl⟩ := ref_of_cell? hcell
      have hsimple : (w.heap.push (.dict [])).SimpleAt r := hv'
      rw [entriesAt_dict (read_alloc_new _ _)]
      refine Outcome.onHeap ((hg.put ((SimpleEntries.nil _).putAll (hsimple.entries hcell))).mono
        (fun _ _ => And.left) fun _ => False.elim)
    · -- a dictionary is dealt with above, and nothing else tells its keys
      rename_i found hfound hno
      rcases hv'.lookup_keys with ⟨entries, hentries⟩ | ⟨e, herror⟩
      · exact (hno entries hentries).elim
      · rw [herror] at hfound
        cases hfound
    · split
      · refine Outcome.onHeap (Outcome.bind ((elements_simple hv').mono ?_ fun _ _ => trivial))
        rintro vs h₁ ⟨he₁, hvs⟩
        exact writePairs_simple vs 0 (hg.trans he₁) hvs
      · trivial
  refine Outcome.bind (Outcome.of_ok rfl (Outcome.bind (hfrom.mono (fun _ w₁ hg₁ => ?_)
    fun _ => id)))
  obtain ⟨es, hread⟩ := hg₁.dict
  refine ⟨hg₁.extends_heap, ?_⟩
  show w₁.heap.SimpleEntries (w₁.heap.entriesAt w.heap.next)
  rw [entriesAt_dict hread]
  exact hg₁.simple.entries hread

end PageMeta.Heap
