import Mathlib.Data.List.Basic
import Mathlib.Data.List.Nodup
import Provenance.Proofs.Faithfulness

/-!
# Which manifests are accepted

A manifest becomes a catalogue unless a name cannot be kept: it is that of a getter, or a fragment
further up has it already (`Manifest.ClashesAt`). Names are looked at from the top, with those seen
so far in a list, and the first that cannot be kept is the one that is reported
(`Manifest.FirstClash`).

**The two checks do not compete.** Both may apply to one fragment, but not to the first one to which
either does: if its name is that of a getter and has been seen, the fragment further up clashes too.
So the first clash determines what is said of it (`Manifest.FirstClash.unique`), and a manifest is
refused for a reason exactly if the reason is that of its first clash.

Once there is no clash, looking up a name undoes naming. `Catalogue.ofManifest_outcome` is the
result.
-/

namespace Provenance

namespace Manifest

variable {l rest : List Fragment} {f : Fragment} {i i' : ℕ} {fault fault' : BuildFault}

/-! ### Clashes -/

/-- The fragment at an index cannot keep its name, for the given reason. -/
inductive ClashesAt (l : List Fragment) (i : ℕ) : BuildFault → Prop
  /-- The name is that of a getter. -/
  | reserved {f : Fragment} : l[i]? = some f → f.name ∈ Getter.names →
    ClashesAt l i (.reservedName f.name)
  /-- A fragment further up has the name. -/
  | duplicate {f g : Fragment} {j : ℕ} : l[i]? = some f → j < i → l[j]? = some g →
    g.name = f.name → ClashesAt l i (.duplicateFragment f.name)

/-- The fragment at an index is the first that cannot keep its name. -/
structure FirstClash (l : List Fragment) (i : ℕ) (fault : BuildFault) : Prop where
  /-- It cannot keep its name, for the given reason. -/
  clashes : ClashesAt l i fault
  /-- All fragments further up can keep theirs. -/
  first : ∀ j < i, ∀ fault', ¬ ClashesAt l j fault'

/-- A fragment clashes with getters and with the names of the fragments before it. -/
theorem clashesAt_length_iff (before : List Fragment) :
    ClashesAt (before ++ f :: rest) before.length fault ↔
      f.name ∈ Getter.names ∧ fault = .reservedName f.name ∨
        f.name ∈ before.map Fragment.name ∧ fault = .duplicateFragment f.name := by
  have hf : (before ++ f :: rest)[before.length]? = some f := by simp
  constructor
  · rintro (⟨hi, hreserved⟩ | ⟨hi, hj, hg, hname⟩)
    · obtain rfl := Option.some.inj (hi.symm.trans hf)
      exact .inl ⟨hreserved, rfl⟩
    · obtain rfl := Option.some.inj (hi.symm.trans hf)
      rw [List.getElem?_append_left hj] at hg
      exact .inr ⟨List.mem_map.2 ⟨_, List.mem_of_getElem? hg, hname⟩, rfl⟩
  · rintro (⟨hreserved, rfl⟩ | ⟨hseen, rfl⟩)
    · exact .reserved hf hreserved
    · obtain ⟨g, hg, hname⟩ := List.mem_map.1 hseen
      obtain ⟨j, hj, hget⟩ := List.mem_iff_getElem.1 hg
      refine .duplicate hf hj ?_ hname
      rw [List.getElem?_append_left hj, List.getElem?_eq_getElem hj, hget]

/-- Names that are distinct and not those of getters do not clash. -/
theorem not_clashesAt (hreserved : ∀ f ∈ l, f.name ∉ Getter.names)
    (hnodup : (l.map Fragment.name).Nodup) : ¬ ClashesAt l i fault := by
  rintro (⟨hi, hname⟩ | ⟨hi, hj, hg, hname⟩)
  · exact hreserved _ (List.mem_of_getElem? hi) hname
  · refine List.nodup_iff_getElem?_ne_getElem?.1 hnodup _ i hj ?_ ?_
    · rw [List.length_map]
      exact (List.getElem?_eq_some_iff.1 hi).1
    · rw [List.getElem?_map, List.getElem?_map, hi, hg, Option.map_some, Option.map_some, hname]

/-- **The first clash** determines its index and its reason. -/
theorem FirstClash.unique (h : FirstClash l i fault) (h' : FirstClash l i' fault') :
    i = i' ∧ fault = fault' := by
  have hi : i = i' := by
    rcases Nat.lt_trichotomy i i' with hlt | heq | hlt
    · exact absurd h.clashes (h'.first i hlt fault)
    · exact heq
    · exact absurd h'.clashes (h.first i' hlt fault')
  subst hi
  refine ⟨rfl, ?_⟩
  obtain ⟨hf, hreserved⟩ | ⟨hf, hj, hg, hname⟩ := h.clashes <;>
    obtain ⟨hf', hreserved'⟩ | ⟨hf', hj', hg', hname'⟩ := h'.clashes <;>
      obtain rfl := Option.some.inj (hf.symm.trans hf')
  · rfl
  -- A name that is a getter's and has been seen clashes where it was seen.
  · exact absurd (.reserved hg' (hname' ▸ hreserved)) (h.first _ hj' _)
  · exact absurd (.reserved hg (hname ▸ hreserved')) (h.first _ hj _)
  · rfl

/-! ### The check -/

/-- **The check finds the first clash.** The names seen so far are those of the fragments further
up, none of which clashes. -/
theorem exists_firstClash_of_nameFault? (before : List Fragment)
    (hbefore : ∀ j < before.length, ∀ fault', ¬ ClashesAt (before ++ rest) j fault')
    (h : nameFault? (before.map Fragment.name).reverse rest = some fault) :
    ∃ i, FirstClash (before ++ rest) i fault := by
  induction rest generalizing before with
  | nil => exact absurd h (by simp [nameFault?])
  | cons f rest ih =>
    rw [nameFault?] at h
    split at h
    · next hreserved =>
      obtain rfl := Option.some.inj h
      exact ⟨_, (clashesAt_length_iff before).2 (.inl ⟨hreserved, rfl⟩), hbefore⟩
    · next hreserved =>
      split at h
      · next hseen =>
        obtain rfl := Option.some.inj h
        exact ⟨_, (clashesAt_length_iff before).2 (.inr ⟨List.mem_reverse.1 hseen, rfl⟩), hbefore⟩
      · next hseen =>
        have hlist : before ++ f :: rest = (before ++ [f]) ++ rest := by simp
        rw [hlist] at hbefore ⊢
        refine ih _ (fun j hj fault' hclash ↦ ?_) (by simpa using h)
        rw [List.length_append, List.length_singleton, Nat.lt_succ_iff_lt_or_eq] at hj
        rcases hj with hj | rfl
        · exact hbefore j hj fault' hclash
        · rw [← hlist, clashesAt_length_iff] at hclash
          rcases hclash with ⟨hname, -⟩ | ⟨hname, -⟩
          · exact hreserved hname
          · exact hseen (List.mem_reverse.2 hname)

theorem nameFault?_eq_none_iff :
    nameFault? [] l = none ↔
      (∀ f ∈ l, f.name ∉ Getter.names) ∧ (l.map Fragment.name).Nodup := by
  refine ⟨fun h ↦ ⟨fun f hf ↦ (name_not_mem_of_nameFault? h f hf).1, nodup_of_nameFault? h⟩, ?_⟩
  rintro ⟨hreserved, hnodup⟩
  refine Option.eq_none_iff_forall_ne_some.2 fun fault h ↦ ?_
  obtain ⟨i, hclash⟩ := exists_firstClash_of_nameFault? [] (by simp) h
  exact not_clashesAt hreserved hnodup hclash.clashes

theorem nameFault?_eq_some_iff : nameFault? [] l = some fault ↔ ∃ i, FirstClash l i fault := by
  have hfind : ∀ {fault}, nameFault? [] l = some fault → ∃ i, FirstClash l i fault := fun h ↦
    exists_firstClash_of_nameFault? [] (by simp) h
  refine ⟨hfind, fun ⟨i, hclash⟩ ↦ ?_⟩
  cases hfault : nameFault? [] l with
  | none =>
    obtain ⟨hreserved, hnodup⟩ := nameFault?_eq_none_iff.1 hfault
    exact absurd hclash.clashes (not_clashesAt hreserved hnodup)
  | some fault' =>
    obtain ⟨i', hclash'⟩ := hfind hfault
    rw [(hclash.unique hclash').2]

end Manifest

/-! ### Catalogues -/

/-- The getters that are generated are known by name. -/
theorem Getter.enabled_subset (flags : Flags) : enabled flags ⊆ names := by
  unfold enabled names
  split <;> split <;> simp

namespace Catalogue

open Manifest

variable {m : Manifest} {c : Catalogue}

/-- A catalogue comes from its manifest, and from no other. -/
theorem ofManifest_eq_ok_iff : ofManifest m = .ok c ↔ c.manifest = m := by
  unfold ofManifest
  constructor
  · intro h
    split at h
    · obtain rfl := Except.ok.inj h
      rfl
    · exact absurd h (by simp)
  · rintro rfl
    split
    · rfl
    · next hfault =>
      have hnone := nameFault?_eq_none_iff.2 ⟨c.unreserved, c.nodup⟩
      exact absurd (hnone.symm.trans hfault) (by simp)

theorem ofManifest_eq_error_iff {fault : BuildFault} :
    ofManifest m = .error fault ↔ nameFault? [] m.fragments = some fault := by
  unfold ofManifest
  split <;> simp_all

/-- The names of an interface are found to be those of the fragments that are let through. -/
theorem map_find?_functions (c : Catalogue) (flags : Flags) (name : String) :
    (c.interface flags name).functions.map c.find? = (c.emitted flags).map some := by
  rw [interface, List.map_map]
  exact c.map_find?_emitted flags

/-- No function of an interface has the name of a getter. -/
theorem not_mem_names_of_mem_functions {flags : Flags} {name n : String}
    (h : n ∈ (c.interface flags name).functions) : n ∉ Getter.names := by
  obtain ⟨f, hf, rfl⟩ := List.mem_map.1 h
  exact c.unreserved f (List.mem_filter.1 hf).1

/-- No function of an interface has the name of one of its getters. -/
theorem not_mem_getters_of_mem_functions {flags : Flags} {name n : String}
    (h : n ∈ (c.interface flags name).functions) : n ∉ (c.interface flags name).getters :=
  fun hgetter ↦ not_mem_names_of_mem_functions h (Getter.enabled_subset flags hgetter)

/-- **Which manifests are accepted.** A manifest becomes a catalogue exactly if no fragment has the
name of a getter and all names are distinct. If not, it is refused for the reason of its first
clash. The catalogue is that of the manifest, and looking up the name of a fragment finds the
fragment. So the functions of every interface have distinct names, none of which is that of a
getter, and are found to be the fragments that the flags let through. -/
theorem ofManifest_outcome (m : Manifest) :
    ((∃ c, ofManifest m = .ok c) ↔
      (∀ f ∈ m.fragments, f.name ∉ Getter.names) ∧ (m.fragments.map Fragment.name).Nodup) ∧
    (∀ fault, ofManifest m = .error fault ↔ ∃ i, FirstClash m.fragments i fault) ∧
    ∀ c, ofManifest m = .ok c →
      c.manifest = m ∧ (∀ f ∈ m.fragments, c.find? f.name = some f) ∧
      ∀ flags name, (c.interface flags name).functions.Nodup ∧
        (∀ n ∈ (c.interface flags name).functions,
          n ∉ Getter.names ∧ n ∉ (c.interface flags name).getters) ∧
        (c.interface flags name).functions.map c.find? =
          (m.fragments.filter fun f ↦ f.isEmitted flags).map some := by
  refine ⟨⟨?_, ?_⟩, fun fault ↦ ?_, fun c h ↦ ?_⟩
  · rintro ⟨c, hc⟩
    obtain rfl := ofManifest_eq_ok_iff.1 hc
    exact ⟨c.unreserved, c.nodup⟩
  · rintro ⟨hreserved, hnodup⟩
    exact ⟨⟨m, hnodup, hreserved⟩, ofManifest_eq_ok_iff.2 rfl⟩
  · rw [ofManifest_eq_error_iff, nameFault?_eq_some_iff]
  · obtain rfl := ofManifest_eq_ok_iff.1 h
    exact ⟨rfl, fun f hf ↦ find?_name hf, fun flags name ↦ ⟨c.nodup_functions flags name,
      fun n hn ↦ ⟨not_mem_names_of_mem_functions hn, not_mem_getters_of_mem_functions hn⟩,
      c.map_find?_functions flags name⟩⟩

/-- A fragment without code. -/
def label (name : String) (kind : Kind) : Fragment := ⟨name, "", kind, false, []⟩

/-- A manifest in which a name comes twice before that of a getter does. -/
def crowded : Manifest :=
  ⟨"crowded", [label "a" .normal, label "b" .debug, label "a" .external,
    label "supported_interfaces" .normal]⟩

/-- The same fragments without the two that clash. -/
def cleared : Manifest := ⟨"cleared", [label "a" .normal, label "b" .debug]⟩

/-- Of two clashes the upper one is reported, and without them the fragments are found under their
names. -/
theorem ofManifest_outcome_crowded :
    ofManifest crowded = .error (.duplicateFragment "a") ∧
      ∃ c, ofManifest cleared = .ok c ∧ c.find? "b" = some (label "b" .debug) ∧
        (c.interface (Flags.empty.enable .debug) "cleared").functions.map c.find? =
          [some (label "a" .normal), some (label "b" .debug)] := by
  have hclash : FirstClash crowded.fragments 2 (.duplicateFragment "a") := by
    refine ⟨.duplicate (f := label "a" .external) (j := 0) rfl (by decide) rfl rfl, ?_⟩
    intro j hj fault' h
    rcases (by omega : j = 0 ∨ j = 1) with rfl | rfl
    · rcases (clashesAt_length_iff []).1 h with ⟨hname, -⟩ | ⟨hname, -⟩
      · exact absurd hname (by decide)
      · exact absurd hname (by decide)
    · rcases (clashesAt_length_iff [label "a" .normal]).1 h with
        ⟨hname, -⟩ | ⟨hname, -⟩
      · exact absurd hname (by decide)
      · exact absurd hname (by decide)
  obtain ⟨-, hrefused, -⟩ := ofManifest_outcome crowded
  obtain ⟨haccepted, -, hcatalogue⟩ := ofManifest_outcome cleared
  obtain ⟨c, hc⟩ := haccepted.2 ⟨by decide, by decide⟩
  obtain ⟨-, hfind, hinterface⟩ := hcatalogue c hc
  obtain ⟨-, -, hfunctions⟩ := hinterface (Flags.empty.enable .debug) "cleared"
  exact ⟨(hrefused _).2 ⟨2, hclash⟩, c, hc, hfind (label "b" .debug) (by decide), hfunctions⟩

end Catalogue

end Provenance
