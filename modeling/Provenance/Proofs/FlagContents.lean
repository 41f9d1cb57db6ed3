import Mathlib.Data.List.Basic
import Mathlib.Data.List.Induction
import Mathlib.Data.List.Nodup
import Provenance.Proofs.FlagHistory
import Provenance.Proofs.LastWrite
import Provenance.Proofs.LocationOrder

/-!
# Stores of flags compare by content

A store is what it answers: two stores are equal exactly if they hold the same settings under the
same keys, whatever was written to them before, and in which order. The keys that are on are listed
in the order of their bytes, each once.

**Nothing depends on a place in memory.** A hash table lists its pairs in no particular order, and a
write may change all places (`Lists`). What is listed is the same at all times
(`Listing.of_lists`, an invariant of single writes): every setting of the store, once. Two things
are computed from such a list, and both are as if the pairs stood in the order of their keys.

* Lists are compared by their lengths and by looking up the pairs of the one in the other
  (`SameContents`). That is equality of the stores (`Listing.sameContents_iff`), because different
  keys that are all found in a list of the same length leave nothing out.
* Keys that are on are picked out and sorted, by whatever means. There is one way to do so
  (`Listing.sortedOn_iff`).
-/

namespace Provenance

namespace Flags

variable {s t : Flags} {l l' : List Write}

/-! ### What a store answers -/

/-- A store is what it answers. -/
theorem ext_get? (h : ∀ key, s.get? key = t.get? key) : s = t := by
  obtain ⟨settings⟩ := s
  obtain ⟨settings'⟩ := t
  exact congrArg Flags.mk (Table.ext_find? h)

/-! ### Keys that are on -/

/-- **The keys that are on**, and no others, are listed. -/
theorem mem_enabledKeys_iff {key : String} : key ∈ s.enabledKeys ↔ s.isOn key = true := by
  rw [isOn_eq_true_iff, enabledKeys, List.mem_map]
  constructor
  · rintro ⟨⟨k, setting⟩, hmem, rfl⟩
    obtain ⟨hentry, hon⟩ := List.mem_filter.1 hmem
    obtain rfl : setting = .switch true := by simpa [Setting.isOn] using hon
    exact Table.find?_eq_some_iff.2 hentry
  · intro h
    exact ⟨(key, .switch true), List.mem_filter.2 ⟨Table.find?_eq_some_iff.1 h, rfl⟩, rfl⟩

/-- **They ascend strictly** in the order of their bytes. -/
theorem pairwise_enabledKeys (s : Flags) :
    s.enabledKeys.Pairwise fun k k' ↦ utf8 k < utf8 k' := by
  rw [enabledKeys, List.pairwise_map]
  refine (s.settings.ascending.filter _).imp fun h ↦ ?_
  rw [utf8_lt_iff]
  exact compare_lt_iff_lt.1 h

/-- A list of keys that ascends is determined by the keys that it holds. -/
theorem eq_of_perm_of_ascending {ks ks' : List String} (hperm : ks.Perm ks')
    (hks : ks.Pairwise fun k k' ↦ utf8 k ≤ utf8 k')
    (hks' : ks'.Pairwise fun k k' ↦ utf8 k < utf8 k') : ks = ks' := by
  have hle : ks.Pairwise (· ≤ ·) := hks.imp utf8_le_iff.1
  have hlt : ks'.Pairwise (· < ·) := hks'.imp utf8_lt_iff.1
  exact hperm.eq_of_pairwise (fun _ _ _ _ ↦ le_antisymm) hle (hlt.imp le_of_lt)

/-- Stores list the same keys exactly if the same keys are on. -/
theorem enabledKeys_eq_iff :
    s.enabledKeys = t.enabledKeys ↔ ∀ key, s.isOn key = t.isOn key := by
  constructor
  · intro h key
    rw [Bool.eq_iff_iff, ← mem_enabledKeys_iff, ← mem_enabledKeys_iff, h]
  · intro h
    have hnodup : ∀ u : Flags, u.enabledKeys.Nodup := fun u ↦
      u.pairwise_enabledKeys.imp fun hlt ↦ ne_of_lt (utf8_lt_iff.1 hlt)
    have hperm : s.enabledKeys.Perm t.enabledKeys := by
      refine (List.perm_ext_iff_of_nodup (hnodup s) (hnodup t)).2 fun key ↦ ?_
      rw [mem_enabledKeys_iff, mem_enabledKeys_iff, h]
    have hle : s.enabledKeys.Pairwise fun k k' ↦ utf8 k ≤ utf8 k' :=
      s.pairwise_enabledKeys.imp fun hlt ↦ utf8_le_iff.2 (le_of_lt (utf8_lt_iff.1 hlt))
    exact eq_of_perm_of_ascending hperm hle t.pairwise_enabledKeys

/-! ### Lists of what a store holds -/

/-- A list holds every setting of the store, once. -/
structure Listing (s : Flags) (l : List Write) : Prop where
  /-- The keys are different. -/
  nodup : (l.map Prod.fst).Nodup
  /-- The pairs are those of the store. -/
  mem_iff : ∀ p, p ∈ l ↔ s.get? p.1 = some p.2

/-- How lists of pairs are compared: one is as long as the other and all of its pairs are found
there. -/
def SameContents (l l' : List Write) : Prop :=
  l.length = l'.length ∧ ∀ p ∈ l, l'.lookup p.1 = some p.2

/-- The keys that are on are picked out of a list and sorted, by whatever means. -/
structure SortedOn (l : List Write) (ks : List String) : Prop where
  /-- They are the ones that are on. -/
  perm : ks.Perm ((l.filter fun p ↦ p.2.isOn).map Prod.fst)
  /-- They ascend by their bytes. -/
  ascending : ks.Pairwise fun k k' ↦ utf8 k ≤ utf8 k'

namespace Listing

/-- The settings in the order of their keys are such a list. -/
theorem entries (s : Flags) : s.Listing s.settings.entries :=
  ⟨s.settings.nodup_keys, fun _ ↦ Table.find?_eq_some_iff.symm⟩

/-- In such a list a key is found as in the store. -/
theorem lookup_eq (h : s.Listing l) (key : String) : l.lookup key = s.get? key :=
  Option.ext fun v ↦ (Table.lookup_eq_some_iff h.nodup).trans (h.mem_iff (key, v))

/-- Two such lists differ in order only. -/
theorem perm (h : s.Listing l) (h' : s.Listing l') : l.Perm l' :=
  (List.perm_ext_iff_of_nodup (.of_map _ h.nodup) (.of_map _ h'.nodup)).2 fun p ↦
    (h.mem_iff p).trans (h'.mem_iff p).symm

/-- **A write keeps lists and stores together**, wherever it moves the pairs. -/
theorem set (h : s.Listing l) (key : String) (value : Setting)
    (hl' : l'.Perm ((key, value) :: l.filter fun p ↦ p.1 ≠ key)) :
    (s.set key value).Listing l' := by
  constructor
  · rw [(hl'.map Prod.fst).nodup_iff, List.map_cons, List.nodup_cons]
    refine ⟨fun hmem ↦ ?_, h.nodup.sublist (List.filter_sublist.map _)⟩
    obtain ⟨p, hp, hkey⟩ := List.mem_map.1 hmem
    exact of_decide_eq_true (List.mem_filter.1 hp).2 hkey
  · rintro ⟨k, v⟩
    rw [hl'.mem_iff, List.mem_cons, List.mem_filter, h.mem_iff, get?_set]
    rcases eq_or_ne k key with rfl | hne
    · simp [eq_comm]
    · simp [hne]

/-- **Comparing such lists is comparing the stores.** -/
theorem sameContents_iff (h : s.Listing l) (h' : t.Listing l') : SameContents l l' ↔ s = t := by
  constructor
  · rintro ⟨hlength, hfound⟩
    have hsub : l ⊆ l' := fun p hp ↦ (Table.lookup_eq_some_iff h'.nodup).1 (hfound p hp)
    -- The pairs of `l` are different, so there is no room for others in `l'`.
    have hperm : l.Perm l' :=
      ((List.Nodup.of_map _ h.nodup).subperm hsub).perm_of_length_le hlength.ge
    refine ext_get? fun key ↦ Option.ext fun v ↦ ?_
    rw [← h.mem_iff (key, v), ← h'.mem_iff (key, v), hperm.mem_iff]
  · rintro rfl
    refine ⟨(h.perm h').length_eq, fun p hp ↦ ?_⟩
    rw [h'.lookup_eq, ← h.mem_iff]
    exact hp

/-- **Sorting the keys that are on** gives the listed ones. -/
theorem sortedOn_iff (h : s.Listing l) {ks : List String} :
    SortedOn l ks ↔ ks = s.enabledKeys := by
  have hperm : ((l.filter fun p ↦ p.2.isOn).map Prod.fst).Perm s.enabledKeys :=
    ((h.perm (entries s)).filter _).map _
  constructor
  · intro hks
    exact eq_of_perm_of_ascending (hks.perm.trans hperm) hks.ascending s.pairwise_enabledKeys
  · rintro rfl
    exact ⟨hperm.symm, s.pairwise_enabledKeys.imp fun h ↦ utf8_le_iff.2 (utf8_lt_iff.1 h).le⟩

end Listing

/-! ### Histories -/

/-- A way to write to a store. -/
inductive Act where
  /-- A setting is written under a key. -/
  | set (key : String) (value : Setting)
  /-- A key is switched on. -/
  | switchOn (key : String)

/-- What is written. -/
def Act.write : Act → Write
  | set key value => (key, value)
  | switchOn key => (key, .switch true)

/-- The store after an act. -/
def act (s : Flags) : Act → Flags
  | .set key value => s.set key value
  | .switchOn key => s.switchOn key

/-- What acts make of a store without flags. -/
def ofActs (acts : List Act) : Flags := acts.foldl act empty

/-- Lists in which a hash table can hold its pairs after acts. An act replaces the pair of its key,
and then all pairs can be in other places. -/
inductive Lists : List Act → List Write → Prop
  | nil : Lists [] []
  | concat {acts : List Act} {l l' : List Write} {a : Act} : Lists acts l →
    l'.Perm (a.write :: l.filter fun p ↦ p.1 ≠ a.write.1) → Lists (acts ++ [a]) l'

variable {acts acts' : List Act}

/-- Every act is a write. -/
theorem act_eq_set (s : Flags) (a : Act) : s.act a = s.set a.write.1 a.write.2 := by
  cases a <;> rfl

theorem ofActs_concat (acts : List Act) (a : Act) :
    ofActs (acts ++ [a]) = (ofActs acts).set a.write.1 a.write.2 := by
  rw [ofActs, List.foldl_append, ← act_eq_set]
  rfl

/-- Acts fill a store by their writes. -/
theorem ofActs_eq_writeAll (acts : List Act) :
    ofActs acts = empty.writeAll (acts.map Act.write) := by
  induction acts using List.reverseRecOn with
  | nil => rfl
  | append_singleton acts a ih =>
    rw [ofActs_concat, ih, List.map_append, List.map_singleton, writeAll_concat]

/-- **A hash table holds every setting once**, at all times. -/
theorem Listing.of_lists (h : Lists acts l) : (ofActs acts).Listing l := by
  induction h with
  | nil => exact .entries empty
  | concat _ hperm ih =>
    rw [ofActs_concat]
    exact ih.set _ _ hperm

/-- The lists after acts are all those that hold the settings of the store. -/
theorem lists_iff_perm : Lists acts l ↔ l.Perm (ofActs acts).settings.entries := by
  refine ⟨fun h ↦ (Listing.of_lists h).perm (.entries _), fun h ↦ ?_⟩
  induction acts using List.reverseRecOn generalizing l with
  | nil =>
    obtain rfl : l = [] := List.perm_nil.1 h
    exact .nil
  | append_singleton acts a ih =>
    rw [ofActs_concat] at h
    have hset := (Listing.entries (ofActs acts)).set a.write.1 a.write.2 (.refl _)
    exact .concat (ih (.refl _)) (h.trans ((Listing.entries _).perm hset))

/-- **Stores compare by content.** After any acts, two stores are equal exactly if they answer alike
under every key, and each answers with its last write there. The keys that are listed ascend
strictly by their bytes and are those that are on, so the same keys are listed exactly if the same
keys are on. And so it is with a hash table, in whatever order it holds its pairs: comparing two of
them decides equality of the stores, and picking out the keys that are on and sorting them gives the
listed ones. -/
theorem ofActs_eq_ofActs_iff (acts acts' : List Act) :
    (ofActs acts = ofActs acts' ↔ ∀ key, (ofActs acts).get? key = (ofActs acts').get? key) ∧
    (∀ key, (ofActs acts).get? key = lastSetting? key (acts.map Act.write)) ∧
    (ofActs acts).enabledKeys.Pairwise (fun k k' ↦ utf8 k < utf8 k') ∧
    (∀ key, key ∈ (ofActs acts).enabledKeys ↔ (ofActs acts).isOn key = true) ∧
    ((ofActs acts).enabledKeys = (ofActs acts').enabledKeys ↔
      ∀ key, (ofActs acts).isOn key = (ofActs acts').isOn key) ∧
    ∀ l l', Lists acts l → Lists acts' l' →
      (SameContents l l' ↔ ofActs acts = ofActs acts') ∧
      (∀ key, l.lookup key = (ofActs acts).get? key) ∧
      ∀ ks, SortedOn l ks ↔ ks = (ofActs acts).enabledKeys := by
  refine ⟨⟨fun h key ↦ by rw [h], ext_get?⟩, fun key ↦ ?_, pairwise_enabledKeys _,
    fun key ↦ mem_enabledKeys_iff, enabledKeys_eq_iff, fun l l' hl hl' ↦ ?_⟩
  · rw [ofActs_eq_writeAll, get?_writeAll]
  · have h : (ofActs acts).Listing l := .of_lists hl
    exact ⟨h.sameContents_iff (.of_lists hl'), h.lookup_eq, fun ks ↦ h.sortedOn_iff⟩

/-- Acts that switch two keys on, the greater one first, and overwrite a third. -/
def toggles : List Act :=
  [.set "b" .cleared, .switchOn "z", .switchOn "Z", .set "b" (.switch false)]

/-- Acts in another order, with repetitions, that end with the same settings. -/
def reordered : List Act :=
  [.switchOn "Z", .set "b" (.switch false), .set "z" (.text "on"), .switchOn "Z", .switchOn "z"]

/-- The stores are equal, lists of different order compare as equal and give the same keys, and a
key that is cleared makes a difference. -/
theorem ofActs_eq_ofActs_iff_reordered :
    let l : List Write := [("z", .switch true), ("b", .switch false), ("Z", .switch true)]
    let l' : List Write := [("b", .switch false), ("Z", .switch true), ("z", .switch true)]
    Lists toggles l ∧ Lists reordered l' ∧ SameContents l l' ∧ ofActs toggles = ofActs reordered ∧
      SortedOn l ["Z", "z"] ∧ ofActs toggles ≠ ofActs (reordered ++ [.set "c" .cleared]) := by
  intro l l'
  have hl : Lists toggles l := lists_iff_perm.2 (by decide +kernel)
  have hl' : Lists reordered l' := lists_iff_perm.2 (by decide +kernel)
  have hsame : SameContents l l' := ⟨by decide, by decide⟩
  obtain ⟨-, -, -, -, -, hlists⟩ := ofActs_eq_ofActs_iff toggles reordered
  obtain ⟨hcompare, -, hsorted⟩ := hlists l l' hl hl'
  obtain ⟨hanswers, hlast, -⟩ :=
    ofActs_eq_ofActs_iff (reordered ++ [.set "c" .cleared]) toggles
  refine ⟨hl, hl', hsame, hcompare.1 hsame, (hsorted _).2 (by decide +kernel), fun heq ↦ ?_⟩
  have hcleared : (ofActs (reordered ++ [.set "c" .cleared])).get? "c" = some .cleared := by
    rw [hlast]
    decide +kernel
  have habsent : (ofActs toggles).get? "c" = none := by decide +kernel
  exact absurd ((hanswers.1 heq.symm "c").symm.trans hcleared) (by simp [habsent])

end Flags

end Provenance
