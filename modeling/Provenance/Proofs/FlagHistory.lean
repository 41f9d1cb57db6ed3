import Mathlib.Data.List.Basic
import Mathlib.Data.List.GetD
import Mathlib.Data.List.Induction
import Provenance.Flags.Family

/-!
# What stores of flags remember

A store of flags answers by the last write under a key. This module says so for stores side by side,
which are made, copied and written to in any order.

* **One store** that was filled by a list of writes holds under a key the setting of the last of
  them with that key (`Flags.get?_writeAll`). To make a store with some features on is to write to
  it, and so is to switch a key or a feature on.
* **Stores side by side** have a history each. A write adds to one history; a copy starts with the
  history of the other store as it is at that moment (`Family.Change.extend`). At any time every
  store is the one that its own history fills (`Family.stores_run`), which is an invariant of
  single changes (`Family.stores_apply`).

So a write is seen in the store that it goes to, and what others do is not seen at all
(`Family.store_run_eq_of_forall_write?`).
-/

namespace Provenance

/-- A key and the setting that is written there. -/
abbrev Write := String × Setting

/-- The setting of the last write under a key. -/
def lastSetting? (key : String) (writes : List Write) : Option Setting :=
  (writes.filter fun w ↦ w.1 = key).getLast?.map Prod.snd

/-- One more write counts if it has the key. -/
theorem lastSetting?_concat (key : String) (writes : List Write) (w : Write) :
    lastSetting? key (writes ++ [w]) =
      if w.1 = key then some w.2 else lastSetting? key writes := by
  rw [lastSetting?, List.filter_append]
  by_cases h : w.1 = key
  · simp [h]
  · simp [h, lastSetting?]

/-! ### One store -/

namespace Flags

/-- Writes settings, one after another. -/
def writeAll (s : Flags) (writes : List Write) : Flags :=
  writes.foldl (fun s w ↦ s.set w.1 w.2) s

theorem writeAll_concat (s : Flags) (writes : List Write) (w : Write) :
    s.writeAll (writes ++ [w]) = (s.writeAll writes).set w.1 w.2 := by
  rw [writeAll, List.foldl_append]
  rfl

/-- **The last write counts** in a store that is filled by writes. -/
theorem get?_writeAll (writes : List Write) (key : String) :
    (empty.writeAll writes).get? key = lastSetting? key writes := by
  induction writes using List.reverseRecOn with
  | nil => rfl
  | append_singleton writes w ih =>
    rw [writeAll_concat, get?_set, lastSetting?_concat, ih]
    by_cases h : w.1 = key
    · simp [h]
    · simp [h, Ne.symm h]

/-- A key is on if it holds the switch `true`. -/
theorem isOn_eq_true_iff {s : Flags} {key : String} :
    s.isOn key = true ↔ s.get? key = some (.switch true) := by
  rw [isOn]
  cases s.get? key with
  | none => simp
  | some setting => simp [Setting.isOn]

/-- A feature is on if its key holds the switch `true`. -/
theorem enabled_eq_true_iff {s : Flags} {f : Feature} :
    s.enabled f = true ↔ s.get? f.key = some (.switch true) :=
  isOn_eq_true_iff

end Flags

/-- The write that switches a feature on. -/
def Feature.write (f : Feature) : Write := (f.key, .switch true)

/-- To switch features on is to write to the store. -/
theorem Flags.enableAll_eq_writeAll (s : Flags) (features : List Feature) :
    s.enableAll features = s.writeAll (features.map Feature.write) := by
  rw [writeAll, List.foldl_map]
  rfl

/-! ### Stores side by side -/

namespace Family

namespace Change

/-- The store that a change writes to, and what it writes there. -/
def write? : Change → Option (Nat × Write)
  | make _ | copy _ => none
  | write n key value => some (n, key, value)
  | switchOn n key => some (n, key, .switch true)
  | enable n f => some (n, f.write)

/-- Histories after a change. A new store has written what it was made with; a copy has the history
that the other store has so far; a write is added to the history of its store. -/
def extend (histories : List (List Write)) : Change → List (List Write)
  | make features => histories ++ [features.map Feature.write]
  | copy n => histories ++ [histories.getD n []]
  | write n key value => histories.modify n (· ++ [(key, value)])
  | switchOn n key => histories.modify n (· ++ [(key, .switch true)])
  | enable n f => histories.modify n (· ++ [f.write])

end Change

/-- The histories of all stores that changes make. -/
def histories (changes : List Change) : List (List Write) := changes.foldl Change.extend []

/-- The history of the store of a number. -/
def history (changes : List Change) (n : Nat) : List Write := (histories changes).getD n []

/-! ### One change -/

variable {f : Family} {writes : List (List Write)}

theorem store_eq_writeAll (h : f.stores = writes.map Flags.empty.writeAll) (n : Nat) :
    f.store n = Flags.empty.writeAll (writes.getD n []) := by
  rw [store, h]
  exact List.getD_map writes [] Flags.empty.writeAll

/-- One more write to a store is one more write in its history. -/
theorem modify_eq_map_modify (h : f.stores = writes.map Flags.empty.writeAll) (n : Nat)
    (w : Write) :
    f.stores.modify n (fun s ↦ s.set w.1 w.2) =
      (writes.modify n (· ++ [w])).map Flags.empty.writeAll := by
  rw [h]
  refine List.ext_getElem? fun m ↦ ?_
  rw [List.getElem?_modify, List.getElem?_map, List.getElem?_map, List.getElem?_modify]
  cases writes[m]? with
  | none => rfl
  | some past =>
    by_cases hm : n = m
    · simp [hm, Flags.writeAll_concat]
    · simp [hm]

/-- **A change keeps stores and histories together.** -/
theorem stores_apply (h : f.stores = writes.map Flags.empty.writeAll) (change : Change) :
    (f.apply change).stores = (change.extend writes).map Flags.empty.writeAll := by
  cases change with
  | make features =>
    simp [apply, Change.extend, h, Flags.enableAll_eq_writeAll]
  | copy n =>
    simp [apply, Change.extend, h, store_eq_writeAll h n]
  | write n key value => exact modify_eq_map_modify h n (key, value)
  | switchOn n key => exact modify_eq_map_modify h n (key, .switch true)
  | enable n feature => exact modify_eq_map_modify h n feature.write

/-- A change keeps a store that it does not write to. -/
theorem store_apply_eq_of_write? {change : Change} {m : Nat} (hm : m < f.size)
    (h : ∀ w, change.write? ≠ some (m, w)) : (f.apply change).store m = f.store m := by
  have hmodify {n : Nat} (g : Flags → Flags) (hne : n ≠ m) :
      (Family.mk (f.stores.modify n g)).store m = f.store m := by
    rw [store_modify f hm, if_neg hne]
  have hne : ∀ {n : Nat} {w : Write}, change.write? = some (n, w) → n ≠ m := by
    rintro n w hw rfl
    exact h w hw
  cases change with
  | make features => exact List.getD_append _ _ _ _ hm
  | copy n => exact List.getD_append _ _ _ _ hm
  | write n key value => exact hmodify _ (hne rfl)
  | switchOn n key => exact hmodify _ (hne rfl)
  | enable n feature => exact hmodify _ (hne rfl)

/-- No store is lost. -/
theorem size_le_size_apply (f : Family) (change : Change) : f.size ≤ (f.apply change).size := by
  cases change <;> simp [apply, size]

/-! ### Runs -/

theorem run_append (f : Family) (changes more : List Change) :
    f.run (changes ++ more) = (f.run changes).run more :=
  List.foldl_append

/-- **Every store is the one that its history fills.** -/
theorem stores_run (changes : List Change) :
    (run empty changes).stores = (histories changes).map Flags.empty.writeAll := by
  induction changes using List.reverseRecOn with
  | nil => rfl
  | append_singleton changes change ih =>
    rw [run_append, histories, List.foldl_append]
    exact stores_apply ih change

/-- **Changes that write elsewhere** are not seen in a store. -/
theorem store_run_eq_of_forall_write? {changes : List Change} {m : Nat} (hm : m < f.size)
    (h : ∀ change ∈ changes, ∀ w, change.write? ≠ some (m, w)) :
    (f.run changes).store m = f.store m := by
  induction changes generalizing f with
  | nil => rfl
  | cons change rest ih =>
    obtain ⟨hchange, hrest⟩ := List.forall_mem_cons.1 h
    have hsize : m < (f.apply change).size := Nat.lt_of_lt_of_le hm (size_le_size_apply f change)
    exact (ih hsize hrest).trans (store_apply_eq_of_write? hm hchange)

/-- **Stores are independent and remember their last writes.** After any changes there is a history
for each store, and the store answers a key with the last setting that its own history writes there;
a feature is on exactly if that is the switch `true`. Whatever is done further to other stores,
copied or not, a store stays as it is and so does its history. -/
theorem get?_store_run (changes : List Change) :
    (run empty changes).size = (histories changes).length ∧
    (∀ n key, ((run empty changes).store n).get? key = lastSetting? key (history changes n)) ∧
    (∀ n f, ((run empty changes).store n).enabled f = true ↔
      lastSetting? f.key (history changes n) = some (.switch true)) ∧
    ∀ n more, n < (run empty changes).size →
      (∀ change ∈ more, ∀ w, change.write? ≠ some (n, w)) →
        (run empty (changes ++ more)).store n = (run empty changes).store n := by
  have hget : ∀ n key,
      ((run empty changes).store n).get? key = lastSetting? key (history changes n) := by
    intro n key
    rw [store_eq_writeAll (stores_run changes), Flags.get?_writeAll, history]
  refine ⟨?_, hget, fun n f ↦ ?_, fun n more hn hmore ↦ ?_⟩
  · rw [size, stores_run, List.length_map]
  · rw [Flags.enabled_eq_true_iff, hget]
  · rw [run_append]
    exact store_run_eq_of_forall_write? hn hmore

/-- A store, a copy of it and a copy of the copy. A feature is switched on, off, cleared and on
again in the first; another one is overwritten by a text in the last. -/
def siblings : List Change :=
  [.make [.debug], .copy 0, .write 0 "debug" (.switch false), .enable 1 .external, .copy 1,
    .write 2 "external" (.text "on"), .write 0 "debug" .cleared, .switchOn 0 "debug"]

/-- The copy of the copy remembers what was written before it was made and what was written to it,
and goes on to do so when its parents, and a copy of itself, are written to. -/
theorem get?_store_run_siblings :
    history siblings 2 =
      [("debug", .switch true), ("external", .switch true), ("external", .text "on")] ∧
    ((run empty siblings).store 2).get? "external" = some (.text "on") ∧
    ((run empty siblings).store 2).enabled .debug = true ∧
    (run empty (siblings ++
        [.enable 0 .inline, .write 1 "debug" .cleared, .copy 2, .switchOn 3 "external"])).store 2 =
      (run empty siblings).store 2 := by
  obtain ⟨-, hget, henabled, hstays⟩ := get?_store_run siblings
  have hhistory : history siblings 2 =
      [("debug", .switch true), ("external", .switch true), ("external", .text "on")] := by
    decide +kernel
  refine ⟨hhistory, ?_, ?_, hstays 2 _ (by decide +kernel) ?_⟩
  · rw [hget, hhistory]
    decide +kernel
  · rw [henabled, hhistory]
    decide +kernel
  · simp [Change.write?]

end Family

end Provenance
