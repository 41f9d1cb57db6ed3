import Provenance.Flags

/-!
# Stores side by side

A family holds several stores of flags, which are told apart by number. A new store has some
features on or is a copy of another one; a write goes to one store.

A copy is a store of its own. It starts with the settings that the other one has at that moment, and
what is written to either later does not reach the other.
-/

namespace Provenance

/-- Stores of flags, numbered from zero. -/
structure Family where
  /-- The stores in the order in which they were made. -/
  stores : List Flags
deriving DecidableEq, Inhabited

namespace Family

/-- A change to a family. -/
inductive Change where
  /-- Makes a store with some features on. -/
  | make (features : List Feature)
  /-- Makes a copy of the store of a number. -/
  | copy (n : Nat)
  /-- Writes a setting to the store of a number. -/
  | write (n : Nat) (key : String) (value : Setting)
  /-- Switches a key on in the store of a number. -/
  | switchOn (n : Nat) (key : String)
  /-- Switches a feature on in the store of a number. -/
  | enable (n : Nat) (feature : Feature)
deriving DecidableEq, Inhabited

/-- No stores. -/
def empty : Family := ⟨[]⟩

/-- The number of stores. -/
def size (f : Family) : Nat := f.stores.length

/-- The store of a number; a number that no store has yet stands for a store without flags. -/
def store (f : Family) (n : Nat) : Flags := f.stores.getD n .empty

/-- Carries out a change. -/
def apply (f : Family) : Change → Family
  | .make features => ⟨f.stores ++ [Flags.empty.enableAll features]⟩
  | .copy n => ⟨f.stores ++ [f.store n]⟩
  | .write n key value => ⟨f.stores.modify n fun s ↦ s.set key value⟩
  | .switchOn n key => ⟨f.stores.modify n fun s ↦ s.switchOn key⟩
  | .enable n feature => ⟨f.stores.modify n fun s ↦ s.enable feature⟩

/-- Carries out changes, one after another. -/
def run (f : Family) (changes : List Change) : Family := changes.foldl apply f

/-- What changes in one store shows there, and in no other. -/
theorem store_modify (f : Family) {m : Nat} (hm : m < f.size) (n : Nat) (g : Flags → Flags) :
    (Family.mk (f.stores.modify n g)).store m = if n = m then g (f.store m) else f.store m := by
  have hthere : f.stores[m]? = some f.stores[m] := List.getElem?_eq_getElem hm
  simp only [store, List.getD_eq_getElem?_getD, List.getElem?_modify, hthere]
  split <;> rfl

end Family

end Provenance
