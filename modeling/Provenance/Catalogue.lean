import Provenance.Fault
import Provenance.Manifest

/-!
# Catalogues of fragments

A catalogue is a manifest whose fragments can be told apart by name, from each other and from the
getters that are generated. It is made from a manifest, or the first offending fragment is refused.
Since names are distinct, the first fragment of a name is the only one.
-/

namespace Provenance

namespace Getter

/-- The name of the getter of the interface description. -/
def ipfsAbi : String := "get_abi_ipfs"

/-- The name of the getter of the supported interfaces. -/
def interfaces : String := "supported_interfaces"

/-- The names of the generated getters. -/
def names : List String := [ipfsAbi, interfaces]

/-- The getters that are generated under given flags. -/
def enabled (flags : Flags) : List String :=
  (if flags.enabled .ipfsAbiGetter then [ipfsAbi] else [])
    ++ (if flags.enabled .interfacesGetter then [interfaces] else [])

end Getter

namespace Manifest

/-- What is wrong with the name of the first fragment that is reserved or already seen. -/
def nameFault? : List String → List Fragment → Option BuildFault
  | _, [] => none
  | seen, f :: rest =>
    if f.name ∈ Getter.names then some (.reservedName f.name)
    else if f.name ∈ seen then some (.duplicateFragment f.name)
    else nameFault? (f.name :: seen) rest

theorem name_not_mem_of_nameFault? {seen : List String} {l : List Fragment}
    (h : nameFault? seen l = none) :
    ∀ f ∈ l, f.name ∉ Getter.names ∧ f.name ∉ seen := by
  induction l generalizing seen with
  | nil => simp
  | cons f rest ih =>
    rw [nameFault?] at h
    split at h
    · exact absurd h (by simp)
    · next hreserved =>
      split at h
      · exact absurd h (by simp)
      · next hseen =>
        intro g hg
        rcases List.mem_cons.1 hg with rfl | hg
        · exact ⟨hreserved, hseen⟩
        · exact ⟨(ih h g hg).1, fun hmem ↦ (ih h g hg).2 (List.mem_cons_of_mem _ hmem)⟩

theorem nodup_of_nameFault? {seen : List String} {l : List Fragment}
    (h : nameFault? seen l = none) :
    (l.map Fragment.name).Nodup := by
  induction l generalizing seen with
  | nil => simp
  | cons f rest ih =>
    have hrest : nameFault? (f.name :: seen) rest = none := by
      rw [nameFault?] at h
      split at h
      · exact absurd h (by simp)
      · split at h
        · exact absurd h (by simp)
        · exact h
    refine List.nodup_cons.2 ⟨fun hmem ↦ ?_, ih hrest⟩
    obtain ⟨g, hg, hname⟩ := List.mem_map.1 hmem
    exact (name_not_mem_of_nameFault? hrest g hg).2 (hname ▸ List.mem_cons_self)

end Manifest

/-- A manifest with distinct fragment names, none of them that of a getter. -/
structure Catalogue where
  /-- The manifest. -/
  manifest : Manifest
  /-- No two fragments share a name. -/
  nodup : (manifest.fragments.map Fragment.name).Nodup
  /-- No fragment has the name of a getter. -/
  unreserved : ∀ f ∈ manifest.fragments, f.name ∉ Getter.names

namespace Catalogue

/-- The catalogue of a manifest. -/
def ofManifest (m : Manifest) : Except BuildFault Catalogue :=
  match h : Manifest.nameFault? [] m.fragments with
  | none =>
    .ok ⟨m, Manifest.nodup_of_nameFault? h,
      fun f hf ↦ (Manifest.name_not_mem_of_nameFault? h f hf).1⟩
  | some fault => .error fault

/-- The fragments. -/
def fragments (c : Catalogue) : List Fragment := c.manifest.fragments

/-- The fragment of a name. -/
def find? (c : Catalogue) (name : String) : Option Fragment :=
  c.fragments.find? fun f ↦ f.name = name

/-- The fragments that are emitted under given flags. -/
def emitted (c : Catalogue) (flags : Flags) : List Fragment :=
  c.fragments.filter fun f ↦ f.isEmitted flags

end Catalogue

end Provenance
