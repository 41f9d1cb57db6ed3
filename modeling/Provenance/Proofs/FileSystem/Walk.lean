import Provenance.Proofs.FileSystem.Paths

/-!
# Where walks lead

Nothing in a file system sends a walk elsewhere than where its names lead
(`FileSystem.eq_follow_of_walk`). The files only decide whether the walk succeeds: it does if
directories stand on the way (`FileSystem.walk_cons_eq_ok_iff`). So the places on the way are
directories (`FileSystem.node?_of_mem_trail`), and names that stay can be left out
(`FileSystem.walk_steps`).
-/

namespace Provenance

namespace FileSystem

open Place

variable {fs : FileSystem} {here p : Place} {name : String} {names : List String}

/-! ### Walks -/

/-- **A step of a walk.** It needs a directory to start from and a name that is not too long. -/
theorem walk_cons_eq_ok_iff :
    fs.walk here (name :: names) = .ok p ↔
      fs.node? here = some .directory ∧ name.utf8ByteSize ≤ nameLimit ∧
        fs.walk (step here name) names = .ok p := by
  rw [walk]
  cases hnode : fs.node? here with
  | none => simp
  | some n =>
    cases n with
    | file content => simp
    | directory =>
      simp only [true_and]
      by_cases hstay : name = "."
      · have hshort : ".".utf8ByteSize ≤ nameLimit := by decide
        subst hstay
        simp [step, hshort]
      · by_cases hup : name = ".."
        · have hshort : "..".utf8ByteSize ≤ nameLimit := by decide
          subst hup
          simp [step, hshort]
        · rw [if_neg hstay, if_neg hup, step_of_ne hstay hup]
          split
          · next hlong => simp [Nat.not_le.2 hlong]
          · next hshort => simp [Nat.not_lt.1 hshort]

/-- A walk ends where its names lead. -/
theorem eq_follow_of_walk (h : fs.walk here names = .ok p) : p = follow here names := by
  induction names generalizing here with
  | nil => exact (Except.ok.inj h).symm
  | cons name rest ih => exact ih (walk_cons_eq_ok_iff.1 h).2.2

/-- All places before the end of a walk are directories. -/
theorem node?_of_mem_trail (h : fs.walk here names = .ok p) {q : Place}
    (hq : q ∈ trail here names) :
    q = p ∨ fs.node? q = some .directory := by
  induction names generalizing here with
  | nil => exact absurd hq List.not_mem_nil
  | cons name rest ih =>
    obtain ⟨-, -, hrest⟩ := walk_cons_eq_ok_iff.1 h
    rcases List.mem_cons.1 hq with rfl | hq
    · cases rest with
      | nil => exact .inl (Except.ok.inj hrest)
      | cons name' rest => exact .inr (walk_cons_eq_ok_iff.1 hrest).1
    · exact ih hrest hq

/-- Names that stay can be left out of a walk. -/
theorem walk_filter (h : fs.walk here names = .ok p) :
    fs.walk here (names.filter (· ≠ ".")) = .ok p := by
  induction names generalizing here with
  | nil => exact h
  | cons name rest ih =>
    obtain ⟨hhere, hname, hrest⟩ := walk_cons_eq_ok_iff.1 h
    by_cases hstay : name = "."
    · subst hstay
      rw [step_stay] at hrest
      simpa using ih hrest
    · rw [List.filter_cons_of_pos (by simpa using hstay)]
      exact walk_cons_eq_ok_iff.2 ⟨hhere, hname, ih hrest⟩

/-- A walk along the names of a path is one along its steps. -/
theorem walk_steps {path : String} (h : fs.walk here (Path.names path) = .ok p) :
    fs.walk here (Path.steps path) = .ok p := by
  rw [Path.steps]
  split
  · next rest _ hnames =>
    rw [hnames] at h
    obtain ⟨hhere, hname, hrest⟩ := walk_cons_eq_ok_iff.1 h
    exact walk_cons_eq_ok_iff.2 ⟨hhere, hname, walk_filter hrest⟩
  · exact walk_filter h

end FileSystem

end Provenance
