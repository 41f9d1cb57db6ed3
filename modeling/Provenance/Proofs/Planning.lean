import Provenance.Job
import Provenance.Proofs.Emission

/-!
# What a job decides

All that a job decides depends on its arguments and on the texts of two files, the manifest and the
project configuration (`Job.plan_congr`). If it decides to go ahead, it has gone through four
stages, each with its own result (`Job.Decided`): the manifest, the flags, the catalogue and the
program. The plan follows from these (`Job.plan_eq_ok_iff`).

In a file system a run is a plan, made from what the files hold at the start, and then its actions
(`Job.runIn_eq`). Until the first action the file system stays as it is.
-/

namespace Provenance

namespace Job

variable {args : Arguments} {read read' : String → Except FileFault String} {fs : FileSystem}

/-! ### Stages -/

/-- The flags of the project, if there is a configuration. -/
def projectFlags (args : Arguments) (read : String → Except FileFault String) (name : String) :
    Logged JobFault Flags :=
  match args.config with
  | none => pure .empty
  | some path => loadFlags read path (args.project.getD name)

/-- The names of the written files without their endings. -/
def basename (args : Arguments) (m : Manifest) : String := args.basename.getD m.name

/-- The plan for a program. -/
def planFor (args : Arguments) (m : Manifest) (p : Program) : Plan where
  program := p
  lookups := args.lookups.map (Lookup.resolve p.map)
  actions := (args.outDir.map fun directory ↦ actions directory (basename args m) p).getD []

theorem result_enable (flags : Flags) (features : List Feature) :
    (enable flags features).result = .ok (flags.enableAll features) := by
  rw [enable, Logged.result_foldlM, Flags.enableAll]
  induction features generalizing flags with
  | nil => rfl
  | cons f rest ih => exact ih (flags.enable f)

/-- **What a plan comes to**, without the records that are left on the way. -/
theorem result_plan (args : Arguments) (read : String → Except FileFault String) :
    (plan args read).result = do
      let m ← loadManifest read args.manifest
      let base ← (projectFlags args read m.name).result
      let flags := base.enableAll args.features
      let c ← (Catalogue.ofManifest m).mapError .build
      let p ← (c.compile flags m.name (basename args m)).result.mapError .build
      return planFor args m p := by
  rw [plan, Logged.result_bind, Logged.result_ofExcept]
  cases loadManifest read args.manifest with
  | error fault => rfl
  | ok m =>
    unfold projectFlags
    -- the records are dropped one stage after another
    cases args.config <;>
      simp only [Except.bind, Logged.result_bind, Logged.result_pure, Logged.result_record,
        Logged.result_ofExcept, Logged.result_mapError, result_enable] <;> rfl

/-- The stages of a job that goes ahead. -/
structure Decided (args : Arguments) (read : String → Except FileFault String) (m : Manifest)
    (flags : Flags) (c : Catalogue) (p : Program) : Prop where
  /-- The manifest has been read. -/
  loaded : loadManifest read args.manifest = .ok m
  /-- The flags are those of the project, with the features of the command line switched on. -/
  collected : (projectFlags args read m.name).result.map (·.enableAll args.features) = .ok flags
  /-- The names of the fragments can be told apart. -/
  catalogued : Catalogue.ofManifest m = .ok c
  /-- The program has been built. -/
  compiled : (c.compile flags m.name (basename args m)).result = .ok p

/-- **A job goes ahead** exactly if no stage fails, and then by the plan for its program. -/
theorem plan_eq_ok_iff {p : Plan} :
    (plan args read).result = .ok p ↔
      ∃ m flags c program, Decided args read m flags c program ∧ p = planFor args m program := by
  rw [result_plan]
  constructor
  · intro h
    obtain ⟨m, hm, h⟩ := exists_of_bind_eq_ok h
    obtain ⟨base, hbase, h⟩ := exists_of_bind_eq_ok h
    obtain ⟨c, hc, h⟩ := exists_of_bind_eq_ok h
    obtain ⟨program, hprogram, h⟩ := exists_of_bind_eq_ok h
    exact ⟨m, _, c, program, ⟨hm, map_eq_ok_iff.2 ⟨base, hbase, rfl⟩, mapError_eq_ok_iff.1 hc,
      mapError_eq_ok_iff.1 hprogram⟩, (Except.ok.inj h).symm⟩
  · rintro ⟨m, flags, c, program, h, rfl⟩
    obtain ⟨base, hbase, rfl⟩ := map_eq_ok_iff.1 h.collected
    have hc := mapError_eq_ok_iff (f := JobFault.build).2 h.catalogued
    have hprogram := mapError_eq_ok_iff (f := JobFault.build).2 h.compiled
    simp only [h.loaded, hbase, hc, hprogram, bind, Except.bind]
    rfl

theorem Decided.plan_eq {m : Manifest} {flags : Flags} {c : Catalogue} {p : Program}
    (h : Decided args read m flags c p) : (plan args read).result = .ok (planFor args m p) :=
  plan_eq_ok_iff.2 ⟨m, flags, c, p, h, rfl⟩

theorem loadManifest_ne_unwritable (manifest path : String) (fault : FileFault) :
    loadManifest read manifest ≠ .error (.unwritable path fault) := by
  intro h
  rcases eq_error_or_of_bind_eq_error h with h | ⟨text, -, h⟩
  · simp [mapError_eq_error_iff] at h
  · simp [mapError_eq_error_iff] at h

theorem projectFlags_ne_unwritable (name path : String) (fault : FileFault) :
    (projectFlags args read name).result ≠ .error (.unwritable path fault) := by
  unfold projectFlags
  split
  · simp
  · intro h
    rcases Logged.eq_error_or_of_result_bind_eq_error h with h | ⟨text, -, h⟩
    · simp [mapError_eq_error_iff] at h
    rcases Logged.eq_error_or_of_result_bind_eq_error h with h | ⟨-, -, h⟩
    · simp at h
    rcases Logged.eq_error_or_of_result_bind_eq_error h with h | ⟨configuration, -, h⟩
    · simp [mapError_eq_error_iff] at h
    split at h
    · simp at h
    · simp [result_enable] at h

/-- Nothing has been written when a plan is made, so nothing of that kind fails. -/
theorem plan_ne_unwritable (path : String) (fault : FileFault) :
    (plan args read).result ≠ .error (.unwritable path fault) := by
  intro h
  rw [result_plan] at h
  rcases eq_error_or_of_bind_eq_error h with h | ⟨m, -, h⟩
  · exact loadManifest_ne_unwritable _ path fault h
  rcases eq_error_or_of_bind_eq_error h with h | ⟨base, -, h⟩
  · exact projectFlags_ne_unwritable _ path fault h
  rcases eq_error_or_of_bind_eq_error h with h | ⟨c, -, h⟩
  · simp [mapError_eq_error_iff] at h
  rcases eq_error_or_of_bind_eq_error h with h | ⟨p, -, h⟩
  · simp [mapError_eq_error_iff] at h
  · exact absurd h (by simp [pure, Except.pure])

/-! ### What is read -/

theorem loadManifest_congr {path : String} (h : read path = read' path) :
    loadManifest read path = loadManifest read' path := by
  rw [loadManifest, loadManifest, h]

theorem loadFlags_congr {path : String} (h : read path = read' path) :
    loadFlags read path = loadFlags read' path := by
  funext name
  rw [loadFlags, loadFlags, h]

/-- **A plan depends on two files**: the manifest and the project configuration. -/
theorem plan_congr (h : ∀ path ∈ inputs args, read path = read' path) :
    plan args read = plan args read' := by
  unfold plan
  rw [loadManifest_congr (h args.manifest List.mem_cons_self)]
  cases hconfig : args.config with
  | none => rfl
  | some path =>
    have hpath : path ∈ inputs args := by simp [inputs, hconfig]
    simp only [loadFlags_congr (h path hpath)]

theorem run_readAll (fs : FileSystem) (paths : List String) :
    (readAll accessIn paths).run fs = (paths.map fun path ↦ (path, fs.readText path), fs) := by
  induction paths with
  | nil => rfl
  | cons path rest ih =>
    show ((path, fs.readText path) :: ((readAll accessIn rest).run fs).1,
      ((readAll accessIn rest).run fs).2) = _
    rw [ih]
    rfl

theorem lookup_map_of_mem {α : Type} {paths : List String} {path : String} (h : path ∈ paths)
    (f : String → α) : (paths.map fun path ↦ (path, f path)).lookup path = some (f path) := by
  induction paths with
  | nil => exact absurd h List.not_mem_nil
  | cons first rest ih =>
    rw [List.map_cons, List.lookup_cons]
    by_cases hpath : path = first
    · rw [beq_iff_eq.2 hpath, hpath]
    · rw [beq_false_of_ne hpath]
      exact ih (List.mem_of_ne_of_mem hpath h)

/-! ### Runs -/

/-- **A run is a plan and its actions.** -/
theorem runIn_eq (fs : FileSystem) (args : Arguments) :
    runIn fs args =
      match (plan args fs.readText).result with
      | .error fault => (⟨(plan args fs.readText).records, .error fault⟩, fs)
      | .ok p =>
        let (done, after) := (commit accessIn p.actions).run fs
        (⟨(plan args fs.readText).records ++ done.records, done.result.map p.report⟩, after) := by
  have hplan : plan args (fun path ↦ (((inputs args).map fun path ↦ (path, fs.readText path)).lookup
      path).getD (.error .missing)) = plan args fs.readText :=
    plan_congr fun path hpath ↦ by rw [lookup_map_of_mem hpath, Option.getD_some]
  have hread := run_readAll fs (inputs args)
  unfold runIn run
  simp only [bind, StateT.bind]
  rw [StateT.run] at hread
  rw [hread]
  dsimp only
  rw [hplan]
  cases hresult : (plan args fs.readText).result <;> rfl

/-- **A run that succeeds** has been decided on, and all its actions have succeeded. -/
theorem exists_of_runIn_eq_ok {r : Report} (h : (runIn fs args).1.result = .ok r) :
    ∃ m flags c p done written, Decided args fs.readText m flags c p ∧
      (commit accessIn (planFor args m p).actions).run fs = (done, (runIn fs args).2) ∧
      done.result = .ok written ∧ r = (planFor args m p).report written := by
  rw [runIn_eq] at h ⊢
  split at h
  · exact absurd h (by simp)
  · next p hplan =>
    obtain ⟨m, flags, c, program, hdecided, rfl⟩ := plan_eq_ok_iff.1 hplan
    obtain ⟨written, hwritten, rfl⟩ := map_eq_ok_iff.1 h
    exact ⟨m, flags, c, program, _, written, hdecided, rfl, hwritten, rfl⟩

/-- **A run that fails** has not been decided on, or one of its actions has failed. -/
theorem exists_of_runIn_eq_error {fault : JobFault}
    (h : (runIn fs args).1.result = .error fault) :
    (plan args fs.readText).result = .error fault ∧ (runIn fs args).2 = fs ∨
      ∃ m flags c p done, Decided args fs.readText m flags c p ∧
        (commit accessIn (planFor args m p).actions).run fs = (done, (runIn fs args).2) ∧
        done.result = .error fault := by
  rw [runIn_eq] at h ⊢
  split at h
  · next hplan =>
    rw [hplan]
    exact .inl ⟨congrArg Except.error (Except.error.inj h), rfl⟩
  · next p hplan =>
    obtain ⟨m, flags, c, program, hdecided, rfl⟩ := plan_eq_ok_iff.1 hplan
    exact .inr ⟨m, flags, c, program, _, hdecided, rfl, map_eq_error_iff.1 h⟩

end Job

end Provenance
