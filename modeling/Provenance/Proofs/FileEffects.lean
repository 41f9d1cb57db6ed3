import Provenance.Proofs.FileSystem.Gains
import Provenance.Proofs.InterfaceText
import Provenance.Proofs.Planning

/-!
# What a job does to files

A job changes files only in its last stage, by a list of actions: it makes the output directory and
writes three files below it. This module says what is there afterwards, however the run ends.

* **An action** has deposits, the nodes that it is to leave, in order (`Action.deposits`). If it
  succeeds it leaves all of them, and if it fails a beginning of them
  (`Job.gains_of_performIn_eq_ok`, `Job.exists_gains_of_performIn_eq_error`).
* **A file may be cut off** where its writing stops. It has been opened by then, so it stands in
  place of what was there before, with too few bytes. Of what is missing this is all that can be
  there (`Remains`).
* **Actions one by one** leave their deposits up to the first that fails
  (`Job.gains_of_commit_eq_ok`, `Job.exists_gains_of_commit_eq_error`). This needs that no file is
  written again (`FilesOnce`).
* **The three files** differ in the endings of their names alone. An ending is always part of the
  last name, so the files stand side by side, whatever slashes and dots come before
  (`FileSystem.exists_place_join_append`).

The result for whole runs is `Job.runIn_effects`. It cannot be had without the cut file: there are
disks with room for a few bytes only (`Job.not_forall_gains_made`).
-/

namespace Provenance

open FileSystem

/-! ### Files side by side -/

/-- **Files that differ in their endings** stand side by side. -/
theorem FileSystem.exists_place_join_append (fs : FileSystem) (directory name : String) :
    ∃ here last, ∀ ending, Path.IsEnding ending →
      fs.place (Path.join directory (name ++ ending)) = here ++ [last ++ ending] := by
  obtain ⟨last, hnames⟩ := Path.exists_names_append (Path.join directory name)
  refine ⟨Place.follow (fs.origin (Path.join directory name))
    (Path.folder (Path.join directory name)), last, fun ending h ↦ ?_⟩
  rw [Path.join_append h.isAbsolute, place, origin, Path.isAbsolute_append h.isAbsolute,
    hnames ending h, Place.follow_append, Place.follow_cons, h.step_append]
  rfl

/-! ### Actions -/

namespace Action

/-- The nodes that an action leaves, in the order in which they are made. -/
def deposits (fs : FileSystem) : Action → List (Place × Node)
  | makeDirectories path => directoriesAt (Place.trail (fs.origin path) (Path.steps path))
  | writeFile path content => [(fs.place path, .file content.toUTF8)]

theorem deposits_congr {fs fs' : FileSystem} (h : fs'.current = fs.current) (action : Action) :
    action.deposits fs' = action.deposits fs := by
  cases action <;> simp only [deposits, place, origin, h]

end Action

/-- No file is written again. -/
def FilesOnce (nodes : List (Place × Node)) : Prop :=
  nodes.Pairwise fun q r ↦ q.2 = .directory ∨ q.1 ≠ r.1

/-! ### What stands of a file -/

/-- What is left of the missing nodes when a path cannot be written. -/
inductive Remains (fs : FileSystem) (path : String) (cause : FileFault) :
    List (Place × Node) → List (Place × Node) → Prop
  /-- None of them is there. -/
  | nothing (missing : List (Place × Node)) : Remains fs path cause missing []
  /-- The first is a file. It was opened, and holds as many bytes as there was room for. -/
  | cut {content : ByteArray} {room : ℕ} (rest : List (Place × Node))
      (hlimit : fs.limits.lookup (fs.place path) = some (.full room cause))
      (hroom : room < content.size) :
      Remains fs path cause ((fs.place path, .file content) :: rest)
        [(fs.place path, .file (content.extract 0 room))]

namespace Remains

variable {fs fs' : FileSystem} {path : String} {cause : FileFault}
  {nodes missing left : List (Place × Node)}

theorem append (h : Remains fs path cause missing left) (more : List (Place × Node)) :
    Remains fs path cause (missing ++ more) left := by
  cases h with
  | nothing => exact .nothing _
  | cut rest hlimit hroom => exact .cut (rest ++ more) hlimit hroom

/-- What is left is at the place of a file that is missing. -/
theorem exists_of_mem {q : Place × Node} (h : Remains fs path cause missing left) (hq : q ∈ left) :
    ∃ r ∈ missing, r.1 = q.1 ∧ r.2 ≠ .directory := by
  cases h with
  | nothing => exact absurd hq List.not_mem_nil
  | cut rest =>
    obtain rfl := List.mem_singleton.1 hq
    exact ⟨_, List.mem_cons_self, rfl, by simp⟩

theorem of_gains (hgains : fs.Gains nodes fs') (h : Remains fs' path cause missing left) :
    Remains fs path cause missing left := by
  cases h with
  | nothing => exact .nothing _
  | cut rest hlimit hroom =>
    rw [hgains.place_eq] at hlimit ⊢
    rw [hgains.limits] at hlimit
    exact .cut rest hlimit hroom

end Remains

/-- How far an action has come that fails: of its deposits some have been made and others are
missing, and of the missing ones something may be left. -/
structure Action.Stopped (fs : FileSystem) (action : Action) (cause : FileFault)
    (made missing left : List (Place × Node)) : Prop where
  /-- The deposits are made in order. -/
  deposits_eq : action.deposits fs = made ++ missing
  /-- What is left belongs to the first that is missing. -/
  remains : Remains fs action.path cause missing left
  /-- A file that cannot be written is missing. -/
  missing_ne_nil : action.written ≠ [] → missing ≠ []

theorem Action.Stopped.of_gains {fs fs' : FileSystem} {action : Action} {cause : FileFault}
    {nodes made missing left : List (Place × Node)} (hgains : fs.Gains nodes fs')
    (h : action.Stopped fs' cause made missing left) :
    action.Stopped fs cause made missing left :=
  ⟨(action.deposits_congr hgains.current).symm.trans h.deposits_eq, h.remains.of_gains hgains,
    h.missing_ne_nil⟩

namespace Job

variable {fs fs' : FileSystem} {action : Action} {actions : List Action}

/-- **An action that succeeds** leaves all that it is to leave. -/
theorem gains_of_performIn_eq_ok (h : performIn fs action = (fs', .ok ())) :
    fs.Gains (action.deposits fs) fs' := by
  cases action with
  | makeDirectories path =>
    obtain ⟨i, hgains, hall⟩ := exists_gains_of_makeDirectories h
    rwa [List.take_of_length_le (hall rfl)] at hgains
  | writeFile path content =>
    rw [performIn] at h
    split at h
    · next written hwrite =>
      obtain rfl := (Prod.mk.inj h).1
      exact (gains_of_writeText hwrite).2
    · exact absurd (Prod.mk.inj h).2 (by simp)

/-- **An action that fails** leaves some of the directories that it was to make. A file is not
touched, or is cut off. -/
theorem exists_gains_of_performIn_eq_error {cause : FileFault}
    (h : performIn fs action = (fs', .error cause)) :
    ∃ made missing left, action.Stopped fs cause made missing left ∧
      fs.Gains (made ++ left) fs' := by
  cases action with
  | makeDirectories path =>
    obtain ⟨i, hgains, -⟩ := exists_gains_of_makeDirectories h
    refine ⟨directoriesAt ((Place.trail (fs.origin path) (Path.steps path)).take i),
      directoriesAt ((Place.trail (fs.origin path) (Path.steps path)).drop i), [],
      ⟨?_, .nothing _, fun hwritten ↦ absurd rfl hwritten⟩, ?_⟩
    · rw [← directoriesAt_append, List.take_append_drop]
      rfl
    · rwa [List.append_nil]
  | writeFile path content =>
    rw [performIn] at h
    split at h
    · exact absurd (Prod.mk.inj h).2 (by simp)
    · next fault left hwrite =>
      obtain ⟨rfl, hcause⟩ := Prod.mk.inj h
      obtain rfl : fault = cause := Except.error.inj hcause
      rcases gains_of_writeText_eq_error hwrite with rfl | ⟨room, hstop, hgains⟩
      · exact ⟨[], _, [], ⟨rfl, .nothing _, fun _ ↦ List.cons_ne_nil _ _⟩, Gains.refl _⟩
      · obtain ⟨hlimit, hroom⟩ := stop?_eq_some_iff.1 hstop
        exact ⟨[], _, _, ⟨rfl, .cut [] hlimit hroom, fun _ ↦ List.cons_ne_nil _ _⟩, hgains⟩

theorem run_commit_cons (fs : FileSystem) (action : Action) (rest : List Action) :
    (commit accessIn (action :: rest)).run fs =
      match performIn fs action with
      | (made, .error fault) => (.fail (.unwritable action.path fault), made)
      | (made, .ok ()) =>
        let (more, after) := (commit accessIn rest).run made
        (⟨action.notices ++ more.records, more.result.map (action.written ++ ·)⟩, after) := by
  unfold StateT.run
  simp only [commit, accessIn, bind, StateT.bind]
  cases performIn fs action with
  | mk made done => cases done <;> rfl

/-- The deposits of later actions are the same after an earlier one. -/
theorem flatMap_deposits_congr {nodes : List (Place × Node)} (h : fs.Gains nodes fs')
    (actions : List Action) :
    actions.flatMap (Action.deposits fs') = actions.flatMap (Action.deposits fs) :=
  congrArg actions.flatMap (funext fun action ↦ action.deposits_congr h.current)

/-- **Actions that succeed** leave all that they are to leave. -/
theorem gains_of_commit_eq_ok {done : Logged JobFault (List String)} {written : List String}
    (hfiles : FilesOnce (actions.flatMap (Action.deposits fs)))
    (h : (commit accessIn actions).run fs = (done, fs')) (hdone : done.result = .ok written) :
    written = actions.flatMap Action.written ∧
      fs.Gains (actions.flatMap (Action.deposits fs)) fs' := by
  induction actions generalizing fs done written with
  | nil =>
    obtain ⟨rfl, rfl⟩ := Prod.mk.inj h
    obtain rfl := Except.ok.inj hdone
    exact ⟨rfl, Gains.refl fs⟩
  | cons action rest ih =>
    rw [List.flatMap_cons, FilesOnce, List.pairwise_append] at hfiles
    rw [run_commit_cons] at h
    split at h
    · obtain ⟨rfl, -⟩ := Prod.mk.inj h
      exact absurd hdone (by simp)
    · next made hperform =>
      obtain ⟨rfl, rfl⟩ := Prod.mk.inj h
      have hgains := gains_of_performIn_eq_ok hperform
      have hrest := flatMap_deposits_congr hgains rest
      obtain ⟨more, hmore, rfl⟩ := map_eq_ok_iff.1 hdone
      obtain ⟨rfl, hgains'⟩ := ih (by rw [hrest]; exact hfiles.2.1) rfl hmore
      rw [hrest] at hgains'
      exact ⟨rfl, hgains.append hgains' hfiles.2.2⟩

/-- **Actions of which one fails** leave all that the actions before it are to leave, and what has
become of the one that fails. -/
theorem exists_gains_of_commit_eq_error {done : Logged JobFault (List String)} {fault : JobFault}
    (hfiles : FilesOnce (actions.flatMap (Action.deposits fs)))
    (h : (commit accessIn actions).run fs = (done, fs')) (hdone : done.result = .error fault) :
    ∃ before action after cause made missing left, actions = before ++ action :: after ∧
      fault = .unwritable action.path cause ∧ action.Stopped fs cause made missing left ∧
      fs.Gains (before.flatMap (Action.deposits fs) ++ (made ++ left)) fs' := by
  induction actions generalizing fs done with
  | nil =>
    obtain ⟨rfl, -⟩ := Prod.mk.inj h
    exact absurd hdone (by simp)
  | cons action rest ih =>
    rw [List.flatMap_cons, FilesOnce, List.pairwise_append] at hfiles
    rw [run_commit_cons] at h
    split at h
    · next after cause hperform =>
      obtain ⟨rfl, rfl⟩ := Prod.mk.inj h
      obtain ⟨made, missing, left, hstopped, hgains⟩ :=
        exists_gains_of_performIn_eq_error hperform
      exact ⟨[], action, rest, cause, made, missing, left, rfl, (Except.error.inj hdone).symm,
        hstopped, hgains⟩
    · next after hperform =>
      obtain ⟨rfl, rfl⟩ := Prod.mk.inj h
      have hgains := gains_of_performIn_eq_ok hperform
      have hrest := flatMap_deposits_congr hgains rest
      obtain ⟨before, failed, after, cause, made, missing, left, rfl, hcause, hstopped, hgains'⟩ :=
        ih (by rw [hrest]; exact hfiles.2.1) rfl (map_eq_error_iff.1 hdone)
      have hfailed := hstopped.of_gains hgains
      rw [flatMap_deposits_congr hgains before] at hgains'
      refine ⟨action :: before, failed, after, cause, made, missing, left, rfl, hcause, hfailed, ?_⟩
      rw [List.flatMap_cons, List.append_assoc]
      refine hgains.append hgains' fun q hq r hr ↦ ?_
      -- what comes later is at the place of something that the later actions are to leave
      obtain ⟨r', hr', hplace⟩ : ∃ r' ∈ (before ++ failed :: after).flatMap (Action.deposits fs),
          r'.1 = r.1 := by
        rw [List.flatMap_append, List.flatMap_cons, hfailed.deposits_eq]
        rcases List.mem_append.1 hr with hbefore | hr
        · exact ⟨r, List.mem_append_left _ hbefore, rfl⟩
        rcases List.mem_append.1 hr with hmade | hleft
        · exact ⟨r, by simp [hmade], rfl⟩
        · obtain ⟨r', hmissing, hplace, -⟩ := hfailed.remains.exists_of_mem hleft
          exact ⟨r', by simp [hmissing], hplace⟩
      rw [← hplace]
      exact hfiles.2.2 q hq r' hr'

/-! ### The files of a program -/

/-- The endings of the files that are written, in order. -/
def endings : List String := [".code.fc", ".abi", ".srcmap.json"]

theorem isEnding_of_mem_endings : ∀ ending ∈ endings, Path.IsEnding ending := by
  simp [endings, Path.IsEnding]

/-- The paths of the files that are written. -/
def paths (directory basename : String) : List String :=
  endings.map fun ending ↦ Path.join directory (basename ++ ending)

/-- The files of a program: its text, its interface and its source map. -/
def files (fs : FileSystem) (directory basename : String) (p : Program) : List (Place × Node) :=
  [(fs.place (Path.join directory (basename ++ ".code.fc")), .file p.text.toUTF8),
    (fs.place (Path.join directory (basename ++ ".abi")), .file p.abi.toUTF8),
    (fs.place (Path.join directory (basename ++ ".srcmap.json")),
      .file p.map.toJson.pretty.toUTF8)]

/-- The nodes that a job leaves, in the order in which they are made: the directories on the way to
the output directory, and the files. -/
def deposits (fs : FileSystem) (directory basename : String) (p : Program) : List (Place × Node) :=
  directoriesAt (Place.trail (fs.origin directory) (Path.steps directory)) ++
    files fs directory basename p

/-- **The three files stand at three places.** -/
theorem nodup_map_place_paths (fs : FileSystem) (directory basename : String) :
    ((paths directory basename).map fs.place).Nodup := by
  obtain ⟨here, last, hplace⟩ := fs.exists_place_join_append directory basename
  have hplaces : (paths directory basename).map fs.place =
      endings.map fun ending ↦ here ++ [last ++ ending] := by
    rw [paths, List.map_map]
    exact List.map_congr_left fun ending h ↦ hplace ending (isEnding_of_mem_endings ending h)
  rw [hplaces]
  exact List.Nodup.map (fun a b hab ↦ by simpa using hab) (by decide)

theorem filesOnce_deposits (fs : FileSystem) (directory basename : String) (p : Program) :
    FilesOnce (deposits fs directory basename p) := by
  have hplaces : ((files fs directory basename p).map Prod.fst).Nodup :=
    nodup_map_place_paths fs directory basename
  refine List.pairwise_append.2 ⟨?_, (List.pairwise_map.1 hplaces).imp Or.inr, fun q hq _ _ ↦ ?_⟩
  · exact List.pairwise_of_forall_mem_list fun q hq _ _ ↦ .inl (snd_of_mem_directoriesAt hq)
  · exact .inl (snd_of_mem_directoriesAt hq)

theorem eq_directory_or_of_mem_deposits {directory basename : String} {p : Program}
    {q : Place × Node} (h : q ∈ deposits fs directory basename p) :
    q.2 = .directory ∨ ∃ path ∈ paths directory basename, q.1 = fs.place path := by
  rcases List.mem_append.1 h with hdirectory | hfile
  · exact .inl (snd_of_mem_directoriesAt hdirectory)
  · have hplace : q.1 ∈ (paths directory basename).map fs.place :=
      List.mem_map_of_mem (f := Prod.fst) hfile
    obtain ⟨path, hpath, heq⟩ := List.mem_map.1 hplace
    exact .inr ⟨path, hpath, heq.symm⟩

/-- The files of an emitted program. -/
theorem files_of_compile {c : Catalogue} {flags : Flags} {name basename : String} {p : Program}
    (h : (c.compile flags name basename).result = .ok p) :
    p.entrypoint = basename ++ ".code.fc" ∧
      p.files = [⟨basename ++ ".code.fc", p.text⟩, ⟨basename ++ ".abi", p.abi⟩] ∧
      p.abi = Interface.prettyText
        ⟨name, (c.emitted flags).map Fragment.name, Getter.enabled flags⟩ := by
  rw [Catalogue.result_compile, Catalogue.result_emit] at h
  obtain ⟨d, -, rfl⟩ := map_eq_ok_iff.1 h
  refine ⟨rfl, ?_, Interface.pretty_toJson _⟩
  simp [Program.text]

variable {args : Arguments} {m : Manifest} {flags : Flags} {c : Catalogue} {p : Program}

theorem actions_planFor_of_none (h : args.outDir = none) : (planFor args m p).actions = [] := by
  rw [planFor, h]
  rfl

theorem actions_planFor_of_some {directory : String} (h : args.outDir = some directory) :
    (planFor args m p).actions = Job.actions directory (basename args m) p := by
  rw [planFor, h]
  rfl

/-- The actions of a job are to leave its deposits. -/
theorem Decided.flatMap_deposits {read : String → Except FileFault String}
    (h : Decided args read m flags c p) (fs : FileSystem) (directory : String) :
    (Job.actions directory (basename args m) p).flatMap (Action.deposits fs) =
      deposits fs directory (basename args m) p := by
  rw [Job.actions, (files_of_compile h.compiled).2.1]
  rfl

theorem Decided.filesOnce {read : String → Except FileFault String}
    (h : Decided args read m flags c p) (fs : FileSystem) (directory : String) :
    FilesOnce ((Job.actions directory (basename args m) p).flatMap (Action.deposits fs)) := by
  rw [h.flatMap_deposits]
  exact filesOnce_deposits fs directory (basename args m) p

theorem Decided.flatMap_written {read : String → Except FileFault String}
    (h : Decided args read m flags c p) (directory : String) :
    (Job.actions directory (basename args m) p).flatMap Action.written =
      paths directory (basename args m) := by
  rw [Job.actions, (files_of_compile h.compiled).2.1]
  rfl

/-- If an action of a job fails, something is missing: the directories come first, and a file that
cannot be written is missing. -/
theorem append_flatMap_deposits_ne_nil {directory basename : String} {before after : List Action}
    {failed : Action} {cause : FileFault} {made missing left : List (Place × Node)}
    (hactions : Job.actions directory basename p = before ++ failed :: after)
    (h : failed.Stopped fs cause made missing left) :
    missing ++ after.flatMap (Action.deposits fs) ≠ [] := by
  intro hempty
  obtain ⟨hmissing, hafter⟩ := List.append_eq_nil_iff.1 hempty
  rw [Job.actions] at hactions
  cases before with
  | nil =>
    obtain ⟨-, rfl⟩ := List.cons.inj hactions
    exact absurd hafter (by simp [Action.deposits])
  | cons first before =>
    rw [List.cons_append] at hactions
    have hfailed : failed ∈ before ++ failed :: after := by simp
    rw [← (List.cons.inj hactions).2] at hfailed
    obtain ⟨f, -, rfl⟩ := List.mem_map.1 hfailed
    exact h.missing_ne_nil (List.cons_ne_nil _ _) hmissing

/-! ### Runs -/

/-- **A run that succeeds** leaves the directories and the files. -/
theorem exists_gains_of_runIn_eq_ok {directory : String} {r : Report}
    (hdirectory : args.outDir = some directory) (h : (runIn fs args).1.result = .ok r) :
    ∃ m flags c p, Decided args fs.readText m flags c p ∧
      r = (planFor args m p).report (paths directory (basename args m)) ∧
      fs.Gains (deposits fs directory (basename args m) p) (runIn fs args).2 := by
  obtain ⟨m, flags, c, p, done, written, hdecided, hcommit, hdone, rfl⟩ := exists_of_runIn_eq_ok h
  rw [actions_planFor_of_some hdirectory] at hcommit
  obtain ⟨rfl, hgains⟩ :=
    gains_of_commit_eq_ok (hdecided.filesOnce fs directory) hcommit hdone
  rw [hdecided.flatMap_deposits] at hgains
  rw [hdecided.flatMap_written]
  exact ⟨m, flags, c, p, hdecided, rfl, hgains⟩

/-- **A run that fails** has not come to its actions, or leaves a beginning of what it was to leave,
and what is left of the next file. -/
theorem exists_gains_of_runIn_eq_error {fault : JobFault}
    (h : (runIn fs args).1.result = .error fault) :
    ((∀ path cause, fault ≠ .unwritable path cause) ∧ (runIn fs args).2 = fs) ∨
      ∃ path cause, fault = .unwritable path cause ∧ ∃ directory m flags c p made missing left,
        args.outDir = some directory ∧ Decided args fs.readText m flags c p ∧
        deposits fs directory (basename args m) p = made ++ missing ∧ missing ≠ [] ∧
        Remains fs path cause missing left ∧ fs.Gains (made ++ left) (runIn fs args).2 := by
  rcases exists_of_runIn_eq_error h with
    ⟨hplan, hsame⟩ | ⟨m, flags, c, p, done, hdecided, hcommit, hdone⟩
  · exact .inl ⟨fun path cause hfault ↦ plan_ne_unwritable path cause (hfault ▸ hplan), hsame⟩
  · right
    cases hdirectory : args.outDir with
    | none =>
      rw [actions_planFor_of_none hdirectory] at hcommit
      obtain ⟨rfl, -⟩ := Prod.mk.inj hcommit
      exact absurd hdone (by simp)
    | some directory =>
      rw [actions_planFor_of_some hdirectory] at hcommit
      have hdeposits := hdecided.flatMap_deposits fs directory
      obtain ⟨before, failed, after, cause, made, missing, left, hactions, rfl, hstopped, hgains⟩ :=
        exists_gains_of_commit_eq_error (hdecided.filesOnce fs directory) hcommit hdone
      rw [← List.append_assoc] at hgains
      refine ⟨_, _, rfl, directory, m, flags, c, p, _, _, left, rfl, hdecided, ?_,
        append_flatMap_deposits_ne_nil hactions hstopped, hstopped.remains.append _, hgains⟩
      rw [← hdeposits, hactions, List.flatMap_append, List.flatMap_cons, hstopped.deposits_eq]
      simp only [List.append_assoc]

/-- However a run ends, it has made nothing but directories and files at the paths that it is to
write to. -/
theorem exists_gains_of_runIn {directory : String} (hdirectory : args.outDir = some directory)
    (hm : loadManifest fs.readText args.manifest = .ok m) :
    ∃ made, fs.Gains made (runIn fs args).2 ∧ ∀ q ∈ made, q.2 = .directory ∨
      ∃ path ∈ paths directory (basename args m), q.1 = fs.place path := by
  cases hresult : (runIn fs args).1.result with
  | ok r =>
    obtain ⟨m', flags, c, p, hdecided, -, hgains⟩ := exists_gains_of_runIn_eq_ok hdirectory hresult
    obtain rfl : m' = m := Except.ok.inj (hdecided.loaded.symm.trans hm)
    exact ⟨_, hgains, fun q hq ↦ eq_directory_or_of_mem_deposits hq⟩
  | error fault =>
    rcases exists_gains_of_runIn_eq_error hresult with ⟨-, hsame⟩ | ⟨_, _, -, directory', m', flags,
      c, p, made, missing, left, hdirectory', hdecided, hdeposits, -, hremains, hgains⟩
    · rw [hsame]
      exact ⟨[], Gains.refl fs, fun q hq ↦ absurd hq List.not_mem_nil⟩
    · obtain rfl : directory' = directory := Option.some.inj (hdirectory'.symm.trans hdirectory)
      obtain rfl : m' = m := Except.ok.inj (hdecided.loaded.symm.trans hm)
      refine ⟨made ++ left, hgains, List.forall_mem_append.2 ⟨fun q hq ↦ ?_, fun q hq ↦ ?_⟩⟩
      · exact eq_directory_or_of_mem_deposits (hdeposits ▸ List.mem_append_left missing hq)
      · obtain ⟨r, hr, hplace, hfile⟩ := hremains.exists_of_mem hq
        rw [← hplace]
        have hdeposit := eq_directory_or_of_mem_deposits (hdeposits ▸ List.mem_append_right made hr)
        exact .inr (hdeposit.resolve_left hfile)

/-- The text of a manifest of one fragment. -/
def counterText : String :=
  "\x7b\"name\":\"counter\",\"fragments\":[\x7b\"name\":\"get\",\"code\":\"int get();\"\x7d]\x7d"

/-- A file system with a manifest and an output directory, in which there is an older file. -/
def desk : FileSystem where
  nodes :=
    [(["work"], .directory),
      (["work", "counter.json"], .file counterText.toUTF8),
      (["work", "out"], .directory),
      (["work", "out", "lib"], .directory),
      (["work", "out", "lib", "prog.abi"], .file "old".toUTF8)]
  current := ["work"]

/-- Arguments that name a manifest and what is to be written. -/
def request (manifest : String) (outDir : Option String) (basename : String) : Arguments :=
  ⟨manifest, none, none, [], .human, [], outDir, some basename, none⟩

end Job

end Provenance
