import Provenance.Proofs.FeatureSources
import Provenance.Proofs.FileEffects

/-!
# Running again

A run that succeeds, and does not change what it reads, does the same when it is repeated: it leaves
the same records, ends with the same report and changes nothing.

* **An action holds** (`Action.Holds`) if what it is to make is there: the directory stands where
  the path leads, the file is found, has the content and can be written again. An action that
  succeeds holds afterwards (`Job.holds_of_performIn_eq_ok`), and one that holds succeeds and
  changes nothing (`Job.performIn_of_holds`).
* **Later actions** of a run keep what holds, since nothing goes away and no file is written again
  (`Action.Holds.of_gains`). So at the end of a run that succeeds all its actions hold
  (`Job.holds_of_commit_eq_ok`).

The plan is the same, because what is read is the same. The result is `Job.runIn_runIn`.
-/

namespace Provenance

open FileSystem

variable {fs fs' : FileSystem}

/-! ### Putting what is there -/

namespace FileSystem

theorem putNode_eq_self {p : Place} {n : Node} {l : List (Place × Node)}
    (h : l.lookup p = some n) : putNode p n l = l := by
  induction l with
  | nil => exact absurd h (by simp)
  | cons q rest ih =>
    obtain ⟨place, node⟩ := q
    rw [List.lookup_cons] at h
    rw [putNode]
    split
    · next heq =>
      obtain rfl : place = p := heq
      rw [beq_self_eq_true] at h
      rw [Option.some.inj h]
    · next hne =>
      rw [beq_false_of_ne (Ne.symm hne)] at h
      rw [ih h]

theorem putNode_putNode (p : Place) (n n' : Node) (l : List (Place × Node)) :
    putNode p n' (putNode p n l) = putNode p n' l := by
  induction l with
  | nil => simp [putNode]
  | cons q rest ih =>
    by_cases hq : q.1 = p
    · simp [putNode, hq]
    · simp [putNode, hq, ih]

/-- Of two nodes that are put at a place the later one stays. -/
theorem put_put (fs : FileSystem) (p : Place) (n n' : Node) :
    (fs.put p n).put p n' = fs.put p n' := by
  rw [put, put, put, putNode_putNode]

/-- A node that is put where it stands changes nothing. -/
theorem put_eq_self {p : Place} {n : Node} (hp : p ≠ []) (h : fs.node? p = some n) :
    fs.put p n = fs := by
  rw [node?, if_neg hp] at h
  rw [put, putNode_eq_self h]

/-! ### Making what is there -/

variable {start : Place} {names : List String}

/-- A directory that stands is not made. -/
theorem run_ensure_of_isDirectory (h : fs.isDirectory start names = true) :
    ((directories start).ensure names).run fs = (.ok (), fs) := by
  obtain ⟨p, hwalk, hp⟩ := isDirectory_iff.1 h
  have hmake : fs.makeDirectory start names = .error .alreadyExists := by
    rw [makeDirectory, hwalk]
    simp [hp, bind, Except.bind]
  simp only [run_ensure, hmake, h, if_true]

/-- However directories have been made, the first of them was made or found at the end. -/
theorem exists_ensure_of_makeFirst_eq_ok {ancestors : List (List String)}
    (h : ((directories start).makeFirst (names :: ancestors)).run fs = (.ok (), fs')) :
    ∃ before, ((directories start).ensure names).run before = (.ok (), fs') := by
  rw [run_makeFirst_cons] at h
  split at h
  · split at h
    · exact ⟨_, h⟩
    · exact absurd (Prod.mk.inj h).1 (by simp)
  · exact ⟨fs, h⟩

/-- The directory that has been made stands. -/
theorem isDirectory_of_makeFirst_eq_ok {ancestors : List (List String)}
    (h : ((directories start).makeFirst (names :: ancestors)).run fs = (.ok (), fs')) :
    fs'.isDirectory start names = true := by
  obtain ⟨before, hensure⟩ := exists_ensure_of_makeFirst_eq_ok h
  obtain ⟨p, hwalk, hgains⟩ := gains_of_ensure_eq_ok hensure
  exact isDirectory_iff.2 ⟨p, hgains.walk hwalk, hgains.stands _ List.mem_cons_self⟩

end FileSystem

/-! ### Actions -/

/-- What an action is to make is there, and a file is not kept from being written again. -/
def Action.Holds (fs : FileSystem) : Action → Prop
  | makeDirectories path =>
    path = "" ∨ Path.fault? path = none ∧
      fs.isDirectory (fs.origin path) (Path.names path) = true
  | writeFile path content =>
    ∃ p, fs.find path = .ok p ∧ fs.node? p = some (.file content.toUTF8) ∧
      fs.closed? p = none ∧ fs.stop? p content.toUTF8 = none

/-- **What holds is kept** while no file is written again. -/
theorem Action.Holds.of_gains {action : Action} {nodes : List (Place × Node)}
    (h : action.Holds fs) (hgains : fs.Gains nodes fs')
    (hagain : ∀ q ∈ action.deposits fs, ∀ r ∈ nodes, q.2 = .directory ∨ q.1 ≠ r.1) :
    action.Holds fs' := by
  cases action with
  | makeDirectories path =>
    rcases h with hempty | ⟨hfault, hdirectory⟩
    · exact .inl hempty
    · obtain ⟨p, hwalk, hp⟩ := isDirectory_iff.1 hdirectory
      rw [← hgains.origin_eq] at hwalk
      exact .inr ⟨hfault, isDirectory_iff.2 ⟨p, hgains.walk hwalk, hgains.directory hp⟩⟩
  | writeFile path content =>
    obtain ⟨p, hfind, hp, hclosed, hroom⟩ := h
    obtain rfl := eq_place_of_find hfind
    have hfresh : fs.place path ∉ nodes.map Prod.fst := fun hmem ↦ by
      obtain ⟨r, hr, hplace⟩ := List.mem_map.1 hmem
      rcases hagain _ List.mem_cons_self r hr with hdirectory | hne
      · exact absurd hdirectory (by simp)
      · exact hne hplace.symm
    exact ⟨_, hgains.find hfind, (hgains.elsewhere _ hfresh).trans hp,
      (hgains.closed?_eq _).trans hclosed, (hgains.stop?_eq _ _).trans hroom⟩

namespace Job

variable {action : Action} {actions : List Action}

/-- **What has been made holds.** -/
theorem holds_of_performIn_eq_ok (h : performIn fs action = (fs', .ok ())) : action.Holds fs' := by
  have hgains := gains_of_performIn_eq_ok h
  cases action with
  | makeDirectories path =>
    have hrun : ((directories (fs.origin path)).makeAll path).run fs = (.ok (), fs') :=
      Prod.ext (congrArg Prod.snd h) (congrArg Prod.fst h)
    rw [DirectoryAccess.makeAll] at hrun
    split at hrun
    · next hempty => exact .inl hempty
    · split at hrun
      · exact absurd (Prod.mk.inj hrun).1 (by simp)
      · next hfault =>
        rw [Action.Holds, hgains.origin_eq]
        exact .inr ⟨hfault, isDirectory_of_makeFirst_eq_ok hrun⟩
  | writeFile path content =>
    rw [performIn] at h
    split at h
    · next written hwrite =>
      obtain rfl := (Prod.mk.inj h).1
      obtain ⟨hroom, -⟩ := gains_of_writeText hwrite
      obtain ⟨p, opened, hopen, -⟩ := exists_of_writeText_eq_ok hwrite
      obtain ⟨hfind, -, hclosed, -⟩ := openFile_eq_ok hopen
      obtain rfl := eq_place_of_find hfind
      exact ⟨_, hgains.find hfind, hgains.stands _ List.mem_cons_self,
        (hgains.closed?_eq _).trans hclosed, (hgains.stop?_eq _ _).trans hroom⟩
    · exact absurd (Prod.mk.inj h).2 (by simp)

/-- **What holds is not made again.** -/
theorem performIn_of_holds (h : action.Holds fs) : performIn fs action = (fs, .ok ()) := by
  cases action with
  | makeDirectories path =>
    have hrun : ((directories (fs.origin path)).makeAll path).run fs = (.ok (), fs) := by
      rw [DirectoryAccess.makeAll]
      rcases h with hempty | ⟨hfault, hdirectory⟩
      · rw [if_pos hempty]
        rfl
      · have hne : path ≠ "" := by
          rintro rfl
          exact absurd hfault (by decide)
        rw [if_neg hne, hfault, run_makeFirst_cons, run_ensure_of_isDirectory hdirectory]
    exact Prod.ext (congrArg Prod.snd hrun) (congrArg Prod.fst hrun)
  | writeFile path content =>
    obtain ⟨p, hfind, hp, hclosed, hroom⟩ := h
    have hne : p ≠ [] := by
      rintro rfl
      exact absurd (hp.symm.trans fs.node?_root) (by simp)
    have hopened : fs.openFile path = .ok (p, fs.put p (.file .empty)) := by
      simp only [openFile, hfind, hp, hclosed, bind, Except.bind]
      rfl
    have hfilled : (fs.put p (.file .empty)).fill p content.toUTF8 = .ok fs := by
      have hstop : (fs.put p (.file .empty)).stop? p content.toUTF8 = none := hroom
      rw [fill, hstop, put_put, put_eq_self hne hp]
    have hwrite : fs.writeText path content = .ok fs := by
      rw [writeText, writeBytes, hopened]
      exact hfilled
    rw [performIn, hwrite]

/-! ### All actions of a run -/

/-- What is left by actions that succeed. -/
def carriedOut (actions : List Action) : Logged JobFault (List String) :=
  ⟨actions.flatMap Action.notices, .ok (actions.flatMap Action.written)⟩

/-- Actions that succeed leave their records and tell of their files. -/
theorem eq_carriedOut_of_commit_eq_ok {done : Logged JobFault (List String)}
    {written : List String} (h : (commit accessIn actions).run fs = (done, fs'))
    (hdone : done.result = .ok written) : done = carriedOut actions := by
  induction actions generalizing fs done written with
  | nil => exact (Prod.mk.inj h).1.symm
  | cons action rest ih =>
    rw [run_commit_cons] at h
    split at h
    · obtain ⟨rfl, -⟩ := Prod.mk.inj h
      exact absurd hdone (by simp)
    · next made hperform =>
      obtain ⟨rfl, rfl⟩ := Prod.mk.inj h
      obtain ⟨more, hmore, -⟩ := map_eq_ok_iff.1 hdone
      rw [ih rfl hmore]
      rfl

/-- **At the end of actions that succeed** all of them hold. -/
theorem holds_of_commit_eq_ok {done : Logged JobFault (List String)} {written : List String}
    (hfiles : FilesOnce (actions.flatMap (Action.deposits fs)))
    (h : (commit accessIn actions).run fs = (done, fs')) (hdone : done.result = .ok written) :
    ∀ action ∈ actions, action.Holds fs' := by
  induction actions generalizing fs done written with
  | nil => simp
  | cons action rest ih =>
    rw [List.flatMap_cons, FilesOnce, List.pairwise_append] at hfiles
    obtain ⟨-, hrest, hagain⟩ := hfiles
    rw [run_commit_cons] at h
    split at h
    · obtain ⟨rfl, -⟩ := Prod.mk.inj h
      exact absurd hdone (by simp)
    · next made hperform =>
      obtain ⟨rfl, rfl⟩ := Prod.mk.inj h
      obtain ⟨more, hmore, -⟩ := map_eq_ok_iff.1 hdone
      have hgains := gains_of_performIn_eq_ok hperform
      have hdeposits := flatMap_deposits_congr hgains rest
      rw [← hdeposits] at hrest hagain
      refine List.forall_mem_cons.2 ⟨?_, ih hrest rfl hmore⟩
      -- The later actions gain what they are to leave, and that is none of the files of this one.
      obtain ⟨-, hlater⟩ := gains_of_commit_eq_ok hrest rfl hmore
      refine (holds_of_performIn_eq_ok hperform).of_gains hlater ?_
      rwa [action.deposits_congr hgains.current]

/-- **Actions that hold** succeed and change nothing. -/
theorem run_commit_of_holds (h : ∀ action ∈ actions, action.Holds fs) :
    (commit accessIn actions).run fs = (carriedOut actions, fs) := by
  induction actions with
  | nil => rfl
  | cons action rest ih =>
    obtain ⟨haction, hrest⟩ := List.forall_mem_cons.1 h
    simp only [run_commit_cons, performIn_of_holds haction, ih hrest]
    rfl

/-! ### Runs -/

variable {args : Arguments}

/-- No action of a job writes a file again. -/
theorem Decided.filesOnce_planFor {read : String → Except FileFault String} {m : Manifest}
    {flags : Flags} {c : Catalogue} {p : Program} (h : Decided args read m flags c p)
    (fs : FileSystem) : FilesOnce ((planFor args m p).actions.flatMap (Action.deposits fs)) := by
  rcases hdirectory : args.outDir with - | directory
  · rw [actions_planFor_of_none hdirectory]
    exact .nil
  · rw [actions_planFor_of_some hdirectory]
    exact h.filesOnce fs directory

/-- A run whose plan is made leaves what its actions leave, behind the records of the plan. -/
theorem runIn_eq_of_commit {p : Plan} {done : Logged JobFault (List String)}
    (hplan : (plan args fs.readText).result = .ok p)
    (hcommit : (commit accessIn p.actions).run fs = (done, fs')) :
    runIn fs args =
      (⟨(plan args fs.readText).records ++ done.records, done.result.map p.report⟩, fs') := by
  rw [runIn_eq, hplan]
  simp only [hcommit]

/-- **Running again changes nothing.** If a run succeeds and what it reads is the same afterwards,
then running again leaves the same records, ends with the same report and leaves the files as they
are. -/
theorem runIn_runIn {r : Report} (h : (runIn fs args).1.result = .ok r)
    (hread : ∀ path ∈ inputs args, (runIn fs args).2.readText path = fs.readText path) :
    runIn (runIn fs args).2 args = runIn fs args := by
  obtain ⟨m, flags, c, p, done, written, hdecided, hcommit, hdone, -⟩ := exists_of_runIn_eq_ok h
  have hsame : plan args (runIn fs args).2.readText = plan args fs.readText := plan_congr hread
  have hplan : (plan args (runIn fs args).2.readText).result = .ok (planFor args m p) := by
    rw [hsame]
    exact hdecided.plan_eq
  have hholds : ∀ action ∈ (planFor args m p).actions, action.Holds (runIn fs args).2 :=
    holds_of_commit_eq_ok (hdecided.filesOnce_planFor fs) hcommit hdone
  rw [eq_carriedOut_of_commit_eq_ok hcommit hdone] at hcommit
  rw [runIn_eq_of_commit hplan (run_commit_of_holds hholds), hsame]
  exact (runIn_eq_of_commit hdecided.plan_eq hcommit).symm

/-- A run with a configuration, which makes a directory and three files, can be repeated. -/
theorem runIn_runIn_workshop :
    (runIn workshop configured).2 ≠ workshop ∧
      runIn (runIn workshop configured).2 configured = runIn workshop configured := by
  have hdone : (runIn workshop configured).2 ≠ workshop ∧
      (runIn workshop configured).1.result.isOk = true ∧
      ∀ path ∈ inputs configured,
        (runIn workshop configured).2.readText path = workshop.readText path := by
    decide +kernel
  obtain ⟨hchanged, hok, hread⟩ := hdone
  obtain ⟨r, hr⟩ := Logged.exists_result_eq_ok hok
  exact ⟨hchanged, runIn_runIn hr hread⟩

end Job

end Provenance
