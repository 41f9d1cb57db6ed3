import Provenance.Proofs.FileEffects

/-!
# Where a job writes

The files of a job have names that are put behind the output directory as they are, whether they
come from the command line or from the manifest. So a job stays below its output directory exactly
as far as its names do (`Job.runIn_confined`): a name must not start at the root, and its folder
must stay (`Path.Stays`), which means that its names lead out of no directory. Names may go up again
where they have gone down before.

Two notions of being below agree here. As text, a path below a directory is that of the directory
with a name behind that stays (`Path.IsBelow`). As a place, a file below a directory has the place
of the directory in front of its own, so no file elsewhere has changed, even if the job has failed.

Nothing checks the names, and there are manifests whose names climb
(`Job.not_forall_written_isBelow`).
-/

namespace Provenance

open Place

/-! ### Names that stay -/

namespace Path

variable {names : List String} {directory name ending : String}

/-- Names that lead out of no directory from which they start. -/
def Stays (names : List String) : Prop := ∀ here, ∀ q ∈ trail here names, here <+: q

theorem Stays.prefix_follow (h : Stays names) (here : Place) : here <+: follow here names := by
  by_cases hnames : names = []
  · rw [hnames]
    exact List.prefix_rfl
  · exact h here _ (follow_mem_trail hnames)

/-- A last name that leads down changes nothing. -/
theorem stays_concat_iff (hdown : ∀ here, step here name = here ++ [name]) :
    Stays (names ++ [name]) ↔ Stays names := by
  constructor
  · intro h here q hq
    refine h here q ?_
    rw [trail_concat]
    exact List.mem_append_left _ hq
  · intro h here q hq
    rw [trail_concat, hdown] at hq
    rcases List.mem_append.1 hq with hq | hq
    · exact h here q hq
    · rw [List.mem_singleton.1 hq]
      exact (h.prefix_follow here).trans (List.prefix_append _ _)

/-- The path is that of a directory followed by a relative path that does not leave it. -/
def IsBelow (directory path : String) : Prop :=
  ∃ name, isAbsolute name = false ∧ Stays (Path.names name) ∧ path = join directory name

/-- **A name with an ending** stays exactly if its folder does. -/
theorem isBelow_join_append_iff (hname : isAbsolute name = false) (h : IsEnding ending) :
    IsBelow directory (join directory (name ++ ending)) ↔ Stays (folder name) := by
  have hrelative : isAbsolute (name ++ ending) = false := by
    rw [isAbsolute_append h.isAbsolute, hname]
  obtain ⟨last, hnames⟩ := exists_names_append name
  have hstays : Stays (Path.names (name ++ ending)) ↔ Stays (folder name) := by
    rw [hnames ending h]
    exact stays_concat_iff fun here ↦ h.step_append here last
  rw [← hstays]
  constructor
  · rintro ⟨name', hname', hstays', heq⟩
    rwa [join_inj hrelative hname' heq]
  · exact fun hstays' ↦ ⟨name ++ ending, hrelative, hstays', rfl⟩

end Path

/-! ### Places -/

/-- A file with a folder that stays stands below the directory. -/
theorem FileSystem.exists_place_join_append_eq (fs : FileSystem) {directory name ending : String}
    (hname : Path.isAbsolute name = false) (h : Path.IsEnding ending)
    (hfolder : Path.Stays (Path.folder name)) :
    ∃ first rest, fs.place (Path.join directory (name ++ ending)) =
      fs.place directory ++ first :: rest := by
  have hrelative : Path.isAbsolute (name ++ ending) = false := by
    rw [Path.isAbsolute_append h.isAbsolute, hname]
  obtain ⟨last, hnames⟩ := Path.exists_names_append name
  obtain ⟨inner, hinner⟩ := hfolder.prefix_follow (fs.place directory)
  obtain ⟨first, rest, hcons⟩ : ∃ first rest, inner ++ [last ++ ending] = first :: rest :=
    List.exists_cons_of_ne_nil (by simp)
  refine ⟨first, rest, ?_⟩
  calc fs.place (Path.join directory (name ++ ending))
      = follow (follow (fs.place directory) (Path.folder name)) [last ++ ending] := by
        rw [fs.place_join directory hrelative, hnames ending h, follow_append]
    _ = fs.place directory ++ inner ++ [last ++ ending] := by
        rw [← hinner, follow_cons, h.step_append, follow_nil]
    _ = fs.place directory ++ first :: rest := by rw [List.append_assoc, hcons]

namespace Job

variable {fs : FileSystem} {args : Arguments} {m : Manifest} {directory : String}

/-! ### Runs -/

/-- **The paths that are written** are paths below the output directory exactly if the folder of the
names stays. -/
theorem forall_paths_isBelow_iff {basename : String} (h : Path.isAbsolute basename = false) :
    (∀ path ∈ paths directory basename, Path.IsBelow directory path) ↔
      Path.Stays (Path.folder basename) := by
  rw [paths, List.forall_mem_map]
  constructor
  · intro hbelow
    have hcode : ".code.fc" ∈ endings := List.mem_cons_self
    exact (Path.isBelow_join_append_iff h (isEnding_of_mem_endings _ hcode)).1 (hbelow _ hcode)
  · intro hstays ending hending
    exact (Path.isBelow_join_append_iff h (isEnding_of_mem_endings _ hending)).2 hstays

/-- **A job stays below its output directory** if the names of its files do not start at the root
and have a folder that stays. Among names that do not start at the root these are the only ones for
which all paths that are written are paths below the directory. -/
theorem runIn_confined (hdirectory : args.outDir = some directory)
    (hm : loadManifest fs.readText args.manifest = .ok m)
    (hrelative : Path.isAbsolute (basename args m) = false) :
    (∀ r, (runIn fs args).1.result = .ok r →
      ((∀ path ∈ r.written, Path.IsBelow directory path) ↔
        Path.Stays (Path.folder (basename args m)))) ∧
    (Path.Stays (Path.folder (basename args m)) → ∀ p content,
      (runIn fs args).2.node? p = some (.file content) → fs.node? p ≠ some (.file content) →
        ∃ first rest, p = fs.place directory ++ first :: rest) := by
  constructor
  · intro r hr
    obtain ⟨m', flags, c, p, hdecided, rfl, -⟩ := exists_gains_of_runIn_eq_ok hdirectory hr
    obtain rfl : m' = m := Except.ok.inj (hdecided.loaded.symm.trans hm)
    exact forall_paths_isBelow_iff hrelative
  · intro hfolder p content hafter hbefore
    obtain ⟨made, hgains, hmade⟩ := exists_gains_of_runIn hdirectory hm
    have hlisted : p ∈ made.map Prod.fst := by
      by_contra hother
      exact hbefore ((hgains.elsewhere p hother).symm.trans hafter)
    obtain ⟨q, hq, rfl⟩ := List.mem_map.1 hlisted
    rcases hmade q hq with hkind | ⟨path, hpath, hplace⟩
    · have hthere := hgains.stands q hq
      rw [hkind, hafter] at hthere
      exact absurd hthere (by simp)
    · obtain ⟨ending, hending, rfl⟩ := List.mem_map.1 hpath
      rw [hplace]
      exact fs.exists_place_join_append_eq hrelative (isEnding_of_mem_endings _ hending) hfolder

/-- Arguments with names that go down and up again. -/
def detour : Arguments := request "counter.json" (some "out") "lib/../prog"

theorem runIn_confined_detour :
    ∃ r, (runIn desk detour).1.result = .ok r ∧ (∀ path ∈ r.written, Path.IsBelow "out" path) ∧
      ∀ p content, (runIn desk detour).2.node? p = some (.file content) →
        desk.node? p ≠ some (.file content) →
          ∃ first rest, p = "work" :: "out" :: first :: rest := by
  have hdirectory : detour.outDir = some "out" := rfl
  obtain ⟨r, hr⟩ := Logged.exists_result_eq_ok (x := (runIn desk detour).1) (by decide +kernel)
  obtain ⟨m, _, _, _, hdecided, -⟩ := exists_gains_of_runIn_eq_ok hdirectory hr
  have hfolder : Path.folder (basename detour m) = ["lib", ".."] :=
    show Path.folder "lib/../prog" = ["lib", ".."] by decide +kernel
  have hstays : Path.Stays (Path.folder (basename detour m)) := by
    rw [hfolder]
    intro here q hq
    have htrail : trail here ["lib", ".."] = [here ++ ["lib"], here] := by simp [trail, step]
    rw [htrail] at hq
    rcases List.mem_pair.1 hq with rfl | rfl
    · exact List.prefix_append _ _
    · exact List.prefix_rfl
  obtain ⟨hpaths, hfiles⟩ := runIn_confined hdirectory hdecided.loaded
    (show Path.isAbsolute "lib/../prog" = false by decide)
  exact ⟨r, hr, (hpaths r hr).2 hstays, hfiles hstays⟩

/-! ### Names that climb -/

/-- A manifest whose name goes up. -/
def climberText : String := "\x7b\"name\":\"../Main\"\x7d"

/-- A file system with that manifest. -/
def climberDesk : FileSystem where
  nodes := [(["work"], .directory), (["work", "main.json"], .file climberText.toUTF8)]
  current := ["work"]

/-- Arguments that take the names of the files from the manifest. -/
def climberRequest : Arguments :=
  ⟨"main.json", none, none, [], .human, [], some "out/sub", none, none⟩

/-- **A job may leave its output directory.** Nothing keeps the name of a program from climbing. -/
theorem not_forall_written_isBelow :
    ¬ ∀ (fs : FileSystem) (args : Arguments) (directory : String) (r : Report),
      args.outDir = some directory → (runIn fs args).1.result = .ok r →
        ∀ path ∈ r.written, Path.IsBelow directory path := by
  intro h
  obtain ⟨r, hr⟩ :=
    Logged.exists_result_eq_ok (x := (runIn climberDesk climberRequest).1) (by decide +kernel)
  have hwritten : (runIn climberDesk climberRequest).1.result.toOption.map Report.written =
      some (paths "out/sub" "../Main") := by decide +kernel
  have hpaths : r.written = paths "out/sub" "../Main" := by
    rw [hr] at hwritten
    exact Option.some.inj hwritten
  have hbelow := h climberDesk climberRequest "out/sub" r rfl hr
  rw [hpaths, forall_paths_isBelow_iff (by decide)] at hbelow
  have hfolder : Path.folder "../Main" = [".."] := by decide +kernel
  rw [hfolder] at hbelow
  exact absurd (hbelow ["out"] [] (by simp [trail, step])) (by simp)

end Job

end Provenance
