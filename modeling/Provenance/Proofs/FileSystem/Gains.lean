import Mathlib.Data.List.Induction
import Provenance.Log
import Provenance.Proofs.FileSystem.Walk

/-!
# What a file system gains

`FileSystem.Gains` says all that an operation does to a file system by a list of nodes with their
places: they stand afterwards, and nothing has changed elsewhere. No node goes away and none turns
from a file into a directory or back, so of the listed directories those are new that were missing.
Gains follow one another (`Gains.append`) as long as no file is written twice.

* **Writing a file** gains that file (`gains_of_writeText`). If it fails after the file has been
  opened, it gains the file with the bytes that there was room for (`gains_of_writeText_eq_error`).
* **Making directories** gains the directories on the trail of the path, and if it fails those on a
  beginning of the trail (`exists_gains_of_makeDirectories`): shorter paths are tried only where
  something is missing, and from there the directories are made one after another towards the whole
  path.
-/

namespace Provenance

namespace FileSystem

open Place

variable {fs fs' fs'' : FileSystem} {p start : Place} {n : Node} {path : String}

theorem node?_root (fs : FileSystem) : fs.node? [] = some .directory := if_pos rfl

/-! ### Gains -/

/-- All that is different in a later file system are the listed nodes. -/
structure Gains (fs : FileSystem) (nodes : List (Place × Node)) (fs' : FileSystem) : Prop where
  /-- The current directory is the same. -/
  current : fs'.current = fs.current
  /-- The limits are the same. -/
  limits : fs'.limits = fs.limits
  /-- The nodes stand at their places. -/
  stands : ∀ q ∈ nodes, fs'.node? q.1 = some q.2
  /-- Nothing has changed elsewhere. -/
  elsewhere : ∀ p ∉ nodes.map Prod.fst, fs'.node? p = fs.node? p
  /-- What stood still stands, a directory as a directory and a file as a file. -/
  keeps : ∀ p n, fs.node? p = some n →
    ∃ n', fs'.node? p = some n' ∧ (n' = .directory ↔ n = .directory)

namespace Gains

variable {nodes more : List (Place × Node)} {q : Place × Node}

theorem refl (fs : FileSystem) : fs.Gains [] fs :=
  ⟨rfl, rfl, by simp, fun _ _ ↦ rfl, fun _ n h ↦ ⟨n, h, Iff.rfl⟩⟩

/-- A directory is still one. -/
theorem directory (h : fs.Gains nodes fs') (hp : fs.node? p = some .directory) :
    fs'.node? p = some .directory := by
  obtain ⟨n, hn, hkind⟩ := h.keeps p _ hp
  rw [hn, hkind.2 rfl]

/-- **Gains follow one another.** Of what came first, no file is written again. -/
theorem append (h : fs.Gains nodes fs') (h' : fs'.Gains more fs'')
    (hagain : ∀ q ∈ nodes, ∀ r ∈ more, q.2 = .directory ∨ q.1 ≠ r.1) :
    fs.Gains (nodes ++ more) fs'' where
  current := h'.current.trans h.current
  limits := h'.limits.trans h.limits
  stands := by
    refine List.forall_mem_append.2 ⟨fun q hq ↦ ?_, h'.stands⟩
    have hfirst := h.stands q hq
    by_cases hdirectory : q.2 = .directory
    · rw [hdirectory] at hfirst ⊢
      exact h'.directory hfirst
    · rw [h'.elsewhere, hfirst]
      intro hmem
      obtain ⟨r, hr, hplace⟩ := List.mem_map.1 hmem
      exact (hagain q hq r hr).elim hdirectory fun hne ↦ hne hplace.symm
  elsewhere p hp := by
    rw [List.map_append, List.mem_append, not_or] at hp
    rw [h'.elsewhere p hp.2, h.elsewhere p hp.1]
  keeps p n hn := by
    obtain ⟨n', hn', hkind⟩ := h.keeps p n hn
    obtain ⟨n'', hn'', hkind'⟩ := h'.keeps p n' hn'
    exact ⟨n'', hn'', hkind'.trans hkind⟩

/-- **What is gained again** hides what came first. -/
theorem overwrite (h : fs.Gains nodes fs') (h' : fs'.Gains more fs'')
    (hsub : nodes.map Prod.fst ⊆ more.map Prod.fst) : fs.Gains more fs'' where
  current := h'.current.trans h.current
  limits := h'.limits.trans h.limits
  stands := h'.stands
  elsewhere p hp := (h'.elsewhere p hp).trans (h.elsewhere p (mt (@hsub p) hp))
  keeps p n hn := by
    obtain ⟨n', hn', hkind⟩ := h.keeps p n hn
    obtain ⟨n'', hn'', hkind'⟩ := h'.keeps p n' hn'
    exact ⟨n'', hn'', hkind'.trans hkind⟩

/-- More nodes can be listed if they stand. -/
theorem widen (h : fs.Gains nodes fs') (hsub : nodes.map Prod.fst ⊆ more.map Prod.fst)
    (hstands : ∀ q ∈ more, fs'.node? q.1 = some q.2) : fs.Gains more fs' :=
  ⟨h.current, h.limits, hstands, fun p hp ↦ h.elsewhere p (mt (@hsub p) hp), h.keeps⟩

/-- A node that was there before need not be listed. -/
theorem of_cons (h : fs.Gains (q :: nodes) fs') (hq : fs.node? q.1 = some q.2) :
    fs.Gains nodes fs' := by
  refine ⟨h.current, h.limits, fun r hr ↦ h.stands r (List.mem_cons_of_mem _ hr), fun p hp ↦ ?_,
    h.keeps⟩
  by_cases hpq : p = q.1
  · rw [hpq, hq, h.stands q List.mem_cons_self]
  · exact h.elsewhere p (by simpa [hpq] using hp)

/-- A walk that succeeds still does. -/
theorem walk (h : fs.Gains nodes fs') {names : List String} {here : Place}
    (hwalk : fs.walk here names = .ok p) : fs'.walk here names = .ok p := by
  induction names generalizing here with
  | nil => exact hwalk
  | cons name rest ih =>
    obtain ⟨hhere, hname, hrest⟩ := walk_cons_eq_ok_iff.1 hwalk
    exact walk_cons_eq_ok_iff.2 ⟨h.directory hhere, hname, ih hrest⟩

theorem origin_eq (h : fs.Gains nodes fs') (path : String) : fs'.origin path = fs.origin path := by
  rw [origin, origin, h.current]

theorem closed?_eq (h : fs.Gains nodes fs') (p : Place) : fs'.closed? p = fs.closed? p := by
  rw [closed?, closed?, h.limits]

theorem stop?_eq (h : fs.Gains nodes fs') (p : Place) (content : ByteArray) :
    fs'.stop? p content = fs.stop? p content := by
  rw [stop?, stop?, h.limits]

/-- A path that is found still is, at the same place. -/
theorem find (h : fs.Gains nodes fs') (hfind : fs.find path = .ok p) : fs'.find path = .ok p := by
  rw [FileSystem.find] at hfind ⊢
  split at hfind
  · exact absurd hfind (by simp)
  · rw [h.origin_eq]
    exact h.walk hfind

/-- Putting a node gains it, if it is of the kind of the one that it replaces. -/
theorem put (hp : p ≠ [])
    (hkind : ∀ old, fs.node? p = some old → (n = .directory ↔ old = .directory)) :
    fs.Gains [(p, n)] (fs.put p n) where
  current := rfl
  limits := rfl
  stands := by
    rw [List.forall_mem_singleton, node?_put fs hp, if_pos rfl]
  elsewhere q hq := by
    rw [node?_put fs hp, if_neg (by simpa using hq)]
  keeps q old hold := by
    rw [node?_put fs hp]
    split
    · next hqp => exact ⟨n, rfl, hkind old (hqp ▸ hold)⟩
    · exact ⟨old, hold, Iff.rfl⟩

end Gains

/-! ### Writing a file -/

/-- The place of a path, if directories stand on the way. -/
def place (fs : FileSystem) (path : String) : Place :=
  follow (fs.origin path) (Path.names path)

theorem Gains.place_eq {nodes : List (Place × Node)} (h : fs.Gains nodes fs') (path : String) :
    fs'.place path = fs.place path := by
  rw [place, place, h.origin_eq]

/-- The place of a path below a directory is found from the place of the directory. -/
theorem place_join (fs : FileSystem) (directory : String) {name : String}
    (h : Path.isAbsolute name = false) :
    fs.place (Path.join directory name) = follow (fs.place directory) (Path.names name) := by
  rw [place, origin, Path.isAbsolute_join h, Path.names_join h, follow_append]
  rfl

theorem eq_place_of_find (h : fs.find path = .ok p) : p = fs.place path := by
  rw [find] at h
  split at h
  · exact absurd h (by simp)
  · rw [eq_follow_of_walk h, Path.strictNames, follow_append, place]
    split
    · rw [follow_cons, step_stay, follow_nil]
    · rfl

/-- A file is opened where no directory stands and nothing is closed. -/
theorem openFile_eq_ok (h : fs.openFile path = .ok (p, fs')) :
    fs.find path = .ok p ∧ fs.node? p ≠ some .directory ∧ fs.closed? p = none ∧
      fs' = fs.put p (.file .empty) := by
  obtain ⟨q, hfind, hopen⟩ := exists_of_bind_eq_ok h
  split at hopen
  · exact absurd hopen (by simp)
  · next hno =>
    split at hopen
    · exact absurd hopen (by simp)
    · next hclosed =>
      obtain ⟨rfl, rfl⟩ := Prod.mk.inj (Except.ok.inj hopen)
      exact ⟨hfind, hno, hclosed, rfl⟩

/-- A file that is opened is gained, and is empty. -/
theorem gains_of_openFile (h : fs.openFile path = .ok (p, fs')) :
    p = fs.place path ∧ fs.Gains [(fs.place path, .file .empty)] fs' := by
  obtain ⟨hfind, hno, -, rfl⟩ := openFile_eq_ok h
  obtain rfl := eq_place_of_find hfind
  refine ⟨rfl, .put (fun hroot ↦ hno (hroot ▸ fs.node?_root)) fun old hold ↦ ?_⟩
  have hfile : old ≠ .directory := fun hdirectory ↦ hno (hdirectory ▸ hold)
  simp [hfile]

/-- What is put into a file that has been opened hides that it was empty. -/
theorem Gains.put_file {content : ByteArray} (h : fs.Gains [(p, .file .empty)] fs') :
    fs.Gains [(p, .file content)] (fs'.put p (.file content)) := by
  have hopened : fs'.node? p = some (.file .empty) := h.stands _ List.mem_cons_self
  have hp : p ≠ [] := by
    rintro rfl
    exact absurd (hopened.symm.trans fs'.node?_root) (by simp)
  refine h.overwrite (.put hp fun old hold ↦ ?_) (List.Subset.refl _)
  obtain rfl : .file .empty = old := Option.some.inj (hopened.symm.trans hold)
  simp

/-- A text file is opened and then filled. -/
theorem exists_of_writeText_eq_ok {text : String} (h : fs.writeText path text = .ok fs') :
    ∃ p opened, fs.openFile path = .ok (p, opened) ∧ opened.fill p text.toUTF8 = .ok fs' := by
  obtain ⟨⟨p, opened⟩, hopen, hfill⟩ := exists_of_bind_eq_ok h
  exact ⟨p, opened, mapError_eq_ok_iff.1 hopen, hfill⟩

/-- A text file that cannot be written is not touched, or is opened and cannot be filled. -/
theorem eq_or_exists_of_writeText_eq_error {text : String} {fault : FileFault}
    (h : fs.writeText path text = .error (fault, fs')) :
    fs' = fs ∨ ∃ p opened, fs.openFile path = .ok (p, opened) ∧
      opened.fill p text.toUTF8 = .error (fault, fs') := by
  rcases eq_error_or_of_bind_eq_error h with hclosed | ⟨⟨p, opened⟩, hopen, hfill⟩
  · obtain ⟨cause, -, heq⟩ := mapError_eq_error_iff.1 hclosed
    exact .inl (Prod.mk.inj heq).2.symm
  · exact .inr ⟨p, opened, mapError_eq_ok_iff.1 hopen, hfill⟩

/-- **A text file is written whole**, and there was room for it. -/
theorem gains_of_writeText {text : String} (h : fs.writeText path text = .ok fs') :
    fs.stop? (fs.place path) text.toUTF8 = none ∧
      fs.Gains [(fs.place path, .file text.toUTF8)] fs' := by
  obtain ⟨p, opened, hopen, hfill⟩ := exists_of_writeText_eq_ok h
  obtain ⟨rfl, hgains⟩ := gains_of_openFile hopen
  rw [fill, hgains.stop?_eq] at hfill
  split at hfill
  · exact absurd hfill (by simp)
  · next hroom =>
    obtain rfl := Except.ok.inj hfill
    exact ⟨hroom, hgains.put_file⟩

/-- **A text file that cannot be written** is not touched, or it was opened and holds the bytes that
there was room for. -/
theorem gains_of_writeText_eq_error {text : String} {fault : FileFault}
    (h : fs.writeText path text = .error (fault, fs')) :
    fs' = fs ∨ ∃ room, fs.stop? (fs.place path) text.toUTF8 = some (room, fault) ∧
      fs.Gains [(fs.place path, .file (text.toUTF8.extract 0 room))] fs' := by
  rcases eq_or_exists_of_writeText_eq_error h with hsame | ⟨p, opened, hopen, hfill⟩
  · exact .inl hsame
  · obtain ⟨rfl, hgains⟩ := gains_of_openFile hopen
    rw [fill, hgains.stop?_eq] at hfill
    split at hfill
    · next room cause hroom =>
      obtain ⟨rfl, rfl⟩ := Prod.mk.inj (Except.error.inj hfill)
      exact .inr ⟨room, hroom, hgains.put_file⟩
    · exact absurd hfill (by simp)

/-! ### Making a directory -/

/-- Directories at places. -/
def directoriesAt (places : List Place) : List (Place × Node) :=
  places.map fun p ↦ (p, .directory)

theorem map_fst_directoriesAt (places : List Place) :
    (directoriesAt places).map Prod.fst = places := by
  simp [directoriesAt, Function.comp_def]

theorem directoriesAt_append (places more : List Place) :
    directoriesAt (places ++ more) = directoriesAt places ++ directoriesAt more :=
  List.map_append

theorem snd_of_mem_directoriesAt {places : List Place} {q : Place × Node}
    (h : q ∈ directoriesAt places) : q.2 = .directory := by
  obtain ⟨p, -, rfl⟩ := List.mem_map.1 h
  rfl

theorem forall_mem_directoriesAt {places : List Place} :
    (∀ q ∈ directoriesAt places, fs.node? q.1 = some q.2) ↔
      ∀ p ∈ places, fs.node? p = some .directory := by
  simp [directoriesAt]

theorem makeDirectory_eq_ok {names : List String} (h : fs.makeDirectory start names = .ok fs') :
    ∃ p, fs.walk start names = .ok p ∧ fs.node? p = none ∧ fs' = fs.put p .directory := by
  obtain ⟨p, hwalk, hmake⟩ := exists_of_bind_eq_ok h
  split at hmake
  · exact absurd hmake (by simp)
  · next hfree =>
    split at hmake
    · exact absurd hmake (by simp)
    · exact ⟨p, hwalk, by simpa using hfree, (Except.ok.inj hmake).symm⟩

theorem isDirectory_iff {names : List String} :
    fs.isDirectory start names = true ↔
      ∃ p, fs.walk start names = .ok p ∧ fs.node? p = some .directory := by
  rw [isDirectory]
  cases fs.walk start names <;> simp

/-- **A directory is made, or was there.** -/
theorem gains_of_ensure_eq_ok {names : List String}
    (h : ((directories start).ensure names).run fs = (.ok (), fs')) :
    ∃ p, fs.walk start names = .ok p ∧ fs.Gains [(p, .directory)] fs' := by
  rw [run_ensure] at h
  split at h
  · next made hmade =>
    obtain rfl := (Prod.mk.inj h).2
    obtain ⟨p, hwalk, hfree, rfl⟩ := makeDirectory_eq_ok hmade
    have hp : p ≠ [] := by
      rintro rfl
      exact absurd (hfree.symm.trans fs.node?_root) (by simp)
    exact ⟨p, hwalk, .put hp fun old hold ↦ absurd (hfree.symm.trans hold) (by simp)⟩
  · obtain ⟨hdone, rfl⟩ := Prod.mk.inj h
    split at hdone
    · next hthere =>
      obtain ⟨p, hwalk, hp⟩ := isDirectory_iff.1 hthere
      exact ⟨p, hwalk, (Gains.refl fs).widen (by simp) (by simpa using hp)⟩
    · exact absurd hdone (by simp)

/-- A directory that cannot be made leaves everything as it was. -/
theorem eq_of_ensure_eq_error {names : List String} {fault : FileFault}
    (h : ((directories start).ensure names).run fs = (.error fault, fs')) : fs' = fs := by
  rw [run_ensure] at h
  split at h
  · exact absurd (Prod.mk.inj h).1 (by simp)
  · exact (Prod.mk.inj h).2.symm

/-- If the end of a trail is made, the whole trail is there. -/
theorem Gains.trail {names : List String} (hwalk : fs.walk start names = .ok p)
    (hnames : names ≠ [] ∨ start = []) (h : fs.Gains [(p, .directory)] fs') :
    fs.Gains (directoriesAt (trail start names)) fs' := by
  cases names with
  | nil =>
    obtain rfl := Except.ok.inj hwalk
    obtain rfl : start = [] := hnames.resolve_left (by simp)
    exact h.of_cons fs.node?_root
  | cons name rest =>
    refine h.widen ?_ (forall_mem_directoriesAt.2 fun q hq ↦ ?_)
    · rw [map_fst_directoriesAt, eq_follow_of_walk hwalk]
      have hend : follow start (name :: rest) ∈ start.trail (name :: rest) :=
        follow_mem_trail (List.cons_ne_nil name rest)
      simpa using hend
    · rcases node?_of_mem_trail hwalk hq with rfl | hthere
      · exact h.stands _ List.mem_cons_self
      · exact h.directory hthere

/-! ### Making directories -/

/-- **One path more.** Shorter paths may have been made before the directory of a path is made, and
they stay if it is not. -/
theorem exists_gains_of_makeFirst_cons {names : List String} {rest : List (List String)}
    {places : List Place} {done : Except FileFault Unit}
    (hfirst : ∀ {fs fs'}, ((directories start).ensure names).run fs = (.ok (), fs') →
      fs.Gains (directoriesAt places) fs')
    (hrest : ∀ {fs fs' done}, ((directories start).makeFirst rest).run fs = (done, fs') →
      ∃ i, fs.Gains (directoriesAt (places.take i)) fs')
    (h : ((directories start).makeFirst (names :: rest)).run fs = (done, fs')) :
    ∃ i, fs.Gains (directoriesAt (places.take i)) fs' ∧ (done = .ok () → places.length ≤ i) := by
  have hwhole {fs'} (h : fs.Gains (directoriesAt places) fs') :
      ∃ i, fs.Gains (directoriesAt (places.take i)) fs' ∧ (done = .ok () → places.length ≤ i) :=
    ⟨places.length, by rwa [List.take_length], fun _ ↦ Nat.le_refl _⟩
  rw [run_makeFirst_cons] at h
  split at h
  · next fs₁ hmissing =>
    obtain rfl := eq_of_ensure_eq_error hmissing
    split at h
    · next fs₂ hshorter =>
      obtain ⟨i, hgains⟩ := hrest hshorter
      cases done with
      | ok _ =>
        refine hwhole (hgains.overwrite (hfirst h) ?_)
        rw [map_fst_directoriesAt, map_fst_directoriesAt]
        exact List.take_subset _ _
      | error fault =>
        obtain rfl := eq_of_ensure_eq_error h
        exact ⟨i, hgains, fun hdone ↦ absurd hdone (by simp)⟩
    · next fault fs₂ hshorter =>
      obtain ⟨rfl, rfl⟩ := Prod.mk.inj h
      obtain ⟨i, hgains⟩ := hrest hshorter
      exact ⟨i, hgains, fun hdone ↦ absurd hdone (by simp)⟩
  · cases done with
    | ok _ => exact hwhole (hfirst h)
    | error fault =>
      obtain rfl := eq_of_ensure_eq_error h
      exact ⟨0, Gains.refl fs', fun hdone ↦ absurd hdone (by simp)⟩

/-- **Directories are made one after another.** Of the directories on a trail a beginning is there
afterwards, and all of them if nothing fails. -/
theorem exists_gains_of_makeFirst {names : List String}
    (hnames : names ≠ [] ∨ start = []) {first : List String} {done : Except FileFault Unit}
    (hfirst : ∀ {fs : FileSystem} {p}, fs.walk start first = .ok p → fs.walk start names = .ok p)
    (h : ((directories start).makeFirst (first :: Path.shorter names)).run fs = (done, fs')) :
    ∃ i, fs.Gains (directoriesAt ((trail start names).take i)) fs' ∧
      (done = .ok () → (trail start names).length ≤ i) := by
  induction names using List.reverseRecOn generalizing first fs fs' done with
  | nil =>
    refine exists_gains_of_makeFirst_cons (fun h ↦ ?_) (fun h ↦ ?_) h
    · obtain ⟨p, hwalk, hgains⟩ := gains_of_ensure_eq_ok h
      exact hgains.trail (hfirst hwalk) hnames
    · obtain rfl := (Prod.mk.inj h).2
      exact ⟨0, Gains.refl _⟩
  | append_singleton names name ih =>
    refine exists_gains_of_makeFirst_cons (fun h ↦ ?_) (fun h ↦ ?_) h
    · obtain ⟨p, hwalk, hgains⟩ := gains_of_ensure_eq_ok h
      exact hgains.trail (hfirst hwalk) hnames
    · by_cases hempty : names = []
      · subst hempty
        obtain rfl := (Prod.mk.inj h).2
        exact ⟨0, Gains.refl _⟩
      · rw [Path.shorter_concat hempty] at h
        obtain ⟨i, hgains, -⟩ := ih (.inl hempty) id h
        refine ⟨min i names.length, ?_⟩
        rwa [← trail_take, ← List.take_take, List.take_left, trail_take]

/-- What making the directory of a path gains. -/
theorem exists_gains_of_makeDirectories {done : Except FileFault Unit}
    (h : fs.makeDirectories path = (fs', done)) :
    ∃ i, fs.Gains (directoriesAt ((trail (fs.origin path) (Path.steps path)).take i)) fs' ∧
      (done = .ok () → (trail (fs.origin path) (Path.steps path)).length ≤ i) := by
  have hrun : ((directories (fs.origin path)).makeAll path).run fs = (done, fs') :=
    Prod.ext (congrArg Prod.snd h) (congrArg Prod.fst h)
  rw [DirectoryAccess.makeAll] at hrun
  split at hrun
  · next hempty =>
    obtain rfl := (Prod.mk.inj hrun).2
    subst hempty
    exact ⟨0, Gains.refl fs, fun _ ↦ Nat.le_refl 0⟩
  · next hne =>
    split at hrun
    · obtain ⟨rfl, rfl⟩ := Prod.mk.inj hrun
      exact ⟨0, Gains.refl fs, fun hdone ↦ absurd hdone (by simp)⟩
    · rw [Path.ancestors_eq_shorter] at hrun
      refine exists_gains_of_makeFirst ?_ walk_steps hrun
      cases hroot : Path.isAbsolute path with
      | true => exact .inr (by simp [origin, hroot])
      | false => exact .inl (Path.steps_ne_nil hne hroot)

end FileSystem

end Provenance
