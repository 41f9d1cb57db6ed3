import Mathlib.Data.List.Basic
import Provenance.FileSystem

/-!
# What paths spell

The names of a path are read off its text, and a place follows from names without a look at the
files (`Place.follow`), as do the places on the way there (`Place.trail`).

Two things are said about the names of a path that is put together. The names of a path below a
directory are those of the directory and then its own (`Path.names_join`), unless it starts at the
root. And an ending without slashes becomes part of the last name (`Path.exists_names_append`), so
paths that differ in their endings alone differ in their last names alone.
-/

namespace Provenance

/-! ### Places -/

namespace Place

variable {here : Place} {names more : List String}

/-- The place to which a name leads. -/
def step (here : Place) (name : String) : Place :=
  if name = "." then here else if name = ".." then here.dropLast else here ++ [name]

/-- The place to which names lead. -/
def follow (here : Place) (names : List String) : Place := names.foldl step here

/-- The places to which names lead one after another. -/
def trail (here : Place) : List String → List Place
  | [] => []
  | name :: rest => step here name :: trail (step here name) rest

@[simp] theorem follow_nil : follow here [] = here := rfl

@[simp] theorem follow_cons (name : String) :
    follow here (name :: names) = follow (step here name) names := rfl

theorem follow_append : follow here (names ++ more) = follow (follow here names) more :=
  List.foldl_append

/-- A name that neither stays nor goes up leads one place down. -/
theorem step_of_ne {name : String} (hstay : name ≠ ".") (hup : name ≠ "..") :
    step here name = here ++ [name] := by
  rw [step, if_neg hstay, if_neg hup]

@[simp] theorem step_stay : step here "." = here := if_pos rfl

theorem trail_take (i : ℕ) : trail here (names.take i) = (trail here names).take i := by
  induction names generalizing here i with
  | nil => simp [trail]
  | cons name rest ih =>
    cases i with
    | zero => rfl
    | succ i => rw [List.take_succ_cons, trail, ih, trail, List.take_succ_cons]

theorem trail_concat (name : String) :
    trail here (names ++ [name]) = trail here names ++ [step (follow here names) name] := by
  induction names generalizing here with
  | nil => rfl
  | cons first rest ih => rw [List.cons_append, trail, ih, trail, follow_cons, List.cons_append]

/-- The last place of a trail is where its names lead. -/
theorem follow_mem_trail (h : names ≠ []) : follow here names ∈ trail here names := by
  induction names generalizing here with
  | nil => exact absurd rfl h
  | cons name rest ih =>
    rw [follow_cons, trail]
    cases rest with
    | nil => exact List.mem_cons_self
    | cons name' rest => exact List.mem_cons_of_mem _ (ih (by simp))

end Place

/-! ### Parts -/

namespace Path

theorem exists_parts_eq_cons (cs : List Char) : ∃ part more, parts cs = part :: more := by
  cases cs with
  | nil => exact ⟨[], [], rfl⟩
  | cons c rest =>
    rw [parts]
    split
    · exact ⟨[], parts rest, rfl⟩
    · split
      · exact ⟨[c], [], rfl⟩
      · next part more _ => exact ⟨c :: part, more, rfl⟩

/-- A character that is no slash is taken into the first part of what follows it. -/
theorem parts_cons_of_ne {c : Char} (hc : c ≠ '/') {rest part : List Char} {more : List (List Char)}
    (h : parts rest = part :: more) : parts (c :: rest) = (c :: part) :: more := by
  rw [parts, if_neg hc, h]

theorem parts_of_not_mem {cs : List Char} (h : '/' ∉ cs) : parts cs = [cs] := by
  induction cs with
  | nil => rfl
  | cons c rest ih =>
    obtain ⟨hc, hrest⟩ := List.ne_and_not_mem_of_not_mem_cons h
    exact parts_cons_of_ne (Ne.symm hc) (ih hrest)

/-- What stands behind a slash has parts of its own. -/
theorem parts_append_slash (cs ds : List Char) :
    parts (cs ++ '/' :: ds) = parts cs ++ parts ds := by
  induction cs with
  | nil => rfl
  | cons c rest ih =>
    by_cases hc : c = '/'
    · rw [List.cons_append, parts, if_pos hc, ih, parts, if_pos hc, List.cons_append]
    · obtain ⟨part, more, hrest⟩ := exists_parts_eq_cons rest
      rw [hrest, List.cons_append] at ih
      rw [List.cons_append, parts_cons_of_ne hc ih, parts_cons_of_ne hc hrest, List.cons_append]

/-- A text without slashes is taken into the last part of the text before it. -/
theorem exists_parts_append (cs : List Char) :
    ∃ init last, ∀ ds, '/' ∉ ds → parts (cs ++ ds) = init ++ [last ++ ds] := by
  induction cs with
  | nil => exact ⟨[], [], fun ds hds ↦ parts_of_not_mem hds⟩
  | cons c rest ih =>
    obtain ⟨init, last, h⟩ := ih
    by_cases hc : c = '/'
    · refine ⟨[] :: init, last, fun ds hds ↦ ?_⟩
      rw [List.cons_append, parts, if_pos hc, h ds hds, List.cons_append]
    · cases init with
      | nil => exact ⟨[], c :: last, fun ds hds ↦ parts_cons_of_ne hc (h ds hds)⟩
      | cons part init =>
        exact ⟨(c :: part) :: init, last, fun ds hds ↦ parts_cons_of_ne hc (h ds hds)⟩

/-! ### Names -/

theorem names_append_slash (a b : String) : names (a ++ "/" ++ b) = names a ++ names b := by
  have htext : (a ++ "/" ++ b).toList = a.toList ++ '/' :: b.toList := by simp
  rw [names, htext, parts_append_slash, List.filter_append, List.map_append, names, names]

/-- **The names of a path below a directory** are those of the directory and then its own. -/
theorem names_join {directory name : String} (h : isAbsolute name = false) :
    names (join directory name) = names directory ++ names name := by
  rw [join, h, Bool.false_or]
  split
  · next hempty =>
    rw [of_decide_eq_true hempty]
    rfl
  · split
    · next hslash =>
      -- the slash at the end of the directory does what the one that is missing would do
      obtain ⟨init, hinit⟩ := List.getLast?_eq_some_iff.1 (of_decide_eq_true hslash)
      have hdirectory : directory = String.ofList init ++ "/" := by
        rw [← String.toList_inj, hinit]
        simp
      have hnames : names directory = names (String.ofList init) := by
        have hsplit := names_append_slash (String.ofList init) ""
        rw [String.append_empty, ← hdirectory] at hsplit
        rw [hsplit]
        exact List.append_nil _
      rw [hnames, hdirectory, names_append_slash]
    · exact names_append_slash directory name

/-- The first character decides where a path starts. -/
theorem isAbsolute_append_of_ne {path : String} (h : path ≠ "") (ending : String) :
    isAbsolute (path ++ ending) = isAbsolute path := by
  obtain ⟨c, rest, htext⟩ := List.exists_cons_of_ne_nil (mt String.toList_eq_nil_iff.1 h)
  rw [isAbsolute, isAbsolute, String.toList_append, htext]
  rfl

theorem isAbsolute_append {path ending : String} (h : isAbsolute ending = false) :
    isAbsolute (path ++ ending) = isAbsolute path := by
  by_cases hpath : path = ""
  · rw [hpath, String.empty_append, h]
    rfl
  · exact isAbsolute_append_of_ne hpath ending

theorem isAbsolute_join {directory name : String} (h : isAbsolute name = false) :
    isAbsolute (join directory name) = isAbsolute directory := by
  rw [join, h, Bool.false_or]
  split
  · next hempty =>
    rw [of_decide_eq_true hempty, h]
    rfl
  · next hne =>
    have hdirectory : directory ≠ "" := fun hempty ↦ hne (decide_eq_true hempty)
    split
    · exact isAbsolute_append h
    · rw [String.append_assoc, isAbsolute_append_of_ne hdirectory]

/-- A directory takes different names to different paths. -/
theorem join_inj {directory name name' : String} (h : isAbsolute name = false)
    (h' : isAbsolute name' = false) (heq : join directory name = join directory name') :
    name = name' := by
  rw [join, join, h, h'] at heq
  split at heq
  · exact heq
  · split at heq
    · exact String.append_right_inj _ |>.1 heq
    · exact String.append_right_inj _ |>.1 heq

/-- An ending goes on where a path ends. -/
theorem join_append {directory name ending : String} (h : isAbsolute ending = false) :
    join directory (name ++ ending) = join directory name ++ ending := by
  rw [join, join, isAbsolute_append h]
  split
  · rfl
  · split
    · exact (String.append_assoc ..).symm
    · exact (String.append_assoc ..).symm

/-! ### Endings -/

/-- An ending of names: a text without slashes that is not made of dots alone. -/
def IsEnding (ending : String) : Prop := '/' ∉ ending.toList ∧ ∃ c ∈ ending.toList, c ≠ '.'

variable {ending : String}

theorem IsEnding.ne_empty (h : IsEnding ending) : ending ≠ "" := by
  rintro rfl
  obtain ⟨c, hc, -⟩ := h.2
  exact absurd hc List.not_mem_nil

theorem IsEnding.isAbsolute (h : IsEnding ending) : isAbsolute ending = false := by
  rw [Path.isAbsolute, decide_eq_false_iff_not]
  exact fun hhead ↦ h.1 (List.mem_of_mem_head? hhead)

/-- A name with an ending leads down. -/
theorem IsEnding.step_append (h : IsEnding ending) (here : Place) (name : String) :
    Place.step here (name ++ ending) = here ++ [name ++ ending] := by
  obtain ⟨c, hc, hdot⟩ := h.2
  have hmem : c ∈ (name ++ ending).toList := by
    rw [String.toList_append]
    exact List.mem_append_right _ hc
  refine Place.step_of_ne (fun hname ↦ ?_) (fun hname ↦ ?_)
  · rw [hname] at hmem
    exact hdot (by simpa using hmem)
  · rw [hname] at hmem
    exact hdot (by simpa using hmem)

/-- The names of the directory in which something is that a path names: those before the last
slash. -/
def folder (path : String) : List String :=
  ((parts path.toList).dropLast.filter fun part ↦ !part.isEmpty).map String.ofList

/-- **An ending becomes part of the last name.** -/
theorem exists_names_append (path : String) :
    ∃ last, ∀ ending, IsEnding ending →
      names (path ++ ending) = folder path ++ [last ++ ending] := by
  obtain ⟨init, last, h⟩ := exists_parts_append path.toList
  have hpath : parts path.toList = init ++ [last] := by simpa using h [] List.not_mem_nil
  refine ⟨String.ofList last, fun ending hending ↦ ?_⟩
  have hlast : (last ++ ending.toList).isEmpty = false := by
    rw [List.isEmpty_eq_false_iff]
    exact List.append_ne_nil_of_right_ne_nil _ (mt String.toList_eq_nil_iff.1 hending.ne_empty)
  rw [names, folder, hpath, String.toList_append, h _ hending.1, List.filter_append,
    List.map_append]
  simp [hlast]

/-! ### Steps -/

/-- A path that starts from the current directory has a step. -/
theorem steps_ne_nil {path : String} (hne : path ≠ "") (hrelative : isAbsolute path = false) :
    steps path ≠ [] := by
  obtain ⟨c, rest, htext⟩ : ∃ c rest, path.toList = c :: rest :=
    List.exists_cons_of_ne_nil (mt String.toList_eq_nil_iff.1 hne)
  have hc : c ≠ '/' := by simpa [isAbsolute, htext] using hrelative
  obtain ⟨part, more, hparts⟩ := exists_parts_eq_cons rest
  obtain ⟨name, more, hnames⟩ : ∃ name more, names path = name :: more := by
    rw [names, htext, parts_cons_of_ne hc hparts]
    exact ⟨String.ofList (c :: part), _, rfl⟩
  rw [steps, hrelative, hnames]
  split
  · simp
  · next hother =>
    have hstay : name ≠ "." := by
      rintro rfl
      exact hother more rfl rfl
    simp [hstay]

/-- The beginnings of a list of names, longest first, without the whole and the empty one. -/
def shorter (names : List String) : List (List String) :=
  ((List.range names.length).drop 1).reverse.map names.take

theorem ancestors_eq_shorter (path : String) : ancestors path = shorter (steps path) := rfl

theorem shorter_concat {names : List String} (h : names ≠ []) (name : String) :
    shorter (names ++ [name]) = names :: shorter names := by
  have hpos : 1 ≤ (List.range names.length).length := by
    rw [List.length_range]
    exact List.length_pos_iff.2 h
  rw [shorter, List.length_append, List.length_singleton, List.range_succ,
    List.drop_append_of_le_length hpos, List.reverse_append, List.reverse_singleton,
    List.singleton_append, List.map_cons, List.take_left, shorter]
  congr 1
  refine List.map_congr_left fun i hi ↦ ?_
  have hlt : i < names.length :=
    List.mem_range.1 (List.mem_of_mem_drop (List.mem_reverse.1 hi))
  exact List.take_append_of_le_length (Nat.le_of_lt hlt)

end Path

end Provenance
