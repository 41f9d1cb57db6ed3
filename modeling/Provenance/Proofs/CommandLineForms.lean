import Mathlib.Data.List.Forall2
import Provenance.CommandLine
import Provenance.Proofs.Translation

/-!
# Command lines and what they ask for

The same arguments can be asked for by many command lines. Options may come in any order, each of
them in one argument or in two, and an option that only says what holds without it may be left out.
`CommandLine.Writes` says which command lines give a list of options one after another, and
`CommandLine.Asks` says, for each option on its own, which values ask for what the arguments have.
Neither mentions the reading of a command line. Together they are enough for it to give the
arguments (`CommandLine.parse_of_writes`).

* **The two ways to give a value come to the same.** A value in an argument of its own is looked at
  one argument later, but it is set in its turn: collecting a written command line sets its options
  one after another, and then the manifest (`CommandLine.collect_of_writes`).
* **The order of different options does not matter**, since an option only adds to the values that a
  draft holds for it and leaves those of the others alone (`CommandLine.Draft.set_eq`). So a
  draft ends up with the values that have been given for each option (`CommandLine.Draft.setAll_eq`).
-/

namespace Provenance.CommandLine

/-! ### The text of options -/

/-- An option with the value that is given to it. -/
abbrev Given := Key × String

/-- The values that are given to an option, in their order. -/
def valuesOf (key : Key) (given : List Given) : List String :=
  (given.filter fun g ↦ g.1 = key).map Prod.snd

theorem valuesOf_cons_self (key : Key) (value : String) (given : List Given) :
    valuesOf key ((key, value) :: given) = value :: valuesOf key given := by
  simp [valuesOf]

theorem valuesOf_cons_of_ne {key k : Key} (h : k ≠ key) (value : String) (given : List Given) :
    valuesOf k ((key, value) :: given) = valuesOf k given := by
  simp [valuesOf, h.symm]

/-- The value may stand in an argument of its own. -/
def IsSeparable (value : String) : Prop := value = "-" ∨ value.toList.head? ≠ some '-'

instance (value : String) : Decidable (IsSeparable value) :=
  inferInstanceAs (Decidable (value = "-" ∨ value.toList.head? ≠ some '-'))

/-- The command line gives the options in their order, each in one argument or in two, and at its
end the manifest behind `--`. -/
inductive Writes (manifest : String) : List Given → List String → Prop
  /-- The manifest. -/
  | last : Writes manifest [] ["--", manifest]
  /-- An option in one argument. -/
  | joined {key : Key} {value : String} {given : List Given} {line : List String} :
    Writes manifest given line →
      Writes manifest ((key, value) :: given) (("--" ++ key.name ++ "=" ++ value) :: line)
  /-- An option in two arguments. -/
  | apart {key : Key} {value : String} {given : List Given} {line : List String} :
    IsSeparable value → Writes manifest given line →
      Writes manifest ((key, value) :: given) (("--" ++ key.name) :: value :: line)

/-! ### The meaning of values -/

/-- The numeral spells the offset: digits, of which the first may be zeros, behind a plus sign or no
sign, or for zero behind a minus sign. -/
def IsNumeral (value : String) (o : Offset) : Prop :=
  ∃ sign digits : List Char, value.toList = sign ++ digits ∧
    (sign = [] ∨ sign = ['+'] ∨ sign = ['-'] ∧ o = 0) ∧
    digits ≠ [] ∧ (∀ d ∈ digits, d.isDigit = true) ∧ Nat.ofDigitChars 10 digits 0 = o.toNat

/-- The name of a form of a report. -/
def formatName : Format → String
  | .human => "human"
  | .json => "json"
  | .machine => "machine"

/-- The name of the least urgent level that is logged. -/
def levelName : Option Level → String
  | none => "OFF"
  | some level => level.name

namespace Key

/-- What a value of an option stands for. -/
abbrev Value : Key → Type
  | config | project | outDir | basename => String
  | feature => Feature
  | output => Format
  | lookup => Offset
  | logLevel => Option Level

/-- The text stands for the value. Paths and names stand for themselves, and the case of the name of
a level does not matter. -/
def Spells : (key : Key) → String → key.Value → Prop
  | config, text, value | project, text, value | outDir, text, value | basename, text, value =>
    text = value
  | feature, text, f => text = Feature.key f
  | output, text, format => text = formatName format
  | lookup, text, o => IsNumeral text o
  | logLevel, text, level => text.map Char.toUpper = levelName level

/-- What holds if the option is not given. -/
def preset : (key : Key) → List key.Value
  | output => [Format.human]
  | logLevel => [some Level.warn]
  | config | project | feature | lookup | outDir | basename => []

end Key

/-- What arguments have for an option. -/
def stated (a : Arguments) : (key : Key) → List key.Value
  | .config => a.config.toList
  | .project => a.project.toList
  | .feature => a.features
  | .output => [a.format]
  | .lookup => a.lookups
  | .outDir => a.outDir.toList
  | .basename => a.basename.toList
  | .logLevel => [a.logLevel]

/-- The values given for an option ask for what the arguments have for it: they stand for it in their
order, or there are none and it holds anyway. -/
def Asks (a : Arguments) (key : Key) (values : List String) : Prop :=
  List.Forall₂ key.Spells values (stated a key) ∨ values = [] ∧ stated a key = key.preset

/-! ### Values are understood -/

theorem lookup_formats {text : String} {format : Format} (h : text = formatName format) :
    formats.lookup text = some format := by
  subst h
  cases format <;> rfl

theorem level?_of_eq {text : String} {level : Option Level}
    (h : text.map Char.toUpper = levelName level) : level? text = some level := by
  rw [level?, h]
  rcases level with - | level
  · rfl
  · cases level <;> rfl

/-- Digits are understood as the number that they spell. -/
theorem digits?_eq {digits : List Char} (hne : digits ≠ [])
    (hdigits : ∀ d ∈ digits, d.isDigit = true) :
    digits? digits = some (Nat.ofDigitChars 10 digits 0) := by
  have hcheck : (digits.isEmpty || !digits.all Char.isDigit) = false := by
    simpa [hne] using hdigits
  rw [digits?, hcheck, Nat.ofDigitChars]
  simp only [Nat.mul_comm 10]
  rfl

/-- A numeral is understood as the offset that it spells. -/
theorem IsNumeral.offset? {value : String} {o : Offset} (h : IsNumeral value o) :
    offset? value = some o := by
  obtain ⟨sign, digits, hvalue, hsign, hne, hdigits, hnumber⟩ := h
  have hread : digits? digits = some o.toNat := by rw [digits?_eq hne hdigits, hnumber]
  have ho : Offset.ofNat? o.toNat = some o := Offset.ofNat?_eq_some_iff.2 rfl
  rw [CommandLine.offset?, hvalue]
  rcases hsign with rfl | rfl | ⟨rfl, rfl⟩
  · obtain ⟨d, ds, rfl⟩ := List.exists_cons_of_ne_nil hne
    have hd : d.isDigit = true := hdigits d List.mem_cons_self
    rw [List.nil_append]
    split
    · next heq => obtain ⟨rfl, -⟩ := List.cons.inj heq; exact absurd hd (by decide)
    · next heq => obtain ⟨rfl, -⟩ := List.cons.inj heq; exact absurd hd (by decide)
    · rw [hread]
      exact ho
  · show (do Offset.ofNat? (← digits? digits)) = some o
    rw [hread]
    exact ho
  · show (do if (← digits? digits) = 0 then some 0 else none) = some (0 : Offset)
    rw [hread]
    rfl

/-! ### Shapes -/

theorem ofName?_name (key : Key) : Key.ofName? key.name = some key := by cases key <;> rfl

theorem longSwitch?_name (key : Key) : longSwitch? key.name = none := by cases key <;> rfl

theorem not_mem_name (key : Key) : '=' ∉ key.name.toList := by cases key <;> decide

/-- The name of an option is told from its value by the first equals sign. -/
theorem shape_joined (key : Key) (value : String) :
    shape ("--" ++ key.name ++ "=" ++ value) = .long key.name (some value) := by
  have htext : ("--" ++ key.name ++ "=" ++ value).toList =
      '-' :: '-' :: (key.name.toList ++ '=' :: value.toList) := by
    simp
  have hplain : ∀ d ∈ key.name.toList, decide (d ≠ '=') = true := fun d hd ↦
    decide_eq_true fun heq ↦ not_mem_name key (heq ▸ hd)
  rw [shape, htext]
  split
  case h_1 h => exact absurd h (by simp)
  case h_2 body _ h =>
    obtain rfl : _ = body := (List.cons.inj (List.cons.inj h).2).2
    rw [List.takeWhile_append_of_pos hplain, List.dropWhile_append_of_pos hplain]
    simp
  case h_3 hletter h => exact absurd (List.cons.inj (List.cons.inj h).2).1.symm hletter
  case h_4 h => exact absurd rfl (h _ _)

theorem shape_name (key : Key) : shape ("--" ++ key.name) = .long key.name none := by
  cases key <;> rfl

theorem shape_of_isSeparable {value : String} (h : IsSeparable value) : shape value = .plain := by
  rw [shape]
  rcases h with rfl | hhead
  · rfl
  · split
    · next heq => simp [heq] at hhead
    · next heq => simp [heq] at hhead
    · next heq => simp [heq] at hhead
    · rfl

/-! ### One after another -/

namespace Draft

/-- Sets options, one after another. -/
def setAll (d : Draft) (given : List Given) : Except Stop Draft :=
  given.foldlM (fun d g ↦ d.set g.1 g.2) d

theorem setAll_cons (d : Draft) (key : Key) (value : String) (given : List Given) :
    d.setAll ((key, value) :: given) = (do (← d.set key value).setAll given) := by
  rw [setAll, List.foldlM_cons]
  rfl

/-- An option leaves the manifest alone. -/
theorem manifest_of_set {d d' : Draft} {key : Key} {value : String}
    (h : d.set key value = .ok d') : d'.manifest = d.manifest := by
  cases key with
  | config | project | output | outDir | basename | logLevel =>
    obtain ⟨_, -, h⟩ := exists_of_bind_eq_ok h
    cases h
    rfl
  | feature | lookup =>
    rw [set] at h
    split at h <;> cases h
    rfl

end Draft

theorem manifest_of_settle {pending : Pending} {d d' : Draft} (h : settle pending d = .ok d') :
    d'.manifest = d.manifest := by
  match pending with
  | none => cases h; rfl
  | some (_, none) => cases h
  | some (_, some _) => exact Draft.manifest_of_set h

/-- **Collecting is setting.** A command line that gives options and a manifest has the pending value
looked at, then sets the options one after another, and then the manifest. -/
theorem collect_of_writes {manifest : String} {given : List Given} {line : List String}
    (h : Writes manifest given line) {d : Draft} (hd : d.manifest = none) (pending : Pending) :
    collect d pending line = (do
      let d ← (← settle pending d).setAll given
      return { d with manifest := some manifest }) := by
  induction h generalizing d pending with
  | last =>
    show collectPlain d pending [manifest] = _
    rw [collectPlain, takeManifest, hd]
    cases settle pending d with
    | error stop => rfl
    | ok d₁ => rfl
  | @joined key value given line _ ih =>
    rw [collect.eq_def]
    simp only [shape_joined, longSwitch?_name, ofName?_name]
    cases hsettle : settle pending d with
    | error stop => rfl
    | ok d₁ =>
      have hd₁ : d₁.manifest = none := (manifest_of_settle hsettle).trans hd
      show (do collect (← d₁.set key value) none line) =
        (do
          let d ← d₁.setAll ((key, value) :: given)
          return { d with manifest := some manifest })
      rw [Draft.setAll_cons]
      cases hset : d₁.set key value with
      | error stop => rfl
      | ok d₂ => exact ih ((Draft.manifest_of_set hset).trans hd₁) none
  | @apart key value given line hvalue _ ih =>
    rw [collect.eq_def]
    simp only [shape_name, longSwitch?_name, ofName?_name]
    cases hsettle : settle pending d with
    | error stop => rfl
    | ok d₁ =>
      have hd₁ : d₁.manifest = none := (manifest_of_settle hsettle).trans hd
      -- The value is still pending when the rest is collected, and is set before anything else.
      show collect d₁ (some (key, none)) (value :: line) =
        (do
          let d ← d₁.setAll ((key, value) :: given)
          return { d with manifest := some manifest })
      rw [Draft.setAll_cons, collect.eq_def]
      simp only [shape_of_isSeparable hvalue]
      exact (ih hd₁ (some (key, some value))).trans (by rw [settle]; simp only [bind_assoc])

/-! ### In any order -/

namespace Draft

/-- What a draft holds for an option. -/
def held (d : Draft) : (key : Key) → List key.Value
  | .config => d.config.toList
  | .project => d.project.toList
  | .feature => d.features
  | .output => d.format.toList
  | .lookup => d.lookups
  | .outDir => d.outDir.toList
  | .basename => d.basename.toList
  | .logLevel => d.logLevel.toList

/-- A draft is what it holds, and the manifest. -/
theorem ext_held {d f : Draft} (hmanifest : d.manifest = f.manifest)
    (h : ∀ key, d.held key = f.held key) : d = f := by
  have htoList : ∀ {α : Type} {a b : Option α}, a.toList = b.toList → a = b := by
    intro α a b h
    cases a <;> cases b <;> simp_all
  obtain ⟨manifest, config, project, features, format, lookups, outDir, basename, logLevel⟩ := d
  obtain rfl : manifest = f.manifest := hmanifest
  obtain rfl : config = f.config := htoList (h .config)
  obtain rfl : project = f.project := htoList (h .project)
  obtain rfl : features = f.features := h .feature
  obtain rfl : format = f.format := htoList (h .output)
  obtain rfl : lookups = f.lookups := h .lookup
  obtain rfl : outDir = f.outDir := htoList (h .outDir)
  obtain rfl : basename = f.basename := htoList (h .basename)
  obtain rfl : logLevel = f.logLevel := htoList (h .logLevel)
  rfl

/-- Another value for an option may come: it may be repeated, or has none yet. -/
def Takes (d : Draft) (key : Key) : Prop := key = .feature ∨ key = .lookup ∨ d.held key = []

/-- All options but two have one value at most. -/
theorem length_held_le (d : Draft) {key : Key} (hfeature : key ≠ .feature) (hlookup : key ≠ .lookup) :
    (d.held key).length ≤ 1 := by
  cases key with
  | feature => exact absurd rfl hfeature
  | lookup => exact absurd rfl hlookup
  | config | project | output | outDir | basename | logLevel => exact Option.length_toList_le

/-- An option for which a draft goes on to hold another value takes it. -/
theorem takes_of_held_eq {d f : Draft} {key : Key} {x : key.Value} {xs : List key.Value}
    (h : f.held key = d.held key ++ x :: xs) : d.Takes key := by
  by_contra hne
  obtain ⟨hfeature, hlookup, hheld⟩ : key ≠ .feature ∧ key ≠ .lookup ∧ d.held key ≠ [] := by
    simpa only [Takes, not_or] using hne
  have hle := f.length_held_le hfeature hlookup
  rw [h, List.length_append, List.length_cons] at hle
  exact hheld (List.length_eq_zero_iff.1 (by omega))

/-- Adds a value to what is held for an option. -/
def add (d : Draft) : (key : Key) → key.Value → Draft
  | .config, path => { d with config := some path }
  | .project, name => { d with project := some name }
  | .feature, f => { d with features := d.features ++ [(f : Feature)] }
  | .output, format => { d with format := some format }
  | .lookup, o => { d with lookups := d.lookups ++ [(o : Offset)] }
  | .outDir, path => { d with outDir := some path }
  | .basename, name => { d with basename := some name }
  | .logLevel, level => { d with logLevel := some level }

theorem held_add_self {d : Draft} {key : Key} (h : d.Takes key) (x : key.Value) :
    (d.add key x).held key = d.held key ++ [x] := by
  cases key with
  | feature | lookup => rfl
  | config | project | output | outDir | basename | logLevel =>
    obtain hnone : d.held _ = [] := (h.resolve_left nofun).resolve_left nofun
    rw [hnone]
    rfl

theorem held_add_of_ne (d : Draft) {key k : Key} (h : k ≠ key) (x : key.Value) :
    (d.add key x).held k = d.held k := by
  cases key <;> cases k <;> first | rfl | exact absurd rfl h

theorem manifest_add (d : Draft) (key : Key) (x : key.Value) :
    (d.add key x).manifest = d.manifest := by
  cases key <;> rfl

/-- **An option adds what its value stands for.** -/
theorem set_eq {d : Draft} {key : Key} {text : String} {x : key.Value} (hx : key.Spells text x)
    (h : d.Takes key) : d.set key text = .ok (d.add key x) := by
  have hheld : key ≠ .feature → key ≠ .lookup → d.held key = [] := fun hfeature hlookup ↦
    (h.resolve_left hfeature).resolve_left hlookup
  cases key with
  | feature =>
    have hfeature : Feature.ofKey? text = some x := by
      rw [show text = Feature.key x from hx]
      exact Feature.ofKey?_key x
    rw [set, hfeature]
    rfl
  | lookup =>
    rw [set, IsNumeral.offset? hx]
    rfl
  | output =>
    rw [set, lookup_formats hx, Option.toList_eq_nil_iff.1 (hheld nofun nofun)]
    rfl
  | logLevel =>
    rw [set, level?_of_eq hx, Option.toList_eq_nil_iff.1 (hheld nofun nofun)]
    rfl
  | config | project | outDir | basename =>
    obtain rfl : text = x := hx
    rw [set, Option.toList_eq_nil_iff.1 (hheld nofun nofun)]
    rfl

/-- Values for all options lead from what is held to what they stand for, in whatever order options
are given. -/
theorem setAll_eq {d f : Draft} {given : List Given} (hmanifest : d.manifest = f.manifest)
    (h : ∀ key, ∃ xs, f.held key = d.held key ++ xs ∧
      List.Forall₂ key.Spells (valuesOf key given) xs) :
    d.setAll given = .ok f := by
  induction given generalizing d with
  | nil =>
    have hheld : ∀ key, d.held key = f.held key := by
      intro key
      obtain ⟨xs, hxs, hspells⟩ := h key
      obtain rfl := List.forall₂_nil_left_iff.1 hspells
      rw [hxs, List.append_nil]
    rw [ext_held hmanifest hheld]
    rfl
  | cons g given ih =>
    obtain ⟨key, text⟩ := g
    obtain ⟨xs, hxs, hspells⟩ := h key
    rw [valuesOf_cons_self] at hspells
    obtain ⟨x, xs, hx, hrest, rfl⟩ := List.forall₂_cons_left_iff.1 hspells
    have htakes : d.Takes key := takes_of_held_eq hxs
    rw [setAll_cons, set_eq hx htakes]
    refine ih ((d.manifest_add key x).trans hmanifest) fun k ↦ ?_
    by_cases hk : k = key
    · subst hk
      refine ⟨xs, ?_, hrest⟩
      rw [held_add_self htakes, hxs, List.append_assoc, List.singleton_append]
    · obtain ⟨ys, hys, hspells⟩ := h k
      rw [valuesOf_cons_of_ne hk] at hspells
      exact ⟨ys, by rw [held_add_of_ne d hk, hys], hspells⟩

end Draft

/-! ### What is asked for -/

/-- Values ask for an option that has a value in any case: by stating it, or by being none if it is
the preset one. -/
theorem exists_stated {α : Type} {Spells : String → α → Prop} {texts : List String} {x preset : α}
    (h : List.Forall₂ Spells texts [x] ∨ texts = [] ∧ [x] = [preset]) :
    ∃ said : Option α, List.Forall₂ Spells texts said.toList ∧ said.getD preset = x := by
  rcases h with h | ⟨rfl, h⟩
  · exact ⟨some x, h, rfl⟩
  · exact ⟨none, .nil, (List.singleton_inj.1 h).symm⟩

/-- Values that ask for an option without a preset state it. -/
theorem Asks.forall₂ {a : Arguments} {key : Key} {texts : List String} (h : Asks a key texts)
    (hpreset : key.preset = []) : List.Forall₂ key.Spells texts (stated a key) := by
  rcases h with h | ⟨rfl, h⟩
  · exact h
  · rw [h, hpreset]
    exact .nil

/-- Options that ask for arguments are those of a draft that makes them. -/
theorem exists_draft {a : Arguments} {given : List Given}
    (h : ∀ key, Asks a key (valuesOf key given)) :
    ∃ d : Draft, d.manifest = none ∧
      (∀ key, List.Forall₂ key.Spells (valuesOf key given) (d.held key)) ∧
      ((a.project.isSome = true → a.config.isSome = true) →
        { d with manifest := some a.manifest }.finish = .ok a) := by
  obtain ⟨format, hformat, hhuman⟩ := exists_stated (h .output)
  obtain ⟨logLevel, hlogLevel, hwarn⟩ := exists_stated (h .logLevel)
  refine ⟨⟨none, a.config, a.project, a.features, format, a.lookups, a.outDir, a.basename,
    logLevel⟩, rfl, fun key ↦ ?_, fun hproject ↦ ?_⟩
  · cases key with
    | output => exact hformat
    | logLevel => exact hlogLevel
    | config | project | feature | lookup | outDir | basename => exact (h _).forall₂ rfl
  · have hmissing : (a.project.isSome && a.config.isNone) = false := by
      cases hconfig : a.config with
      | some path => simp
      | none => simpa [hconfig] using hproject
    simp [Draft.finish, hmissing, hhuman, hwarn]

/-- The decimal numeral of an offset spells it. -/
theorem isNumeral_decimal (o : Offset) : IsNumeral (decimal o.toNat) o := by
  refine ⟨[], (decimal o.toNat).toList, rfl, .inl rfl, ?_, fun _ ↦ isDigit_of_mem_decimal, ?_⟩
  · rw [decimal, String.toList_ofList]
    exact Nat.toDigits_ne_nil
  · rw [decimal, String.toList_ofList, Nat.ofDigitChars_ten_toDigits]

theorem map_toUpper_levelName (level : Option Level) :
    (levelName level).map Char.toUpper = levelName level := by
  rcases level with - | level
  · decide +kernel
  · cases level <;> decide +kernel

/-- Every value of an option has a text. -/
theorem Key.exists_spells (key : Key) (x : key.Value) : ∃ text, key.Spells text x := by
  cases key with
  | config | project | feature | output | outDir | basename => exact ⟨_, rfl⟩
  | lookup => exact ⟨_, isNumeral_decimal x⟩
  | logLevel => exact ⟨_, map_toUpper_levelName x⟩

theorem Key.exists_forall₂ (key : Key) (xs : List key.Value) :
    ∃ texts, List.Forall₂ key.Spells texts xs := by
  induction xs with
  | nil => exact ⟨[], .nil⟩
  | cons x xs ih =>
    obtain ⟨text, htext⟩ := key.exists_spells x
    obtain ⟨texts, htexts⟩ := ih
    exact ⟨text :: texts, .cons htext htexts⟩

theorem exists_writes_given (manifest : String) (given : List Given) :
    ∃ line, Writes manifest given line := by
  induction given with
  | nil => exact ⟨_, .last⟩
  | cons g given ih =>
    obtain ⟨line, hline⟩ := ih
    exact ⟨_, .joined hline⟩

/-- All arguments can be asked for. -/
theorem exists_writes (a : Arguments) :
    ∃ given line, Writes a.manifest given line ∧ ∀ key, Asks a key (valuesOf key given) := by
  choose texts htexts using fun key : Key ↦ key.exists_forall₂ (stated a key)
  let given : List Given := Key.all.flatMap fun key ↦ (texts key).map fun text ↦ (key, text)
  have hvalues : ∀ key, valuesOf key given = texts key := by
    intro key
    cases key <;> simp [given, valuesOf, Key.all, List.filter_map, Function.comp_def]
  obtain ⟨line, hline⟩ := exists_writes_given a.manifest given
  exact ⟨given, line, hline, fun key ↦ .inl (by rw [hvalues]; exact htexts key)⟩

/-- **Every way to ask for arguments is understood.** A command line that gives the options of the
arguments, in any order but repeated ones in theirs, each in one argument or in two, and the
manifest at its end, is read to the arguments, whatever the paths and names are. The arguments must
not name a project without a configuration. There is such a command line for all arguments. -/
theorem parse_of_writes {a : Arguments}
    (hproject : a.project.isSome = true → a.config.isSome = true) :
    (∃ given line, Writes a.manifest given line ∧ ∀ key, Asks a key (valuesOf key given)) ∧
    ∀ given line, Writes a.manifest given line → (∀ key, Asks a key (valuesOf key given)) →
      parse line = .ok a := by
  refine ⟨exists_writes a, fun given line hline hgiven ↦ ?_⟩
  obtain ⟨d, hmanifest, hheld, hfinish⟩ := exists_draft hgiven
  have hset : Draft.blank.setAll given = .ok d := by
    refine Draft.setAll_eq hmanifest.symm fun key ↦ ⟨d.held key, ?_, hheld key⟩
    cases key <;> rfl
  have hcollect : collect .blank none line = .ok { d with manifest := some a.manifest } := by
    rw [collect_of_writes hline rfl none]
    show (do
      let d ← Draft.blank.setAll given
      return { d with manifest := some a.manifest }) = _
    rw [hset]
    rfl
  rw [parse, hcollect]
  exact hfinish hproject

/-- Arguments with texts that look like options or are empty. -/
def optionlike : Arguments where
  manifest := "--version"
  config := some ""
  project := some "-"
  features := [.debug, .inline, .debug]
  format := .human
  lookups := [7, 0]
  outDir := some "--out=a b"
  basename := none
  logLevel := none

/-- A command line for them. -/
def optionlikeLine : List String :=
  ["--lookup", "007", "--feature=debug", "--project", "-", "--feature", "inline", "--config=",
    "--lookup=-0", "--log-level", "oFf", "--out-dir=--out=a b", "--feature=debug", "--",
    "--version"]

/-- Such arguments are understood, with their options interleaved. -/
theorem parse_of_writes_optionlike :
    ((optionlike.project.isSome = true → optionlike.config.isSome = true) ∧
      ∃ given, Writes optionlike.manifest given optionlikeLine ∧
        ∀ key, Asks optionlike key (valuesOf key given)) ∧
      parse optionlikeLine = .ok optionlike := by
  let given : List Given := [(.lookup, "007"), (.feature, "debug"), (.project, "-"),
    (.feature, "inline"), (.config, ""), (.lookup, "-0"), (.logLevel, "oFf"),
    (.outDir, "--out=a b"), (.feature, "debug")]
  have hproject : optionlike.project.isSome = true → optionlike.config.isSome = true := fun _ ↦ rfl
  have hline : Writes optionlike.manifest given optionlikeLine :=
    .apart (by decide) (.joined (.apart (by decide) (.apart (by decide) (.joined (.joined
      (.apart (by decide) (.joined (.joined .last))))))))
  have hgiven : ∀ key, Asks optionlike key (valuesOf key given) := by
    intro key
    cases key with
    | config | project | outDir => exact .inl (.cons rfl .nil)
    | feature => exact .inl (.cons rfl (.cons rfl (.cons rfl .nil)))
    | output => exact .inr ⟨rfl, rfl⟩
    | lookup =>
      have hseven : IsNumeral "007" 7 :=
        ⟨[], ['0', '0', '7'], rfl, .inl rfl, by decide, List.all_eq_true.1 rfl, rfl⟩
      have hzero : IsNumeral "-0" 0 :=
        ⟨['-'], ['0'], rfl, .inr (.inr ⟨rfl, rfl⟩), by decide, List.all_eq_true.1 rfl, rfl⟩
      exact .inl (.cons hseven (.cons hzero .nil))
    | basename => exact .inl .nil
    | logLevel =>
      have hoff : "oFf".map Char.toUpper = levelName none := by decide +kernel
      exact .inl (.cons hoff .nil)
  exact ⟨⟨hproject, given, hline, hgiven⟩, (parse_of_writes hproject).2 given _ hline hgiven⟩

end Provenance.CommandLine
