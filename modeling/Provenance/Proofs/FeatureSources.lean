import Provenance.Proofs.FlagContents
import Provenance.Proofs.Planning

/-!
# Where features come from

A feature may be switched on by the command line or by the options of a project. What counts is only
whether it is switched on (`Flags.enableAll_congr`): neither how often, nor in which order, nor by
whom. A job decides on everything else with the flags in its hands, so a configuration can be
replaced by the features that it stands for (`Job.result_plan_eq_of_features`), and the run ends
alike and leaves the same files.

The records that a run leaves are another matter; they tell where a feature comes from.
-/

namespace Provenance

/-! ### Flags -/

namespace Flags

/-- After features have been switched on their keys hold `true`, and other keys are as before. -/
theorem get?_enableAll (s : Flags) (features : List Feature) (key : String) :
    (s.enableAll features).get? key =
      if key ∈ features.map Feature.key then some (.switch true) else s.get? key := by
  induction features generalizing s with
  | nil => simp [enableAll]
  | cons f rest ih =>
    have hcons : s.enableAll (f :: rest) = (s.enable f).enableAll rest := rfl
    rw [hcons, ih, enable, switchOn, get?_set]
    by_cases hrest : key ∈ rest.map Feature.key
    · simp [hrest]
    · by_cases hkey : key = f.key <;> simp [hrest, hkey]

/-- **Only the set of features counts.** -/
theorem enableAll_congr (s : Flags) {features features' : List Feature}
    (h : ∀ f, f ∈ features ↔ f ∈ features') : s.enableAll features = s.enableAll features' := by
  have hkeys : ∀ key, key ∈ features.map Feature.key ↔ key ∈ features'.map Feature.key := by
    intro key
    simp only [List.mem_map, h]
  exact ext_get? fun key ↦ by simp only [get?_enableAll, hkeys]

theorem enableAll_append (s : Flags) (features more : List Feature) :
    s.enableAll (features ++ more) = (s.enableAll features).enableAll more :=
  List.foldl_append

end Flags

/-- The features that options switch on are those that are set to `true`. -/
theorem Options.mem_features_iff {o : Options} {f : Feature} :
    f ∈ o.features ↔ o.get f = some true := by
  have horder : f ∈ order := by cases f <;> decide
  simp [features, horder]

/-! ### Jobs -/

namespace Job

variable {args : Arguments} {read : String → Except FileFault String}

/-- A configuration that is read gives the flags of the first project of the name. -/
theorem result_loadFlags {path text project : String} {configuration : Configuration} {p : Project}
    (hread : read path = .ok text) (hparse : Configuration.ofText text = .ok configuration)
    (hfind : configuration.find? project = some p) :
    (loadFlags read path project).result = .ok p.options.flags := by
  rw [loadFlags]
  simp only [hread, hparse, Except.mapError, Logged.result_bind, Logged.result_ofExcept,
    Logged.result_record, Except.bind, hfind, result_enable]
  rfl

/-- Arguments that name features and no configuration. -/
def withFeatures (args : Arguments) (features : List Feature) : Arguments :=
  { args with config := none, project := none, features }

/-- **A configuration can be replaced** by the features that it stands for, as far as the plan
goes. -/
theorem result_plan_eq_of_features {path text : String} {configuration : Configuration}
    {p : Project} {features : List Feature} (hconfig : args.config = some path)
    (hread : read path = .ok text) (hparse : Configuration.ofText text = .ok configuration)
    (hfind : ∀ m, loadManifest read args.manifest = .ok m →
      configuration.find? (args.project.getD m.name) = some p)
    (hfeatures : ∀ f, f ∈ features ↔ f ∈ args.features ∨ p.options.get f = some true) :
    (plan args read).result = (plan (withFeatures args features) read).result := by
  have hflags : p.options.flags.enableAll args.features = Flags.empty.enableAll features := by
    rw [Options.flags, ← Flags.enableAll_append]
    refine Flags.enableAll_congr _ fun f ↦ ?_
    rw [List.mem_append, Options.mem_features_iff, hfeatures, or_comm]
  rw [result_plan, result_plan]
  cases hm : loadManifest read args.manifest with
  | error fault =>
    have hm' : loadManifest read (withFeatures args features).manifest = .error fault := hm
    rw [hm']
    rfl
  | ok m =>
    have hm' : loadManifest read (withFeatures args features).manifest = .ok m := hm
    have hbase : (projectFlags args read m.name).result = .ok p.options.flags := by
      rw [projectFlags, hconfig]
      exact result_loadFlags hread hparse (hfind m hm)
    have hempty : (projectFlags (withFeatures args features) read m.name).result = .ok .empty := rfl
    rw [hm']
    simp only [hbase, hempty, bind, Except.bind, hflags]
    rfl

/-- Runs that are planned alike end alike. -/
theorem runIn_congr {args' : Arguments} {fs : FileSystem}
    (h : (plan args fs.readText).result = (plan args' fs.readText).result) :
    (runIn fs args).1.result = (runIn fs args').1.result ∧
      (runIn fs args).2 = (runIn fs args').2 := by
  rw [runIn_eq, runIn_eq, h]
  cases (plan args' fs.readText).result with
  | error fault => exact ⟨rfl, rfl⟩
  | ok p => exact ⟨rfl, rfl⟩

/-- **The source of a feature does not matter.** A run with a project configuration that is read and
has the selected project, the one named by the arguments or else by the manifest, ends like a run
without configuration whose features are those of the arguments and those that the options of the
project set to `true`, in any order and however often: with the same report or the same fault, and
with the same files. -/
theorem runIn_withFeatures {fs : FileSystem} {args : Arguments} {path text : String}
    {configuration : Configuration} {p : Project} {features : List Feature}
    (hconfig : args.config = some path) (hread : fs.readText path = .ok text)
    (hparse : Configuration.ofText text = .ok configuration)
    (hfind : ∀ m, loadManifest fs.readText args.manifest = .ok m →
      configuration.find? (args.project.getD m.name) = some p)
    (hfeatures : ∀ f, f ∈ features ↔ f ∈ args.features ∨ p.options.get f = some true) :
    (runIn fs args).1.result = (runIn fs (withFeatures args features)).1.result ∧
      (runIn fs args).2 = (runIn fs (withFeatures args features)).2 :=
  runIn_congr (result_plan_eq_of_features hconfig hread hparse hfind hfeatures)

/-- The text of a manifest with a fragment for debugging. -/
def gaugeText : String :=
  "\x7b\"name\":\"gauge\",\"fragments\":[\x7b\"name\":\"f\",\"code\":\"f\",\"kind\":\"debug\"\x7d]\x7d"

/-- Options for debugging, in which a handler is switched off. -/
def gaugeOptions : Options := ⟨some true, some false, none, none, none⟩

/-- A configuration with two projects of one name. -/
def gaugeConfiguration : Configuration :=
  ⟨[⟨"gauge", "", "", gaugeOptions⟩, ⟨"gauge", "", "", .unset⟩]⟩

/-- Its text, with a comment. -/
def gaugeConfigurationText : String :=
  "\x7b\"projects\":[[\"gauge\",\"\",\"\",\x7b\"debug\":true,\"external\":false\x7d]," ++
    "[\"gauge\",\"\",\"\"]/*]*/]\x7d"

/-- A file system with the two texts. -/
def workshop : FileSystem where
  nodes :=
    [(["work"], .directory),
      (["work", "gauge.json"], .file gaugeText.toUTF8),
      (["work", "projects.json"], .file gaugeConfigurationText.toUTF8)]
  current := ["work"]

/-- A job with the configuration and one more feature. -/
def configured : Arguments :=
  ⟨"gauge.json", some "projects.json", none, [.external, .inline], .human, [0], some "out", none,
    none⟩

/-- The run succeeds, and so does the one that names the features, with the same report and the same
files. -/
theorem runIn_withFeatures_workshop :
    let features : List Feature := [.inline, .debug, .external, .debug]
    ∃ r, (runIn workshop configured).1.result = .ok r ∧
      (runIn workshop (withFeatures configured features)).1.result = .ok r ∧
      (runIn workshop configured).2 = (runIn workshop (withFeatures configured features)).2 := by
  intro features
  have hread : workshop.readText "projects.json" = .ok gaugeConfigurationText := by decide +kernel
  have hparse : Configuration.ofText gaugeConfigurationText = .ok gaugeConfiguration := by
    decide +kernel
  have hname : (loadManifest workshop.readText "gauge.json").map Manifest.name = .ok "gauge" := by
    decide +kernel
  have hfind : ∀ m, loadManifest workshop.readText configured.manifest = .ok m →
      gaugeConfiguration.find? (configured.project.getD m.name) =
        some ⟨"gauge", "", "", gaugeOptions⟩ := by
    intro m hm
    have hm' : m.name = "gauge" :=
      Except.ok.inj ((congrArg (·.map Manifest.name) hm).symm.trans hname)
    rw [hm']
    decide +kernel
  have hfeatures : ∀ f, f ∈ features ↔
      f ∈ configured.features ∨ gaugeOptions.get f = some true := by
    intro f
    cases f <;> decide
  obtain ⟨r, hr⟩ :=
    Logged.exists_result_eq_ok (x := (runIn workshop configured).1) (by decide +kernel)
  have hconfig : configured.config = some "projects.json" := rfl
  obtain ⟨hresult, hfiles⟩ := runIn_withFeatures hconfig hread hparse hfind hfeatures
  exact ⟨r, hr, hresult.symm.trans hr, hfiles⟩

end Job

end Provenance
