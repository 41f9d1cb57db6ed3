/-!
# Log records

A computation that may fail and leaves log records behind is a `Logged` value: the records in the
order in which they were left, and the result. Records left before a failure are kept.

## The result alone

`Logged.result` forgets the records. It is compatible with sequencing (`Logged.result_bind`), so
what a computation returns can be studied in `Except` without regard to its records. There the
equations of sequencing and of changes to a result are read backwards: from the outcome of the whole
to the outcomes of its parts.
-/

namespace Provenance

/-! ### Results -/

section Result

variable {ε ε' α β : Type}

/-- What goes on with a result has one to go on with. -/
theorem exists_of_bind_eq_ok {x : Except ε α} {f : α → Except ε β} {b : β}
    (h : (do f (← x)) = .ok b) : ∃ a, x = .ok a ∧ f a = .ok b := by
  cases x with
  | error e => exact absurd h (by simp [bind, Except.bind])
  | ok a => exact ⟨a, rfl, h⟩

/-- What fails does so at first or in what goes on. -/
theorem eq_error_or_of_bind_eq_error {x : Except ε α} {f : α → Except ε β} {e : ε}
    (h : (do f (← x)) = .error e) : x = .error e ∨ ∃ a, x = .ok a ∧ f a = .error e := by
  cases x with
  | error e' => exact .inl (congrArg Except.error (Except.error.inj h))
  | ok a => exact .inr ⟨a, rfl, h⟩

theorem map_eq_ok_iff {f : α → β} {x : Except ε α} {b : β} :
    x.map f = .ok b ↔ ∃ a, x = .ok a ∧ f a = b := by
  cases x <;> simp [Except.map]

theorem map_eq_error_iff {f : α → β} {x : Except ε α} {e : ε} :
    x.map f = .error e ↔ x = .error e := by
  cases x <;> simp [Except.map]

theorem mapError_eq_ok_iff {f : ε → ε'} {x : Except ε α} {a : α} :
    x.mapError f = .ok a ↔ x = .ok a := by
  cases x with
  | error e => exact ⟨nofun, nofun⟩
  | ok b => exact ⟨fun h ↦ congrArg _ (Except.ok.inj h), fun h ↦ congrArg _ (Except.ok.inj h)⟩

theorem mapError_eq_error_iff {f : ε → ε'} {x : Except ε α} {e : ε'} :
    x.mapError f = .error e ↔ ∃ e', x = .error e' ∧ f e' = e := by
  cases x with
  | error e' =>
    constructor
    · exact fun h ↦ ⟨e', rfl, Except.error.inj h⟩
    · rintro ⟨e', h, rfl⟩
      obtain rfl := Except.error.inj h
      rfl
  | ok a => exact ⟨nofun, nofun⟩

end Result

/-! ### Records -/

/-- How much a record matters, most urgent first. -/
inductive Level where
  | error
  | warn
  | info
  | debug
  | trace
deriving DecidableEq, Inhabited

namespace Level

/-- All levels, most urgent first. -/
def all : List Level := [error, warn, info, debug, trace]

/-- The place of a level in the list of levels. -/
def rank : Level → Nat
  | error => 0
  | warn => 1
  | info => 2
  | debug => 3
  | trace => 4

/-- The name of a level in capitals. -/
def name : Level → String
  | error => "ERROR"
  | warn => "WARN"
  | info => "INFO"
  | debug => "DEBUG"
  | trace => "TRACE"

end Level

/-- The part of the program that leaves a record. -/
inductive Area where
  | application
  | configuration
  | features
  | pipeline
  | emission
  | recording
deriving DecidableEq, Inhabited

/-- The name under which an area signs its records. -/
def Area.name : Area → String
  | application => "tact_srcmap::app"
  | configuration => "compiler_context::config"
  | features => "compiler_context::features"
  | pipeline => "tact_pipeline"
  | emission => "tact_pipeline::fragments"
  | recording => "source_map::mapper"

/-- One log record. -/
structure Record where
  /-- How much it matters. -/
  level : Level
  /-- Who left it. -/
  area : Area
  /-- What it says. -/
  message : String
deriving DecidableEq, Inhabited

namespace Record

/-- The record passes a threshold; without a threshold none does. -/
def passes (r : Record) : Option Level → Bool
  | none => false
  | some level => r.level.rank ≤ level.rank

/-- The blanks in front of the further lines of a message. -/
def indent : List Char := List.replicate 4 ' '

/-- The message with its further lines indented. -/
def indented (r : Record) : String :=
  String.ofList (r.message.toList.flatMap fun c ↦ if c = '\n' then c :: indent else [c])

/-- The record as text; the level is padded to five characters. -/
def line (r : Record) : String :=
  "[" ++ r.level.name ++ "".pushn ' ' (5 - r.level.name.length) ++ " " ++ r.area.name ++ "] "
    ++ r.indented ++ "\n"

end Record

/-- Log records and a result. -/
structure Logged (ε α : Type) where
  /-- The records, in order. -/
  records : List Record
  /-- The result. -/
  result : Except ε α

namespace Logged

variable {ε ε' α β : Type}

instance : Monad (Logged ε) where
  pure a := ⟨[], .ok a⟩
  bind x f :=
    match x.result with
    | .ok a => ⟨x.records ++ (f a).records, (f a).result⟩
    | .error e => ⟨x.records, .error e⟩

/-- Leaves a record. -/
def record (level : Level) (area : Area) (message : String) : Logged ε Unit :=
  ⟨[⟨level, area, message⟩], .ok ()⟩

/-- A result without records. -/
def ofExcept (result : Except ε α) : Logged ε α := ⟨[], result⟩

/-- Fails without records. -/
def fail (e : ε) : Logged ε α := ⟨[], .error e⟩

/-- Changes the kind of failure. -/
def mapError (f : ε → ε') (x : Logged ε α) : Logged ε' α := ⟨x.records, x.result.mapError f⟩

@[simp] theorem result_pure (a : α) : (pure a : Logged ε α).result = .ok a := rfl

@[simp] theorem result_record (level : Level) (area : Area) (message : String) :
    (record level area message : Logged ε Unit).result = .ok () := rfl

@[simp] theorem result_ofExcept (r : Except ε α) : (ofExcept r).result = r := rfl

@[simp] theorem result_fail (e : ε) : (fail e : Logged ε α).result = .error e := rfl

@[simp] theorem result_mapError (f : ε → ε') (x : Logged ε α) :
    (x.mapError f).result = x.result.mapError f := rfl

@[simp] theorem result_bind (x : Logged ε α) (f : α → Logged ε β) :
    (x >>= f).result = x.result.bind fun a ↦ (f a).result := by
  obtain ⟨records, _ | a⟩ := x <;> rfl

theorem eq_error_or_of_result_bind_eq_error {x : Logged ε α} {f : α → Logged ε β} {e : ε}
    (h : (x >>= f).result = .error e) :
    x.result = .error e ∨ ∃ a, x.result = .ok a ∧ (f a).result = .error e :=
  eq_error_or_of_bind_eq_error (by rwa [result_bind] at h)

/-- The result of a loop is the loop of the results. -/
theorem result_foldlM (f : β → α → Logged ε β) (l : List α) (b : β) :
    (l.foldlM f b).result = l.foldlM (fun b a ↦ (f b a).result) b := by
  induction l generalizing b with
  | nil => rfl
  | cons a rest ih =>
    rw [List.foldlM_cons, List.foldlM_cons, result_bind]
    cases h : (f b a).result with
    | error e => rfl
    | ok b' => exact ih b'

theorem exists_result_eq_ok {x : Logged ε α} (h : x.result.isOk = true) :
    ∃ a, x.result = .ok a := by
  cases hx : x.result with
  | error e =>
    rw [hx] at h
    exact absurd h (by simp [Except.isOk, Except.toBool])
  | ok a => exact ⟨a, rfl⟩

end Logged

end Provenance
