import Provenance.Json.Record
import Provenance.Proofs.Json.Scalars

/-!
# Records are read member by member

The members of an object come in any order. `Fields.Awaits` says what the fields make of the values
that have come and of the members that are still to come: a field has its value already, or exactly
one member has its key, or none has and there is a default. One step of the reader keeps this
(`Fields.Awaits.exists_assign_eq`, `Fields.Awaits.of_not_mem`), and when no member is left the
record is complete (`Fields.Awaits.complete_eq`). So an object is read to the record that its
members determine (`Fields.Awaits.reads`).
-/

namespace Provenance.Json

open Reader

/-- The text is passed over where a value is due that nobody asks for. -/
def Reader.Skips (t : List Char) : Prop :=
  ∀ {b rest : List Char} (line : ℕ), Blank b → Delimits rest →
    ∃ line', skipValue ⟨b ++ (t ++ rest), line⟩ = .ok ⟨rest, line'⟩

/-- The members of an object as they stand in a text: keys and the texts of values. -/
abbrev Members := List (String × List Char)

/-- The texts of the values under a key. -/
def Members.under (key : String) (items : Members) : List (List Char) :=
  (items.filter fun p ↦ p.1 = key).map Prod.snd

namespace Members

theorem under_cons_self (key : String) (t : List Char) (items : Members) :
    under key ((key, t) :: items) = t :: under key items := by
  simp [under]

theorem under_cons_of_ne {key k : String} (h : k ≠ key) (t : List Char) (items : Members) :
    under key ((k, t) :: items) = under key items := by
  simp [under, h]

end Members

namespace Fields

variable {τ δ : Type}

/-- The keys of the fields. -/
def keys : {τ δ : Type} → Fields τ δ → List String
  | _, _, .done => []
  | _, _, .field key _ _ rest => key :: rest.keys

/-- A field ends up with a value. It has come, and no text is left under the key; or one text is
left and read to it; or no text is left and it is the default. -/
def FieldAwaits {α : Type} (read : Reader α) (default : Option α) :
    Option α → List (List Char) → α → Prop
  | some a', [], a => a' = a
  | none, [t], a => read.Reads t a
  | none, [], a => default = some a
  | _, _, _ => False

/-- The fields end up with values, given those that have come and the members that are left. -/
def Awaits : {τ δ : Type} → Fields τ δ → δ → Members → τ → Prop
  | _, _, .done, (), _, () => True
  | _, _, .field key read default rest, (value, values), items, (a, b) =>
    FieldAwaits read default value (items.under key) a ∧ rest.Awaits values items b

/-- The key of another field is left to the other fields. -/
theorem assign_field_of_ne {α : Type} {k key : String} (h : k ≠ key) (read : Reader α)
    (default value : Option α) (rest : Fields τ δ) (values : δ) (c : Cursor) :
    (field k read default rest).assign key (value, values) c =
      (rest.assign key values c).map fun r ↦ r.map fun (values, c) ↦ ((value, values), c) := by
  cases value <;> rw [assign, if_neg h]

/-- A key that is no field's is not assigned. -/
theorem assign_eq_none {fields : Fields τ δ} {key : String} (hkey : key ∉ fields.keys) (values : δ)
    (c : Cursor) : fields.assign key values c = none := by
  induction fields with
  | done => rfl
  | field k read default rest ih =>
    obtain ⟨hne, hrest⟩ := List.ne_and_not_mem_of_not_mem_cons hkey
    rw [assign_field_of_ne hne.symm, ih hrest]
    rfl

/-- The key of a field is assigned, or refused. -/
theorem not_mem_of_assign_eq_none {fields : Fields τ δ} {key : String} {values : δ} {c : Cursor}
    (h : fields.assign key values c = none) : key ∉ fields.keys := by
  induction fields with
  | done => exact List.not_mem_nil
  | field k read default rest ih =>
    by_cases heq : k = key
    · obtain ⟨value, values⟩ := values
      cases value <;> simp [assign, heq] at h
    · rw [assign_field_of_ne heq, Option.map_eq_none_iff] at h
      exact List.not_mem_cons_of_ne_of_not_mem (Ne.symm heq) (ih h)

namespace Awaits

variable {fields : Fields τ δ} {values : δ} {items : Members} {key : String} {t : List Char} {b : τ}

/-- A member whose key is no field's does not matter. -/
theorem of_not_mem (hkey : key ∉ fields.keys) (h : fields.Awaits values ((key, t) :: items) b) :
    fields.Awaits values items b := by
  induction fields with
  | done => trivial
  | field k read default rest ih =>
    obtain ⟨hne, hrest⟩ := List.ne_and_not_mem_of_not_mem_cons hkey
    obtain ⟨hhead, htail⟩ := h
    rw [Members.under_cons_of_ne hne] at hhead
    exact ⟨hhead, ih hrest htail⟩

/-- The value of a field's member is read and kept. -/
theorem exists_assign_eq (hkeys : fields.keys.Nodup) (hkey : key ∈ fields.keys)
    (h : fields.Awaits values ((key, t) :: items) b) :
    ∃ values', fields.Awaits values' items b ∧ ∀ {g g' rest : List Char} (line : ℕ), Blank g →
      Blank g' → Delimits rest → ∃ line',
        fields.assign key values ⟨g ++ ':' :: (g' ++ (t ++ rest)), line⟩ =
          some (.ok (values', ⟨rest, line'⟩)) := by
  induction fields with
  | done => exact absurd hkey List.not_mem_nil
  | field k read default rest ih =>
    obtain ⟨hk, hkeys⟩ := List.nodup_cons.1 hkeys
    obtain ⟨value, values⟩ := values
    obtain ⟨a, b⟩ := b
    obtain ⟨hhead, htail⟩ := h
    by_cases heq : k = key
    · subst heq
      rw [Members.under_cons_self] at hhead
      -- A text is left under the key, so the field has no value yet, and it is the only one.
      cases value with
      | some a' => exact hhead.elim
      | none =>
        cases hitems : items.under k with
        | cons t' ts => rw [hitems] at hhead; exact hhead.elim
        | nil =>
          rw [hitems] at hhead
          have hread : read.Reads t a := hhead
          refine ⟨(some a, values), ⟨by rw [hitems]; rfl, of_not_mem hk htail⟩, ?_⟩
          intro g g' rest line hg hg' hrest
          obtain ⟨line₁, hcolon⟩ := exists_skipColon_eq hg (g' ++ (t ++ rest)) line
          obtain ⟨line₂, hvalue⟩ := hread.reads line₁ hg' hrest
          refine ⟨line₂, ?_⟩
          rw [assign, if_pos rfl]
          simp [hcolon, hvalue, bind, Except.bind, pure, Except.pure]
    · rw [Members.under_cons_of_ne (Ne.symm heq)] at hhead
      obtain ⟨values', hawaits, hassign⟩ :=
        ih hkeys ((List.mem_cons.1 hkey).resolve_left (Ne.symm heq)) htail
      refine ⟨(value, values'), ⟨hhead, hawaits⟩, fun line hg hg' hrest ↦ ?_⟩
      obtain ⟨line', hassign⟩ := hassign line hg hg' hrest
      exact ⟨line', by rw [assign_field_of_ne heq, hassign]; rfl⟩

/-- When no member is left the record is complete. -/
theorem complete_eq (h : fields.Awaits values [] b) : fields.complete values = .ok b := by
  induction fields with
  | done => rfl
  | field k read default rest ih =>
    obtain ⟨value, values⟩ := values
    obtain ⟨a, b⟩ := b
    obtain ⟨hhead, htail⟩ := h
    have hvalue : value.or default = some a := by
      cases value with
      | some a' => exact congrArg some hhead
      | none => exact hhead
    rw [complete, hvalue]
    show (a, ·) <$> rest.complete values = _
    rw [ih htail]
    rfl

/-- All members are read, up to the closing bracket. -/
theorem exists_members_eq {isFirst : Bool} {u : List Char}
    (hu : Enclosed '\x7d' (Member (ReadsKey textRest) Eq) isFirst items u)
    (hkeys : fields.keys.Nodup) (hskip : ∀ p ∈ items, p.1 ∉ fields.keys → Skips p.2)
    (h : fields.Awaits values items b) {steps : ℕ} (hsteps : items.length < steps)
    (rest : List Char) (line : ℕ) :
    ∃ values' line', fields.members steps isFirst values ⟨u ++ rest, line⟩ =
      .ok (values', ⟨'\x7d' :: rest, line'⟩) ∧ fields.complete values' = .ok b := by
  induction items generalizing isFirst u values steps line with
  | nil =>
    obtain ⟨steps, rfl⟩ := Nat.exists_eq_add_one.2 (Nat.zero_lt_of_lt hsteps)
    obtain ⟨line', hnext⟩ := nextKey_last hu rest line
    exact ⟨values, line', by rw [members, hnext]; rfl, h.complete_eq⟩
  | cons p items ih =>
    obtain ⟨steps, rfl⟩ := Nat.exists_eq_add_one.2 (Nat.zero_lt_of_lt hsteps)
    obtain ⟨key, t⟩ := p
    obtain ⟨kt, g, g', v, more, hk, hg, hg', hv, hmore, hnext⟩ := nextKey_cons hu
    obtain rfl : v = t := hv
    obtain ⟨hp, hskip⟩ := List.forall_mem_cons.1 hskip
    have hdelimits := hmore.delimits (by decide) rest
    obtain ⟨line₁, hnext⟩ := hnext rest line
    obtain ⟨line₂, hkey⟩ := hk (g ++ ':' :: (g' ++ (v ++ (more ++ rest)))) line₁
    by_cases hmem : key ∈ fields.keys
    · obtain ⟨values', hawaits, hassign⟩ := h.exists_assign_eq hkeys hmem
      obtain ⟨line₃, hassign⟩ := hassign line₂ hg hg' hdelimits
      obtain ⟨values'', line₄, hmembers, hcomplete⟩ :=
        ih hmore hskip hawaits (Nat.lt_of_succ_lt_succ hsteps) line₃
      refine ⟨values'', line₄, ?_, hcomplete⟩
      simp [members, hnext, hkey, hassign, hmembers, bind, Except.bind]
    · obtain ⟨line₃, hcolon⟩ := exists_skipColon_eq hg (g' ++ (v ++ (more ++ rest))) line₂
      obtain ⟨line₄, hvalue⟩ := hp hmem line₃ hg' hdelimits
      obtain ⟨values', line₅, hmembers, hcomplete⟩ :=
        ih hmore hskip (h.of_not_mem hmem) (Nat.lt_of_succ_lt_succ hsteps) line₄
      refine ⟨values', line₅, ?_, hcomplete⟩
      simp [members, hnext, hkey, assign_eq_none hmem, hcolon, hvalue, hmembers, bind, Except.bind]

/-- An object is read to the record that its members determine. -/
theorem reads {u : List Char} (h : fields.Awaits fields.blank items b) (kind : String)
    (hkeys : fields.keys.Nodup) (hskip : ∀ p ∈ items, p.1 ∉ fields.keys → Skips p.2)
    (hu : Enclosed '\x7d' (Member (ReadsKey textRest) Eq) true items u) :
    (fields.record kind).Reads ('\x7b' :: u) b := by
  refine .of_skipBlanks rfl (by decide) fun {c rest line} hblanks _ ↦ ?_
  obtain ⟨values, line', hmembers, hcomplete⟩ :=
    h.exists_members_eq hu hkeys hskip (hu.length_lt rest) rest line
  refine ⟨line', ?_⟩
  simp only [record, hblanks, hmembers, hcomplete, bind, Except.bind]
  rfl

end Awaits

end Fields

end Provenance.Json
