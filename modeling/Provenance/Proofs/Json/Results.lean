import Provenance.Log
import Provenance.Proofs.Json.Records

/-!
# What readers return

Whatever the text, a value that a reader returns is made of values that its parts return
(`Reader.Returns`). A number is below the bound of its reader, the values of a table are returned by
the reader of values, and each value of a record is its field's default or is returned by its
field's reader (`Fields.originates_of_returns`).
-/

namespace Provenance.Json

namespace Reader

variable {α β κ : Type}

/-- The reader returns the value for some text. -/
def Returns (read : Reader α) (a : α) : Prop := ∃ c c', read c = .ok (a, c')

theorem stop_ne_ok (c : Cursor) (cause : Cause) (a : α) : c.stop cause ≠ .ok a := by
  simp [Cursor.stop]

theorem returns_of_map {read : Reader α} {f : α → β} {b : β} (h : (read.map f).Returns b) :
    ∃ a, read.Returns a ∧ f a = b := by
  obtain ⟨c, c', h⟩ := h
  obtain ⟨⟨a, c''⟩, hread, hpure⟩ := exists_of_bind_eq_ok h
  cases hpure
  exact ⟨a, ⟨c, c', hread⟩, rfl⟩

/-- A value that is parsed is returned. -/
theorem returns_of_parse {read : Reader α} {text : String} {a : α}
    (h : read.parse text = .ok a) : read.Returns a := by
  obtain ⟨⟨a', c⟩, hread, hend⟩ := exists_of_bind_eq_ok h
  simp only at hend
  split at hend
  · cases hend
    exact ⟨_, _, hread⟩
  · exact absurd hend (stop_ne_ok _ _ _)

/-- Nothing else than what is taken is returned. -/
theorem returns_of_expect {take : Found → Except Cause α} {a : α} (h : (expect take).Returns a) :
    ∃ found, take found = .ok a := by
  obtain ⟨c, c', h⟩ := h
  obtain ⟨⟨found, c''⟩, -, h⟩ := exists_of_bind_eq_ok h
  simp only at h
  split at h
  · next htake => cases h; exact ⟨found, htake⟩
  · exact absurd h (stop_ne_ok _ _ _)

theorem not_returns_refuse (wanted : Wanted) (a : α) : ¬ (refuse wanted).Returns a := by
  intro h
  obtain ⟨found, hfound⟩ := returns_of_expect h
  exact absurd hfound (by simp)

/-- A number is below the bound of its reader. -/
theorem lt_of_returns_below {bound n : ℕ} {wanted : Wanted} (h : (below bound wanted).Returns n) :
    n < bound := by
  obtain ⟨found, hfound⟩ := returns_of_expect h
  split at hfound
  · split at hfound
    · next hlt => cases hfound; exact hlt
    · exact absurd hfound (by simp)
  · exact absurd hfound (by simp)
  · exact absurd hfound (by simp)

/-- The values of members are returned by the reader of values. -/
theorem returns_of_mem_pairs {key : Reader κ} {value : Reader α} {steps : ℕ} {isFirst : Bool}
    {c c' : Cursor} {ps : List (κ × α)} (h : pairs key value steps isFirst c = .ok (ps, c'))
    {p : κ × α} (hp : p ∈ ps) : value.Returns p.2 := by
  induction steps generalizing isFirst c c' ps with
  | zero => exact absurd h (stop_ne_ok c _ _)
  | succ steps ih =>
    obtain ⟨⟨more, c₁⟩, -, h⟩ := exists_of_bind_eq_ok h
    cases more with
    | false =>
      cases h
      exact absurd hp List.not_mem_nil
    | true =>
      obtain ⟨⟨k, c₂⟩, -, h⟩ := exists_of_bind_eq_ok h
      obtain ⟨c₃, -, h⟩ := exists_of_bind_eq_ok h
      obtain ⟨⟨a, c₄⟩, ha, h⟩ := exists_of_bind_eq_ok h
      obtain ⟨⟨rest, c₅⟩, hrest, h⟩ := exists_of_bind_eq_ok h
      cases h
      rcases List.mem_cons.1 hp with rfl | hp
      · exact ⟨c₃, c₄, ha⟩
      · exact ih hrest hp

/-- The values of a table are returned by the reader of values. -/
theorem returns_of_mem_table {value : Reader α} {t : Table UInt32 α} (h : (table value).Returns t)
    {p : UInt32 × α} (hp : p ∈ t.entries) : value.Returns p.2 := by
  obtain ⟨c, c', h⟩ := h
  rw [table] at h
  split at h
  · obtain ⟨ps, ⟨c₁, c₂, hrest⟩, rfl⟩ := returns_of_map ⟨_, _, h⟩
    obtain ⟨⟨ps', c₃⟩, hpairs, hend⟩ := exists_of_bind_eq_ok hrest
    obtain ⟨c₄, -, hpure⟩ := exists_of_bind_eq_ok hend
    cases hpure
    have hmem : p ∈ ps := List.mem_mergeSort.1 ((Table.keepLast_sublist _).subset hp)
    exact returns_of_mem_pairs hpairs hmem
  · exact absurd ⟨_, _, h⟩ (not_returns_refuse _ t)

end Reader

namespace Fields

open Reader

variable {τ δ : Type}

/-- Each value is its field's default or is returned by its field's reader. -/
def Originates : {τ δ : Type} → Fields τ δ → τ → Prop
  | _, _, .done, () => True
  | _, _, .field _ read default rest, (a, b) =>
    (read.Returns a ∨ default = some a) ∧ rest.Originates b

/-- Each value that has come is returned by its field's reader. -/
def Collects : {τ δ : Type} → Fields τ δ → δ → Prop
  | _, _, .done, () => True
  | _, _, .field _ read _ rest, (value, values) =>
    (∀ a ∈ value, read.Returns a) ∧ rest.Collects values

theorem collects_blank (fields : Fields τ δ) : fields.Collects fields.blank := by
  induction fields with
  | done => trivial
  | field _ _ _ _ ih => exact ⟨fun _ h ↦ absurd h (by simp), ih⟩

/-- A value that is assigned has been read. -/
theorem Collects.assign {fields : Fields τ δ} {key : String} {values values' : δ} {c c' : Cursor}
    (h : fields.Collects values) (hassign : fields.assign key values c = some (.ok (values', c'))) :
    fields.Collects values' := by
  induction fields with
  | done => exact absurd hassign (by simp [Fields.assign])
  | field k read default rest ih =>
    obtain ⟨value, values⟩ := values
    obtain ⟨hvalue, hrest⟩ := h
    by_cases heq : k = key
    · cases value with
      | some a => simp [Fields.assign, heq, Cursor.stop] at hassign
      | none =>
        rw [Fields.assign, if_pos heq] at hassign
        obtain ⟨c₁, -, hassign⟩ := exists_of_bind_eq_ok (Option.some.inj hassign)
        obtain ⟨⟨a, c₂⟩, hread, hassign⟩ := exists_of_bind_eq_ok hassign
        cases hassign
        exact ⟨fun a' ha' ↦ Option.some.inj ha' ▸ ⟨_, _, hread⟩, hrest⟩
    · rw [assign_field_of_ne heq, Option.map_eq_some_iff] at hassign
      obtain ⟨r, hr, hassign⟩ := hassign
      cases r with
      | error e => exact absurd hassign (by simp [Except.map])
      | ok r =>
        cases hassign
        exact ⟨hvalue, ih hrest hr⟩

/-- The values of the members of an object have been read. -/
theorem Collects.members {fields : Fields τ δ} {steps : ℕ} {isFirst : Bool} {values values' : δ}
    {c c' : Cursor} (h : fields.Collects values)
    (hmembers : fields.members steps isFirst values c = .ok (values', c')) :
    fields.Collects values' := by
  induction steps generalizing isFirst values c with
  | zero => exact absurd hmembers (stop_ne_ok c _ _)
  | succ steps ih =>
    obtain ⟨⟨more, c₁⟩, -, hmembers⟩ := exists_of_bind_eq_ok hmembers
    cases more with
    | false =>
      cases hmembers
      exact h
    | true =>
      obtain ⟨⟨key, c₂⟩, -, hmembers⟩ := exists_of_bind_eq_ok hmembers
      simp only at hmembers
      split at hmembers
      · next result hassign =>
        obtain ⟨⟨values₁, c₃⟩, hresult, hmembers⟩ := exists_of_bind_eq_ok hmembers
        exact ih (h.assign (hassign.trans (congrArg some hresult))) hmembers
      · obtain ⟨c₃, -, hmembers⟩ := exists_of_bind_eq_ok hmembers
        obtain ⟨c₄, -, hmembers⟩ := exists_of_bind_eq_ok hmembers
        exact ih h hmembers

/-- Values that have come, and defaults for the others, make the record. -/
theorem Collects.originates {fields : Fields τ δ} {values : δ} {t : τ} (h : fields.Collects values)
    (hcomplete : fields.complete values = .ok t) : fields.Originates t := by
  induction fields with
  | done => trivial
  | field k read default rest ih =>
    obtain ⟨value, values⟩ := values
    obtain ⟨hvalue, hrest⟩ := h
    rw [complete] at hcomplete
    split at hcomplete
    · next a ha =>
      cases hb : rest.complete values with
      | error e =>
        rw [hb] at hcomplete
        exact absurd hcomplete (by simp [Functor.map, Except.map])
      | ok b =>
        rw [hb] at hcomplete
        cases hcomplete
        exact ⟨(Option.or_eq_some_iff.1 ha).imp (hvalue a) And.right, ih hrest hb⟩
    · exact absurd hcomplete (by simp)

/-- The values of a record that is written as a list. -/
theorem originates_of_inOrder {fields : Fields τ δ} {short : ℕ → Cause} {n : ℕ} {isFirst : Bool}
    {c c' : Cursor} {t : τ} (h : fields.inOrder short n isFirst c = .ok (t, c')) :
    fields.Originates t := by
  induction fields generalizing n isFirst c c' with
  | done => trivial
  | field k read default rest ih =>
    obtain ⟨⟨more, c₁⟩, -, h⟩ := exists_of_bind_eq_ok h
    cases more with
    | true =>
      obtain ⟨⟨a, c₂⟩, ha, h⟩ := exists_of_bind_eq_ok h
      obtain ⟨⟨b, c₃⟩, hb, h⟩ := exists_of_bind_eq_ok h
      cases h
      exact ⟨.inl ⟨c₁, c₂, ha⟩, ih hb⟩
    | false =>
      cases default with
      | none => exact absurd h (stop_ne_ok _ _ _)
      | some a =>
        obtain ⟨⟨b, c₃⟩, hb, h⟩ := exists_of_bind_eq_ok h
        cases h
        exact ⟨.inr rfl, ih hb⟩

/-- Whatever the text, each value of a record is its field's default or was read for the field. -/
theorem originates_of_returns {kind : String} {fields : Fields τ δ} {t : τ}
    (h : (fields.record kind).Returns t) : fields.Originates t := by
  obtain ⟨c, c', h⟩ := h
  rw [record] at h
  split at h
  · obtain ⟨⟨t', c₁⟩, hread, h⟩ := exists_of_bind_eq_ok h
    obtain ⟨c₂, -, h⟩ := exists_of_bind_eq_ok h
    cases h
    exact originates_of_inOrder hread
  · obtain ⟨⟨values, c₁⟩, hread, h⟩ := exists_of_bind_eq_ok h
    obtain ⟨c₂, -, h⟩ := exists_of_bind_eq_ok h
    split at h
    · next hcomplete =>
      cases h
      exact ((collects_blank fields).members hread).originates hcomplete
    · exact absurd h (stop_ne_ok _ _ _)
  · exact absurd ⟨_, _, h⟩ (not_returns_refuse _ t)

end Fields

end Provenance.Json
