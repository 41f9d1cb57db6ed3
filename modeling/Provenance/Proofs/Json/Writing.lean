import Mathlib.Data.List.Forall2
import Provenance.Proofs.Json.Records

/-!
# What is written is read

A layout puts nothing but blanks between tokens (`Json.Layout.IsBlank`). Lists and objects are hence
written as texts between brackets, in either layout (`Json.exists_write_list_eq`,
`Json.exists_write_object_eq`), and a reader of lists, tables or records takes them if its parts
take the written elements.
-/

namespace Provenance.Json

open Reader

/-! ### Layouts -/

/-- The layout has blanks only where blanks are free, and a colon between a key and its value. -/
structure Layout.IsBlank (l : Layout) : Prop where
  /-- Before an element or a closing bracket. -/
  gap : ∀ level, Blank (l.gap level)
  /-- Between a key and its value. -/
  colon : ∃ b, Blank b ∧ l.colon = ':' :: b

theorem Layout.isBlank_compact : Layout.compact.IsBlank :=
  ⟨fun _ ↦ blank_nil, [], blank_nil, rfl⟩

theorem Layout.isBlank_pretty : Layout.pretty.IsBlank := by
  refine ⟨fun level ↦ .cons rfl fun x hx ↦ ?_, [' '], .cons rfl blank_nil, rfl⟩
  rw [List.eq_of_mem_replicate hx]
  rfl

/-! ### Between brackets -/

section Enclosed

variable {l : Layout} {level : ℕ} {α κ : Type}

/-- Further elements are written up to the closing bracket. -/
theorem enclosed_writeItems (hl : l.IsBlank) {Item : List Char → α → Prop} {xs : List Json}
    {as : List α} (h : List.Forall₂ (fun x a ↦ Item (x.write l (level + 1)) a) xs as) :
    Enclosed ']' Item false as (writeItems l level xs) := by
  induction h with
  | nil => exact .last (hl.gap level)
  | cons hx _ ih =>
    rw [writeItems, List.append_assoc]
    exact .next blank_nil (hl.gap (level + 1)) hx ih

/-- A list is written between brackets. -/
theorem exists_write_list_eq (hl : l.IsBlank) {Item : List Char → α → Prop} {xs : List Json}
    {as : List α} (h : List.Forall₂ (fun x a ↦ Item (x.write l (level + 1)) a) xs as) :
    ∃ u, (list xs).write l level = '[' :: u ∧ Enclosed ']' Item true as u := by
  cases h with
  | nil => exact ⟨[']'], by rw [write], .last blank_nil⟩
  | @cons x a xs as hx hxs =>
    refine ⟨_, by rw [write], ?_⟩
    rw [List.append_assoc]
    exact .first (hl.gap (level + 1)) hx (enclosed_writeItems hl hxs)

/-- A member is written as a text that its key and its value make. -/
def WritesMember (l : Layout) (level : ℕ) (Key : List Char → κ → Prop)
    (Value : List Char → α → Prop) (m : String × Json) (p : κ × α) : Prop :=
  Key (m.1.toList.flatMap escape ++ ['"']) p.1 ∧ Value (m.2.write l level) p.2

variable {Key : List Char → κ → Prop} {Value : List Char → α → Prop}

/-- The text of a member: its key in quotes, the colon and its value. -/
theorem WritesMember.member (hl : l.IsBlank) {m : String × Json} {p : κ × α}
    (h : WritesMember l level Key Value m p) :
    Member Key Value (quote m.1 ++ (l.colon ++ m.2.write l level)) p := by
  obtain ⟨b, hb, hcolon⟩ := hl.colon
  have htext : quote m.1 ++ (l.colon ++ m.2.write l level) =
      '"' :: ((m.1.toList.flatMap escape ++ ['"']) ++ ([] ++ ':' :: (b ++ m.2.write l level))) := by
    rw [hcolon, quote]
    rfl
  rw [htext]
  exact .mk h.1 blank_nil hb h.2

/-- Further members are written up to the closing bracket. -/
theorem enclosed_writeMembers (hl : l.IsBlank) {ms : List (String × Json)} {ps : List (κ × α)}
    (h : List.Forall₂ (WritesMember l (level + 1) Key Value) ms ps) :
    Enclosed '\x7d' (Member Key Value) false ps (writeMembers l level ms) := by
  induction h with
  | nil => exact .last (hl.gap level)
  | @cons m p ms ps hm _ ih =>
    have htext : writeMembers l level (m :: ms) = [] ++ ',' :: (l.gap (level + 1) ++
        ((quote m.1 ++ (l.colon ++ m.2.write l (level + 1))) ++ writeMembers l level ms)) := by
      simp only [writeMembers, List.append_assoc, List.nil_append]
    rw [htext]
    exact .next blank_nil (hl.gap (level + 1)) (hm.member hl) ih

/-- An object is written between brackets. -/
theorem exists_write_object_eq (hl : l.IsBlank) {ms : List (String × Json)} {ps : List (κ × α)}
    (h : List.Forall₂ (WritesMember l (level + 1) Key Value) ms ps) :
    ∃ u, (object ms).write l level = '\x7b' :: u ∧
      Enclosed '\x7d' (Member Key Value) true ps u := by
  cases h with
  | nil => exact ⟨['\x7d'], by rw [write], .last blank_nil⟩
  | @cons m p ms ps hm hms =>
    have htext : (object (m :: ms)).write l level = '\x7b' :: (l.gap (level + 1) ++
        ((quote m.1 ++ (l.colon ++ m.2.write l (level + 1))) ++ writeMembers l level ms)) := by
      simp only [write, List.append_assoc]
    exact ⟨_, htext, .first (hl.gap (level + 1)) (hm.member hl) (enclosed_writeMembers hl hms)⟩

end Enclosed

/-! ### Reading what is written -/

section Reads

variable {l : Layout} {level : ℕ} {α : Type}

/-- A written list is read if its elements are. -/
theorem reads_write_list (hl : l.IsBlank) {read : Reader α} {xs : List Json} {as : List α}
    (h : List.Forall₂ (fun x a ↦ read.Reads (x.write l (level + 1)) a) xs as) :
    (Reader.list read).Reads ((list xs).write l level) as := by
  obtain ⟨u, htext, hu⟩ := exists_write_list_eq hl h
  rw [htext]
  exact .list hu

/-- A written object is read to the table of its members if its keys and values are read. -/
theorem reads_write_table (hl : l.IsBlank) {value : Reader α} {ms : List (String × Json)}
    {ps : List (UInt32 × α)}
    (h : List.Forall₂ (WritesMember l (level + 1) wordKey.ReadsKey value.Reads) ms ps) :
    (table value).Reads ((object ms).write l level) (Table.ofList ps) := by
  obtain ⟨u, htext, hu⟩ := exists_write_object_eq hl h
  rw [htext]
  exact .table hu

/-- A written object is read to the record that its members determine; the values of other members
are passed over. -/
theorem reads_write_record (hl : l.IsBlank) {τ δ : Type} {fields : Fields τ δ} (kind : String)
    (hkeys : fields.keys.Nodup) {ms : List (String × Json)}
    (hskip : ∀ m ∈ ms, m.1 ∉ fields.keys → Skips (m.2.write l (level + 1))) {b : τ}
    (h : fields.Awaits fields.blank (ms.map fun m ↦ (m.1, m.2.write l (level + 1))) b) :
    (fields.record kind).Reads ((object ms).write l level) b := by
  have hms : List.Forall₂ (WritesMember l (level + 1) textRest.ReadsKey Eq) ms
      (ms.map fun m ↦ (m.1, m.2.write l (level + 1))) :=
    List.forall₂_map_right_iff.2 (List.forall₂_same.2 fun m _ ↦ ⟨readsKey_quote m.1, rfl⟩)
  obtain ⟨u, htext, hu⟩ := exists_write_object_eq hl hms
  rw [htext]
  exact h.reads kind hkeys (List.forall_mem_map.2 hskip) hu

end Reads

end Provenance.Json
