import Provenance.Proofs.Json.Passing

/-!
# The documents that stand for a record

A schema lists the fields of a record: their keys, the forms of their values, and the defaults. It
says which documents stand for a record (`Schema.record`) without mentioning a reader. In an object
the members come in any order, each key spelled in any way; exactly one member has the key of a
field, or none has and the field has a default; other members do not matter. In a list the fields
come in their order, and those with defaults may be left out at the end.

Fields that are described by a schema are read to what the schema says, and to nothing else
(`Describes.accepts_record`).
-/

namespace Provenance.Json

/-! ### Schemas -/

/-- The members of an object, with their keys as they are meant. -/
abbrev Items := List (String × Document)

/-- The members under a key. -/
def Items.under (key : String) (items : Items) : Items := items.filter fun p ↦ p.1 = key

/-- The fields of a record. The second type is that of the values that have come so far. -/
inductive Schema : Type → Type → Type 1 where
  /-- No fields. -/
  | done : Schema Unit Unit
  /-- One field before others. -/
  | field {α β γ : Type} (key : String) (form : Form α) (default : Option α) (rest : Schema β γ) :
    Schema (α × β) (Option α × γ)

/-- The members of an object give a field its value. -/
def GivesField {α : Type} (key : String) (form : Form α) (default : Option α) (items : Items)
    (a : α) : Prop :=
  (∃ d, items.under key = [(key, d)] ∧ form a d) ∨ (items.under key = [] ∧ default = some a)

namespace Schema

variable {τ δ : Type}

/-- The members of an object give the fields their values. -/
def Gives : {τ δ : Type} → Schema τ δ → Items → τ → Prop
  | _, _, .done, _, () => True
  | _, _, .field key form default rest, items, (a, b) =>
    GivesField key form default items a ∧ rest.Gives items b

/-- The elements of a list give the fields their values. -/
def Lists : {τ δ : Type} → Schema τ δ → List Document → τ → Prop
  | _, _, .done, ds, () => ds = []
  | _, _, .field _ form _ rest, d :: ds, (a, b) => form a d ∧ rest.Lists ds b
  | _, _, .field _ _ default rest, [], (a, b) => default = some a ∧ rest.Lists [] b

/-- A member has the key that its text encodes. -/
def Named (m : Body × Document) (p : String × Document) : Prop :=
  Encodes m.1.chars p.1.toList ∧ m.2 = p.2

/-- A record is an object or a list. -/
def record (schema : Schema τ δ) : Form τ := fun t d ↦
  (∃ ds, d = .list ds ∧ schema.Lists ds t) ∨
    ∃ ms items, d = .object ms ∧ List.Forall₂ Named ms items ∧ schema.Gives items t

end Schema

open Reader

/-- The fields are read by readers that accept the forms of the schema. -/
inductive Describes : {τ δ : Type} → Schema τ δ → Fields τ δ → Prop
  | done : Describes .done .done
  | field {α β γ : Type} {key : String} {read : Reader α} {form : Form α} {default : Option α}
    {schema : Schema β γ} {fields : Fields β γ} : read.Accepts form → Describes schema fields →
    Describes (.field key form default schema) (.field key read default fields)

namespace Describes

variable {τ δ : Type} {schema : Schema τ δ} {fields : Fields τ δ} {c c' : Cursor}

/-! ### In a list -/

/-- The end of a list is passed over. -/
theorem exists_endList_eq {α : Type} {Item : List Char → α → Prop} {isFirst : Bool} {u : List Char}
    (h : Enclosed ']' Item isFirst [] u) (rest : List Char) (line : ℕ) :
    ∃ line', endList ⟨u ++ rest, line⟩ = .ok ⟨rest, line'⟩ := by
  cases h with
  | @last _ b hb =>
    obtain ⟨line', hskip⟩ := exists_skipBlanks_eq hb (x := ']') rfl rest line
    exact ⟨line', by rw [List.append_assoc, endList, List.singleton_append, hskip]; rfl⟩

/-- The elements of a list are read to the record that they give. -/
theorem exists_inOrder_eq (h : Describes schema fields) {ds : List Document} {t : τ}
    (ht : schema.Lists ds t) {isFirst : Bool} {u : List Char}
    (hu : Enclosed ']' (fun t d ↦ Trimmed d.tokens t) isFirst ds u) (short : ℕ → Cause) (n : ℕ)
    (rest : List Char) (line : ℕ) :
    ∃ c line', fields.inOrder short n isFirst ⟨u ++ rest, line⟩ = .ok (t, c) ∧
      endList c = .ok ⟨rest, line'⟩ := by
  induction h generalizing ds isFirst u n line with
  | done =>
    obtain rfl : ds = [] := ht
    obtain ⟨line', hend⟩ := exists_endList_eq hu rest line
    exact ⟨_, line', rfl, hend⟩
  | @field α β γ key read form default schema fields hread _ ih =>
    obtain ⟨a, b⟩ := t
    cases ds with
    | nil =>
      obtain ⟨hdefault, hb⟩ : default = some a ∧ schema.Lists [] b := ht
      obtain ⟨line₁, hnext⟩ := nextElement_last hu rest line
      have hlast : Enclosed ']' (fun t (d : Document) ↦ Trimmed d.tokens t) isFirst []
          ([] ++ [']']) := .last blank_nil
      obtain ⟨c, line₂, hin, hend⟩ := ih hb hlast (n + 1) line₁
      rw [List.nil_append, List.singleton_append] at hin
      refine ⟨c, line₂, ?_, hend⟩
      simp [Fields.inOrder, hnext, hdefault, hin, bind, Except.bind, pure, Except.pure]
    | cons d ds =>
      obtain ⟨hd, hds⟩ : form a d ∧ schema.Lists ds b := ht
      obtain ⟨t, more, ht, hmore, hnext⟩ := nextElement_cons (fun _ d h ↦ (d.passes _ h).opens) hu
      obtain ⟨line₁, hnext⟩ := hnext rest line
      obtain ⟨line₂, hvalue⟩ :=
        (hread.takes hd t ht).reads line₁ blank_nil (hmore.delimits (by decide) rest)
      obtain ⟨c, line₃, hin, hend⟩ := ih hds hmore (n + 1) line₂
      rw [List.nil_append] at hvalue
      refine ⟨c, line₃, ?_, hend⟩
      simp [Fields.inOrder, hnext, hvalue, hin, bind, Except.bind, pure, Except.pure]

/-- The closing bracket of a list is no element. -/
theorem eq_nil_of_leads {isFirst : Bool} {ds : List Document} {u v : List Char}
    (h : Leads Blank (Document.itemTokens isFirst ds) (']' :: u) v) : ds = [] := by
  cases ds with
  | nil => rfl
  | cons d ds =>
    -- The first token is a comma or starts a value, and neither is the bracket.
    obtain ⟨x, t, ts, htokens, hx, hne⟩ : ∃ x t ts,
        Document.itemTokens isFirst (d :: ds) = (x :: t) :: ts ∧ isBlank x = false ∧ x ≠ ']' := by
      obtain ⟨x, t, ts, hd, hx, hne, -⟩ := d.exists_tokens_eq
      cases isFirst with
      | true => exact ⟨x, t, _, by rw [Document.itemTokens, hd]; rfl, hx, hne⟩
      | false => exact ⟨',', _, _, by rw [Document.itemTokens]; rfl, rfl, by decide⟩
    rw [htokens, leads_cons_iff] at h
    obtain ⟨b, w, heq, hb, -⟩ := h
    cases b with
    | nil => exact absurd (List.cons.inj heq).1.symm hne
    | cons y b =>
      have hy : isBlank ']' = true := (List.cons.inj heq).1 ▸ hb y List.mem_cons_self
      exact absurd hy (by decide)

/-- The record that is read from a list is given by its elements. -/
theorem exists_of_inOrder_eq_ok (h : Describes schema fields) {short : ℕ → Cause} {n : ℕ}
    {isFirst : Bool} {t : τ} {c₁ : Cursor} (hin : fields.inOrder short n isFirst c = .ok (t, c₁))
    (hend : endList c₁ = .ok c') : ∃ ds, schema.Lists ds t ∧
      Leads Blank (Document.itemTokens isFirst ds) c.rest c'.rest := by
  induction h generalizing c n isFirst with
  | done =>
    cases hin
    exact ⟨[], rfl, by rw [Document.itemTokens]; exact leads_of_endList_eq_ok hend⟩
  | @field α β γ key read form default schema fields hread _ ih =>
    obtain ⟨⟨more, c₂⟩, hnext, hin⟩ := exists_of_bind_eq_ok hin
    obtain ⟨g, hg, ⟨rfl, hcomma⟩ | ⟨rfl, hrest, u, hclose⟩⟩ := cases_of_nextElement_eq_ok hnext
    · obtain ⟨⟨a, c₃⟩, hvalue, hin⟩ := exists_of_bind_eq_ok hin
      obtain ⟨⟨b, c₄⟩, hin, hpure⟩ := exists_of_bind_eq_ok hin
      cases hpure
      obtain ⟨d, hd, hleads⟩ := hread.yields hvalue
      obtain ⟨ds, hds, hleads'⟩ := ih hin
      refine ⟨d :: ds, ⟨hd, hds⟩, ?_⟩
      rw [Document.itemTokens]
      exact hcomma.append ((hleads.blank_append hg d.tokens_ne_nil).append hleads')
    · cases default with
      | none => exact absurd hin (stop_ne_ok _ _ _)
      | some a =>
        obtain ⟨⟨b, c₃⟩, hin, hpure⟩ := exists_of_bind_eq_ok hin
        cases hpure
        obtain ⟨ds, hds, hleads⟩ := ih hin
        rw [hclose] at hleads
        obtain rfl := eq_nil_of_leads hleads
        refine ⟨[], ⟨rfl, hds⟩, ?_⟩
        rw [hrest, hclose]
        rw [Document.itemTokens] at hleads ⊢
        exact hleads.blank_append hg (List.cons_ne_nil _ _)

/-! ### In an object -/

/-- A value that has come stays, and no further member has the key of its field. One that has not
come is given by the members. -/
def AwaitsField {α : Type} (key : String) (form : Form α) (default : Option α) (items : Items)
    (a : α) : Option α → Prop
  | some a' => a' = a ∧ items.under key = []
  | none => GivesField key form default items a

/-- The fields end up with values, given those that have come and the members that are left. -/
def Awaits : {τ δ : Type} → Schema τ δ → δ → Items → τ → Prop
  | _, _, .done, (), _, () => True
  | _, _, .field key form default rest, (value, values), items, (a, b) =>
    AwaitsField key form default items a value ∧ Awaits rest values items b

/-- At first no value has come. -/
theorem awaits_blank_iff (h : Describes schema fields) {items : Items} {t : τ} :
    Awaits schema fields.blank items t ↔ schema.Gives items t := by
  induction h with
  | done => exact Iff.rfl
  | field _ _ ih => exact and_congr_right fun _ ↦ ih

theorem under_cons_self (key : String) (d : Document) (items : Items) :
    Items.under key ((key, d) :: items) = (key, d) :: items.under key := by
  simp [Items.under]

theorem under_cons_of_ne {key k : String} (h : k ≠ key) (d : Document) (items : Items) :
    Items.under key ((k, d) :: items) = items.under key := by
  simp [Items.under, h]

theorem awaitsField_cons_iff {α : Type} {key k : String} (h : k ≠ key) {form : Form α}
    {default value : Option α} {items : Items} {a : α} (d : Document) :
    AwaitsField key form default ((k, d) :: items) a value ↔
      AwaitsField key form default items a value := by
  cases value <;> simp only [AwaitsField, GivesField, under_cons_of_ne h]

/-- A member whose key is no field's does not matter. -/
theorem awaits_cons_iff (h : Describes schema fields) {key : String} (hkey : key ∉ fields.keys)
    {values : δ} {items : Items} {t : τ} (d : Document) :
    Awaits schema values ((key, d) :: items) t ↔ Awaits schema values items t := by
  induction h with
  | done => exact Iff.rfl
  | field _ _ ih =>
    obtain ⟨hne, hrest⟩ := List.ne_and_not_mem_of_not_mem_cons hkey
    exact and_congr (awaitsField_cons_iff hne d) (ih hrest)

/-- A field's value is read from a member, and waits for it until then. -/
theorem exists_of_assign_eq_some (h : Describes schema fields) (hkeys : fields.keys.Nodup)
    {key : String} {values values' : δ}
    (hassign : fields.assign key values c = some (.ok (values', c'))) :
    ∃ d : Document, Leads Blank ([':'] :: d.tokens) c.rest c'.rest ∧
      ∀ {items t}, Awaits schema values' items t → Awaits schema values ((key, d) :: items) t := by
  induction h with
  | done => exact absurd hassign (by simp [Fields.assign])
  | @field α β γ k read form default schema fields hread hrest ih =>
    obtain ⟨hk, hkeys⟩ := List.nodup_cons.1 hkeys
    obtain ⟨value, values⟩ := values
    by_cases heq : k = key
    · subst heq
      cases value with
      | some a => simp [Fields.assign, Cursor.stop] at hassign
      | none =>
        rw [Fields.assign, if_pos rfl] at hassign
        obtain ⟨c₁, hcolon, hassign⟩ := exists_of_bind_eq_ok (Option.some.inj hassign)
        obtain ⟨⟨a, c₂⟩, hvalue, hassign⟩ := exists_of_bind_eq_ok hassign
        cases hassign
        obtain ⟨d, hd, hleads⟩ := hread.yields hvalue
        refine ⟨d, (leads_of_skipColon_eq_ok hcolon).append hleads, ?_⟩
        rintro items ⟨a', b⟩ ⟨⟨rfl, hunder⟩, hb⟩
        exact ⟨.inl ⟨d, by rw [under_cons_self, hunder], hd⟩, (awaits_cons_iff hrest hk d).2 hb⟩
    · rw [Fields.assign_field_of_ne heq, Option.map_eq_some_iff] at hassign
      obtain ⟨r, hr, hassign⟩ := hassign
      cases r with
      | error e => exact absurd hassign (by simp [Except.map])
      | ok r =>
        cases hassign
        obtain ⟨d, hleads, hawaits⟩ := ih hkeys hr
        refine ⟨d, hleads, ?_⟩
        rintro items ⟨a, b⟩ ⟨ha, hb⟩
        exact ⟨(awaitsField_cons_iff (Ne.symm heq) d).2 ha, hawaits hb⟩

/-- When no member is left, what has come and the defaults make the record. -/
theorem awaits_nil_of_complete (h : Describes schema fields) {values : δ} {t : τ}
    (hcomplete : fields.complete values = .ok t) : Awaits schema values [] t := by
  induction h with
  | done => trivial
  | @field α β γ k read form default schema fields _ _ ih =>
    obtain ⟨value, values⟩ := values
    rw [Fields.complete] at hcomplete
    split at hcomplete
    · next a ha =>
      obtain ⟨b, hb, rfl⟩ := map_eq_ok_iff.1 hcomplete
      refine ⟨?_, ih hb⟩
      cases value with
      | some a' => exact ⟨Option.some.inj ha, rfl⟩
      | none => exact .inr ⟨rfl, ha⟩
    · exact absurd hcomplete (by simp)

/-- In front of a further key stand blanks and a quote, and a comma if it is not the first. Where
none follows stands the end. -/
theorem cases_of_nextKey_eq_ok {isFirst more : Bool} (h : nextKey isFirst c = .ok (more, c')) :
    ∃ b, Blank b ∧
      ((more = true ∧ Leads Blank (separator isFirst) c.rest (b ++ '"' :: c'.rest)) ∨
        (more = false ∧ c.rest = b ++ c'.rest)) := by
  obtain ⟨b, hb, hrest⟩ := exists_blank_append_eq c
  rw [nextKey] at h
  split at h
  · exact absurd h (by simp)
  · next x rest line hskip =>
    rw [hskip] at hrest
    split at h
    · cases h
      exact ⟨b, hb, .inr ⟨rfl, hrest⟩⟩
    · split at h
      · next hfirst =>
        subst hfirst
        split at h
        · next hquote =>
          cases h
          subst hquote
          exact ⟨b, hb, .inl ⟨rfl, hrest ▸ .nil⟩⟩
        · exact absurd h (by simp)
      · next hfirst =>
        rw [Bool.not_eq_true] at hfirst
        subst hfirst
        split at h
        · next hcomma =>
          subst hcomma
          obtain ⟨b', hb', hrest'⟩ := exists_blank_append_eq ⟨rest, line⟩
          split at h
          · exact absurd h (by simp)
          · next hskip' =>
            cases h
            rw [hskip'] at hrest'
            exact ⟨b', hb', .inl ⟨rfl, hrest.symm ▸ .cons hb (hrest' ▸ .nil)⟩⟩
          · exact absurd h (by simp)
          · exact absurd h (stop_ne_ok _ _ _)
        · exact absurd h (by simp)

theorem leads_of_endObject_eq_ok (h : endObject c = .ok c') :
    Leads Blank [['\x7d']] c.rest c'.rest := by
  rw [endObject] at h
  split at h
  · exact absurd h (by simp)
  · next hskip =>
    cases h
    exact leads_of_skipBlanks hskip rfl .nil
  · exact absurd h (by simp)
  · exact absurd h (stop_ne_ok _ _ _)

/-- A comma, a quoted key and its colon and value are the tokens of a member. -/
theorem leads_memberTokens_cons {isFirst : Bool} {b u v w x g : List Char} {k : Body} {d : Document}
    {ms : List (Body × Document)} (hb : Blank b)
    (hcomma : Leads Blank (separator isFirst) u (b ++ '"' :: v)) (hkey : v = k.chars ++ '"' :: w)
    (hvalue : Leads Blank ([':'] :: d.tokens) w x)
    (hrest : Leads Blank (Document.memberTokens false ms) x g) :
    Leads Blank (Document.memberTokens isFirst ((k, d) :: ms)) u g := by
  have hentry : Leads Blank (k.quoted :: [':'] :: d.tokens) (b ++ '"' :: v) x := by
    rw [hkey, leads_cons_iff]
    exact ⟨b, w, by simp [Body.quoted], hb, hvalue⟩
  rw [Document.memberTokens]
  exact hcomma.append (hentry.append hrest)

/-- The members that are read are waited for. -/
theorem exists_of_members_eq_ok (h : Describes schema fields) (hkeys : fields.keys.Nodup)
    {steps : ℕ} {isFirst : Bool} {values values' : δ} {c₁ : Cursor}
    (hmembers : fields.members steps isFirst values c = .ok (values', c₁))
    (hend : endObject c₁ = .ok c') : ∃ ms items, List.Forall₂ Schema.Named ms items ∧
      Leads Blank (Document.memberTokens isFirst ms) c.rest c'.rest ∧
      ∀ {t}, Awaits schema values' [] t → Awaits schema values items t := by
  induction steps generalizing isFirst values c with
  | zero => exact absurd hmembers (stop_ne_ok c _ _)
  | succ steps ih =>
    obtain ⟨⟨more, c₂⟩, hnext, hmembers⟩ := exists_of_bind_eq_ok hmembers
    obtain ⟨b, hb, ⟨rfl, hcomma⟩ | ⟨rfl, hrest⟩⟩ := cases_of_nextKey_eq_ok hnext
    · obtain ⟨⟨key, c₃⟩, hkey, hmembers⟩ := exists_of_bind_eq_ok hmembers
      obtain ⟨k, hk, hkrest⟩ := exists_encodes_of_textRest_eq_ok hkey
      simp only at hmembers
      split at hmembers
      · next result hassign =>
        obtain ⟨⟨values₁, c₄⟩, hresult, hmembers⟩ := exists_of_bind_eq_ok hmembers
        subst hresult
        obtain ⟨d, hvalue, hawaits⟩ := h.exists_of_assign_eq_some hkeys hassign
        obtain ⟨ms, items, hnamed, hleads, hitems⟩ := ih hmembers
        exact ⟨(⟨k, hk.isBody⟩, d) :: ms, (key, d) :: items, .cons ⟨hk, rfl⟩ hnamed,
          leads_memberTokens_cons hb hcomma hkrest hvalue hleads, fun ht ↦ hawaits (hitems ht)⟩
      · next hassign =>
        obtain ⟨c₄, hcolon, hmembers⟩ := exists_of_bind_eq_ok hmembers
        obtain ⟨c₅, hvalue, hmembers⟩ := exists_of_bind_eq_ok hmembers
        obtain ⟨d, hd⟩ := exists_of_skipValue_eq_ok hvalue
        obtain ⟨ms, items, hnamed, hleads, hitems⟩ := ih hmembers
        have hne : key ∉ fields.keys := Fields.not_mem_of_assign_eq_none hassign
        exact ⟨(⟨k, hk.isBody⟩, d) :: ms, (key, d) :: items, .cons ⟨hk, rfl⟩ hnamed,
          leads_memberTokens_cons hb hcomma hkrest ((leads_of_skipColon_eq_ok hcolon).append hd)
            hleads, fun ht ↦ (h.awaits_cons_iff hne d).2 (hitems ht)⟩
    · cases hmembers
      refine ⟨[], [], .nil, ?_, id⟩
      rw [Document.memberTokens, hrest]
      exact (leads_of_endObject_eq_ok hend).blank_append hb (List.cons_ne_nil _ _)

/-- The members of an object determine the record that it is read to. -/
theorem fields_awaits (h : Describes schema fields) {items : Items} {texts : Members} {t : τ}
    (ht : schema.Gives items t)
    (htexts : List.Forall₂ (fun p q ↦ p.1 = q.1 ∧ Trimmed p.2.tokens q.2) items texts) :
    fields.Awaits fields.blank texts t := by
  induction h with
  | done => trivial
  | @field α β γ key read form default schema fields hread _ ih =>
    obtain ⟨a, b⟩ := t
    obtain ⟨ha, hb⟩ := ht
    refine ⟨?_, ih hb⟩
    have hunder : List.Forall₂ (fun p q ↦ p.1 = q.1 ∧ Trimmed p.2.tokens q.2) (items.under key)
        (texts.filter fun q ↦ q.1 = key) := by
      refine List.rel_filter ?_ htexts
      rintro p q ⟨hpq, -⟩
      simp [hpq]
    show Fields.FieldAwaits read default none ((texts.filter fun q ↦ q.1 = key).map Prod.snd) a
    generalize texts.filter (fun q ↦ q.1 = key) = left at hunder ⊢
    obtain ⟨d, hd, hform⟩ | ⟨hnil, hdefault⟩ := ha
    · rw [hd] at hunder
      obtain _ | ⟨⟨-, htext⟩, _ | _⟩ := hunder
      exact hread.takes hform _ htext
    · rw [hnil] at hunder
      cases hunder
      exact hdefault

/-- The texts of the values of members stand in the text of the object. -/
theorem exists_texts {ms : List (Body × Document)} {items : Items} {isFirst : Bool} {u : List Char}
    (hnamed : List.Forall₂ Schema.Named ms items)
    (hu : Enclosed '\x7d' (Member (fun k b ↦ k = b.chars ++ ['"']) fun t d ↦ Trimmed d.tokens t)
      isFirst ms u) :
    ∃ texts : Members, List.Forall₂ (fun p q ↦ p.1 = q.1 ∧ Trimmed p.2.tokens q.2) items texts ∧
      Enclosed '\x7d' (Member (ReadsKey textRest) Eq) isFirst texts u := by
  induction hu generalizing items with
  | last hb =>
    cases hnamed
    exact ⟨[], .nil, .last hb⟩
  | first hb ht _ ih =>
    obtain _ | ⟨⟨hkey, hvalue⟩, hnamed⟩ := hnamed
    obtain ⟨texts, htexts, hmore⟩ := ih hnamed
    obtain @⟨_, g, g', t, k, d, rfl, hg, hg', ht⟩ := ht
    exact ⟨(_, t) :: texts, .cons ⟨rfl, hvalue ▸ ht⟩ htexts,
      .first hb (.mk (readsKey_of_encodes hkey) hg hg' rfl) hmore⟩
  | next hb hb' ht _ ih =>
    obtain _ | ⟨⟨hkey, hvalue⟩, hnamed⟩ := hnamed
    obtain ⟨texts, htexts, hmore⟩ := ih hnamed
    obtain @⟨_, g, g', t, k, d, rfl, hg, hg', ht⟩ := ht
    exact ⟨(_, t) :: texts, .cons ⟨rfl, hvalue ▸ ht⟩ htexts,
      .next hb hb' (.mk (readsKey_of_encodes hkey) hg hg' rfl) hmore⟩

/-! ### Records -/

theorem accepts_record (h : Describes schema fields) (hkeys : fields.keys.Nodup) (kind : String) :
    (fields.record kind).Accepts schema.record where
  takes := by
    rintro t _ (⟨ds, rfl, hds⟩ | ⟨ms, items, rfl, hnamed, hitems⟩) v hv
    · obtain ⟨u, rfl, hu⟩ := Document.exists_of_trimmed_list hv
      refine .of_skipBlanks rfl (by decide) fun {c rest line} hskip _ ↦ ?_
      obtain ⟨c', line', hin, hend⟩ := h.exists_inOrder_eq hds hu
        (fun n ↦ .wrongLength n kind fields.count) 0 rest line
      refine ⟨line', ?_⟩
      simp only [Fields.record, hskip, hin, hend, bind, Except.bind]
      rfl
    · obtain ⟨u, rfl, hu⟩ := Document.exists_of_trimmed_object hv
      obtain ⟨texts, htexts, hmembers⟩ := exists_texts hnamed hu
      have hskips : ∀ q ∈ texts, Skips q.2 :=
        ((List.forall₂_and_left (R := fun _ _ ↦ True) texts items).1
          (htexts.flip.imp fun q p hpq ↦ ⟨(p.2.passes q.2 hpq.2).skips, trivial⟩)).1
      exact (h.fields_awaits hitems htexts).reads kind hkeys (fun q hq _ ↦ hskips q hq) hmembers
  yields := by
    intro c c' t hread
    rw [Fields.record] at hread
    split at hread
    · next hskip =>
      obtain ⟨⟨t', c₁⟩, hin, hread⟩ := exists_of_bind_eq_ok hread
      obtain ⟨c₂, hend, hpure⟩ := exists_of_bind_eq_ok hread
      cases hpure
      obtain ⟨ds, hds, hleads⟩ := h.exists_of_inOrder_eq_ok hin hend
      refine ⟨.list ds, .inl ⟨ds, rfl, hds⟩, ?_⟩
      rw [Document.tokens]
      exact leads_of_skipBlanks (t := []) hskip rfl hleads
    · next hskip =>
      obtain ⟨⟨values, c₁⟩, hmembers, hread⟩ := exists_of_bind_eq_ok hread
      obtain ⟨c₂, hend, hread⟩ := exists_of_bind_eq_ok hread
      split at hread
      · next hcomplete =>
        cases hread
        obtain ⟨ms, items, hnamed, hleads, hitems⟩ := h.exists_of_members_eq_ok hkeys hmembers hend
        refine ⟨.object ms, .inr ⟨ms, items, rfl, hnamed, ?_⟩, ?_⟩
        · exact h.awaits_blank_iff.1 (hitems (h.awaits_nil_of_complete hcomplete))
        · rw [Document.tokens]
          exact leads_of_skipBlanks (t := []) hskip rfl hleads
      · exact absurd hread (stop_ne_ok _ _ _)
    · exact absurd ⟨_, _, hread⟩ (not_returns_refuse _ t)

end Describes

end Provenance.Json
