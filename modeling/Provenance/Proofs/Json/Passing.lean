import Provenance.Proofs.Json.Form

/-!
# What is passed over is a document

A value that nobody asks for is passed over by a machine that keeps the open brackets in a list.
Whatever the machine accepts is a document (`Reader.exists_of_skipValue_eq_ok`). One induction on
the steps left to the machine shows it for a value and for what fills a bracket at once: a run
through a value comes by the place behind it, and a run inside a bracket comes by the place behind
the closing one, each with fewer steps left.
-/

namespace Provenance.Json.Reader

variable {c c' : Cursor}

/-! ### Tokens that are passed over -/

/-- What has been passed over as a number is one. -/
theorem exists_of_skipNumber_eq_ok (h : skipNumber c = .ok c') :
    ∃ n t, NumeralText n t ∧ c.rest = t ++ c'.rest := by
  obtain ⟨⟨n, c''⟩, hnumeral, hc⟩ := map_eq_ok_iff.1 h
  obtain rfl : c'' = c' := hc
  exact ⟨n, exists_of_numeral_eq_ok hnumeral⟩

/-- The opening bracket. -/
def Bracket.opening : Bracket → Char
  | list => '['
  | object => '\x7b'

/-- Where a value is due stands a scalar or an opening bracket. -/
theorem cases_of_skipStart_eq_ok {bracket? : Option Bracket}
    (h : skipStart c = .ok (bracket?, c')) :
    (bracket? = none ∧ ∃ d : Document, Leads Blank d.tokens c.rest c'.rest) ∨
      ∃ b, bracket? = some b ∧ Leads Blank [[b.opening]] c.rest c'.rest := by
  rw [skipStart] at h
  split at h
  case h_1 => exact absurd h (by simp)
  case h_2 hskip =>
    obtain ⟨rfl, hleads⟩ := leads_of_spell hskip h
    exact .inl ⟨rfl, .null, by rwa [Document.tokens]⟩
  case h_3 hskip =>
    obtain ⟨rfl, hleads⟩ := leads_of_spell hskip h
    exact .inl ⟨rfl, .flag true, by rwa [Document.tokens]⟩
  case h_4 hskip =>
    obtain ⟨rfl, hleads⟩ := leads_of_spell hskip h
    exact .inl ⟨rfl, .flag false, by rwa [Document.tokens]⟩
  case h_5 hskip =>
    obtain ⟨c'', hnumber, hc⟩ := map_eq_ok_iff.1 h
    cases hc
    obtain ⟨n, t, ht, hrest⟩ := exists_of_skipNumber_eq_ok hnumber
    refine .inl ⟨rfl, .number true t ⟨n, ht⟩, ?_⟩
    rw [Document.tokens]
    exact leads_of_skipBlanks hskip hrest .nil
  case h_6 hskip =>
    obtain ⟨c'', htext, hc⟩ := map_eq_ok_iff.1 h
    cases hc
    obtain ⟨b, hb, hrest⟩ := exists_isBody_of_skipText_eq_ok htext
    refine .inl ⟨rfl, .text ⟨b, hb⟩, ?_⟩
    rw [Document.tokens]
    exact leads_of_skipBlanks hskip (hrest.trans (by simp)) .nil
  case h_7 hskip =>
    cases h
    exact .inr ⟨.list, rfl, leads_of_skipBlanks hskip rfl .nil⟩
  case h_8 hskip =>
    cases h
    exact .inr ⟨.object, rfl, leads_of_skipBlanks hskip rfl .nil⟩
  case h_9 hskip =>
    split at h
    · obtain ⟨c'', hnumber, hc⟩ := map_eq_ok_iff.1 h
      cases hc
      obtain ⟨n, t, ht, hrest⟩ := exists_of_skipNumber_eq_ok hnumber
      obtain ⟨d, ds, rfl, -⟩ := ht.exists_cons
      obtain ⟨rfl, hds⟩ := List.cons.inj hrest
      refine .inl ⟨rfl, .number false (_ :: ds) ⟨n, ht⟩, ?_⟩
      rw [Document.tokens]
      exact leads_of_skipBlanks hskip hds .nil
    · exact absurd h (by simp)

theorem leads_of_skipColon_eq_ok (h : skipColon c = .ok c') :
    Leads Blank [[':']] c.rest c'.rest := by
  rw [skipColon] at h
  split at h
  · next hskip =>
    cases h
    exact leads_of_skipBlanks hskip rfl .nil
  · exact absurd h (by simp)
  · exact absurd h (stop_ne_ok _ _ _)

/-! ### Between brackets -/

/-- The tokens in front of the value of an element. -/
inductive IsKey : Bracket → List Token → Prop
  | list : IsKey .list []
  | object (k : Body) : IsKey .object [k.quoted, [':']]

/-- The tokens that fill a bracket, the closing one included. The flag says whether nothing has been
read behind the opening one. -/
inductive FillsBracket : Bracket → Bool → List Token → Prop
  | list (isFirst : Bool) (ds : List Document) :
    FillsBracket .list isFirst (Document.itemTokens isFirst ds)
  | object (isFirst : Bool) (ms : List (Body × Document)) :
    FillsBracket .object isFirst (Document.memberTokens isFirst ms)

variable {bracket : Bracket} {brackets : List Bracket} {isFirst : Bool} {ts : List Token}

theorem FillsBracket.last (bracket : Bracket) (isFirst : Bool) :
    FillsBracket bracket isFirst [[bracket.closing]] := by
  cases bracket with
  | list =>
    have h := FillsBracket.list isFirst []
    rwa [Document.itemTokens] at h
  | object =>
    have h := FillsBracket.object isFirst []
    rwa [Document.memberTokens] at h

theorem FillsBracket.cons {key : List Token} (hkey : IsKey bracket key) (d : Document)
    (h : FillsBracket bracket false ts) :
    FillsBracket bracket isFirst (separator isFirst ++ (key ++ d.tokens ++ ts)) := by
  cases h with
  | list _ ds =>
    cases hkey
    have h := FillsBracket.list isFirst (d :: ds)
    rwa [Document.itemTokens] at h
  | object _ ms =>
    obtain _ | ⟨k⟩ := hkey
    have h := FillsBracket.object isFirst ((k, d) :: ms)
    rwa [Document.memberTokens] at h

/-- An opening bracket and what fills it make a document. -/
theorem FillsBracket.exists_tokens_eq (h : FillsBracket bracket true ts) :
    ∃ d : Document, d.tokens = [bracket.opening] :: ts := by
  cases h with
  | list _ ds => exact ⟨.list ds, by rw [Document.tokens]; rfl⟩
  | object _ ms => exact ⟨.object ms, by rw [Document.tokens]; rfl⟩

theorem exists_of_skipKey_eq_ok (h : skipKey bracket c = .ok c') :
    ∃ key, IsKey bracket key ∧ Leads Blank key c.rest c'.rest := by
  cases bracket with
  | list =>
    cases h
    exact ⟨[], .list, .nil⟩
  | object =>
    rw [skipKey] at h
    split at h
    · next hskip =>
      obtain ⟨c₁, htext, h⟩ := exists_of_bind_eq_ok h
      obtain ⟨b, hb, hrest⟩ := exists_isBody_of_skipText_eq_ok htext
      refine ⟨_, .object ⟨b, hb⟩, ?_⟩
      exact leads_of_skipBlanks hskip (hrest.trans (by simp)) (leads_of_skipColon_eq_ok h)
    · exact absurd h (by simp)
    · exact absurd h (stop_ne_ok _ _ _)

/-! ### The machine -/

/-- A run that ends from where a value is due comes by the place behind a document. -/
def PassesValue (steps : ℕ) : Prop :=
  ∀ {brackets c c'}, skipSteps steps .value brackets c = .ok c' →
    ∃ steps' < steps, ∃ (d : Document) (c₁ : Cursor), Leads Blank d.tokens c.rest c₁.rest ∧
      skipSteps steps' .sequel brackets c₁ = .ok c'

/-- A run that ends from inside a bracket comes by the place behind the closing one. -/
def PassesBracket (steps : ℕ) : Prop :=
  ∀ isFirst {bracket brackets c c'},
    skipSteps steps (dueAt isFirst) (bracket :: brackets) c = .ok c' →
      ∃ steps' < steps, ∃ ts c₁, FillsBracket bracket isFirst ts ∧ Leads Blank ts c.rest c₁.rest ∧
        skipSteps steps' .sequel brackets c₁ = .ok c'

theorem passesValue_succ {steps : ℕ} (ih : PassesBracket steps) : PassesValue (steps + 1) := by
  intro brackets c c' h
  obtain ⟨⟨bracket?, c₁⟩, hstart, h⟩ := exists_of_bind_eq_ok h
  obtain ⟨rfl, d, hd⟩ | ⟨b, rfl, hb⟩ := cases_of_skipStart_eq_ok hstart
  · exact ⟨steps, Nat.lt_succ_self steps, d, c₁, hd, h⟩
  · obtain ⟨steps', hlt, ts, c₂, hts, hleads, h⟩ := ih true h
    obtain ⟨d, hd⟩ := hts.exists_tokens_eq
    exact ⟨steps', Nat.lt_succ_of_lt hlt, d, c₂, hd ▸ hb.append hleads, h⟩

/-- Behind a key, or a comma and a key, a value is due and then what follows it. -/
theorem exists_of_skipKey_of_value {steps : ℕ} (hvalue : PassesValue steps)
    (hbracket : ∀ steps' < steps, PassesBracket steps') {c₁ : Cursor}
    (hkey : skipKey bracket c = .ok c₁)
    (h : skipSteps steps .value (bracket :: brackets) c₁ = .ok c') :
    ∃ steps' < steps, ∃ ts c₂, (∀ isFirst, FillsBracket bracket isFirst (separator isFirst ++ ts)) ∧
      ts ≠ [] ∧ Leads Blank ts c.rest c₂.rest ∧ skipSteps steps' .sequel brackets c₂ = .ok c' := by
  obtain ⟨key, hiskey, hkeyLeads⟩ := exists_of_skipKey_eq_ok hkey
  obtain ⟨steps₁, hlt₁, d, c₂, hd, h⟩ := hvalue h
  obtain ⟨steps₂, hlt₂, ts, c₃, hts, hleads, h⟩ := hbracket steps₁ hlt₁ false h
  refine ⟨steps₂, Nat.lt_trans hlt₂ hlt₁, key ++ d.tokens ++ ts, c₃,
    fun _ ↦ .cons hiskey d hts, ?_, ?_, h⟩
  · simp [d.tokens_ne_nil]
  · exact (hkeyLeads.append hd).append hleads

theorem passesBracket_succ {steps : ℕ} (hvalue : PassesValue steps)
    (hbracket : ∀ steps' < steps, PassesBracket steps') : PassesBracket (steps + 1) := by
  intro isFirst bracket brackets c c' h
  obtain ⟨b, hb, hrest⟩ := exists_blank_append_eq c
  cases isFirst with
  | true =>
    rw [dueAt, if_pos rfl, skipSteps] at h
    split at h
    · exact absurd h (by simp)
    · next x rest line hskip =>
      rw [hskip] at hrest
      split at h
      · next hclose =>
        subst hclose
        exact ⟨steps, Nat.lt_succ_self steps, _, _, .last bracket true,
          leads_of_skipBlanks hskip rfl .nil, h⟩
      · obtain ⟨c₁, hkey, h⟩ := exists_of_bind_eq_ok h
        obtain ⟨steps', hlt, ts, c₂, hts, hne, hleads, h⟩ :=
          exists_of_skipKey_of_value hvalue hbracket hkey h
        exact ⟨steps', Nat.lt_succ_of_lt hlt, _, c₂, hts true,
          hrest ▸ hleads.blank_append hb hne, h⟩
  | false =>
    rw [dueAt, if_neg Bool.false_ne_true, skipSteps] at h
    split at h
    · exact absurd h (by simp)
    · next x rest line hskip =>
      rw [hskip] at hrest
      split at h
      · next hcomma =>
        subst hcomma
        obtain ⟨c₁, hkey, h⟩ := exists_of_bind_eq_ok h
        obtain ⟨steps', hlt, ts, c₂, hts, hne, hleads, h⟩ :=
          exists_of_skipKey_of_value hvalue hbracket hkey h
        exact ⟨steps', Nat.lt_succ_of_lt hlt, _, c₂, hts false,
          leads_of_skipBlanks (t := []) hskip rfl hleads, h⟩
      · split at h
        · next hclose =>
          subst hclose
          exact ⟨steps, Nat.lt_succ_self steps, _, _, .last bracket false,
            leads_of_skipBlanks hskip rfl .nil, h⟩
        · exact absurd h (by simp)

/-- However many steps are left. -/
theorem passesValue_and_passesBracket (steps : ℕ) : PassesValue steps ∧ PassesBracket steps := by
  induction steps using Nat.strongRecOn with
  | ind steps ih =>
    cases steps with
    | zero =>
      constructor
      · intro brackets c c' h
        exact absurd h (stop_ne_ok c _ _)
      · intro isFirst bracket brackets c c' h
        cases isFirst <;> exact absurd h (stop_ne_ok c _ _)
    | succ steps =>
      have hlt := Nat.lt_succ_self steps
      exact ⟨passesValue_succ (ih steps hlt).2, passesBracket_succ (ih steps hlt).1
        fun steps' hlt' ↦ (ih steps' (Nat.lt_succ_of_lt hlt')).2⟩

/-- What is passed over where nobody asks for a value is a document. -/
theorem exists_of_skipValue_eq_ok (h : skipValue c = .ok c') :
    ∃ d : Document, Leads Blank d.tokens c.rest c'.rest := by
  obtain ⟨steps', -, d, c₁, hleads, h⟩ := (passesValue_and_passesBracket _).1 h
  cases steps' with
  | zero => exact absurd h (stop_ne_ok _ _ _)
  | succ steps' =>
    cases h
    exact ⟨d, hleads⟩

end Provenance.Json.Reader
