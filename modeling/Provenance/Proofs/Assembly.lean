import Mathlib.Data.List.TakeWhile
import Provenance.Proofs.Emission

/-!
# The shape of an emitted text

Emission puts a separator before a fragment or a getter if anything has been written before,
whatever its position is. The text is all the same a function of the list of its **pieces**: the
fragments of the interface with their marks, then the getters.

* Empty pieces at the front leave no trace: after them still nothing is written.
* From the first piece on that is not empty, the pieces are joined by separators, and the empty ones
  among them count like the others (`foldl_joinPiece`).

Writing a fragment and writing a getter are one step, `joinPiece`. So the two loops of emission are
one fold over the pieces (`Laid.code_eq`, `foldl_appendGetter`).
-/

namespace Provenance

/-! ### Joining pieces -/

/-- Appends a piece to a text, behind a separator unless the text is empty. -/
def joinPiece (code piece : String) : String := separated code ++ piece

@[simp] theorem joinPiece_blank (piece : String) : joinPiece "" piece = piece := by
  rw [joinPiece, separated, if_pos rfl, String.empty_append]

theorem joinPiece_of_ne {code : String} (hcode : code ≠ "") (piece : String) :
    joinPiece code piece = code ++ (separator ++ piece) := by
  rw [joinPiece, separated, if_neg hcode, String.append_assoc]

/-- Behind a text that is not empty every piece gets its separator. -/
theorem foldl_joinPiece_of_ne {code : String} (hcode : code ≠ "") (pieces : List String) :
    pieces.foldl joinPiece code = code ++ String.join (pieces.map (separator ++ ·)) := by
  induction pieces generalizing code with
  | nil => rw [List.foldl_nil, List.map_nil, String.join_nil, String.append_empty]
  | cons piece rest ih =>
    have hjoin := joinPiece_of_ne hcode piece
    have hne : joinPiece code piece ≠ "" := by
      rw [hjoin]
      exact fun h ↦ hcode (String.append_eq_empty_iff.1 h).1
    rw [List.foldl_cons, ih hne, hjoin, List.map_cons, String.join_cons, String.append_assoc]

/-- In a joined text every piece but the first has a separator in front. -/
theorem intercalate_cons_eq_append_join (sep first : String) (rest : List String) :
    sep.intercalate (first :: rest) = first ++ String.join (rest.map (sep ++ ·)) := by
  induction rest generalizing first with
  | nil => rw [String.intercalate_singleton, List.map_nil, String.join_nil, String.append_empty]
  | cons next rest ih =>
    rw [String.intercalate_cons_cons, ih, List.map_cons, String.join_cons, String.append_assoc,
      String.append_assoc]

/-- Joined pieces are empty, or they begin with the first piece that is not empty and have a
separator before each later one. -/
theorem foldl_joinPiece_cases (pieces : List String) :
    (∀ piece ∈ pieces, piece = "") ∧ pieces.foldl joinPiece "" = "" ∨
      ∃ (blank : List String) (first : String) (rest : List String),
        pieces = blank ++ first :: rest ∧ (∀ piece ∈ blank, piece = "") ∧ first ≠ "" ∧
          pieces.foldl joinPiece "" = first ++ String.join (rest.map (separator ++ ·)) := by
  induction pieces with
  | nil => exact .inl ⟨by simp, rfl⟩
  | cons piece rest ih =>
    rw [List.foldl_cons, joinPiece_blank]
    by_cases hpiece : piece = ""
    · subst hpiece
      rcases ih with ⟨hall, htext⟩ | ⟨blank, first, rest', rfl, hblank, hfirst, htext⟩
      · exact .inl ⟨List.forall_mem_cons.2 ⟨rfl, hall⟩, htext⟩
      · exact .inr ⟨"" :: blank, first, rest', rfl, List.forall_mem_cons.2 ⟨rfl, hblank⟩, hfirst,
          htext⟩
    · exact .inr ⟨[], piece, rest, rfl, by simp, hpiece, foldl_joinPiece_of_ne hpiece rest⟩

/-- **Pieces are joined from the first one on that is not empty.** -/
theorem foldl_joinPiece (pieces : List String) :
    pieces.foldl joinPiece "" = separator.intercalate (pieces.dropWhile (· = "")) := by
  rcases foldl_joinPiece_cases pieces with
    ⟨hall, htext⟩ | ⟨blank, first, rest, rfl, hblank, hfirst, htext⟩
  · have hdrop : pieces.dropWhile (· = "") = [] :=
      List.dropWhile_eq_nil_iff.2 (by simpa using hall)
    rw [htext, hdrop, String.intercalate_nil]
  · have hdrop : (blank ++ first :: rest).dropWhile (· = "") = first :: rest := by
      rw [List.dropWhile_append_of_pos (by simpa using hblank),
        List.dropWhile_cons_of_neg (by simpa using hfirst)]
    rw [htext, hdrop, intercalate_cons_eq_append_join]

/-! ### The pieces of a program -/

/-- The text of a fragment: its code, behind the mark if it may be marked for inlining and the
feature for that is on. -/
def Fragment.piece (f : Fragment) (flags : Flags) : String :=
  if f.inlinable = true ∧ flags.enabled .inline = true then "inline " ++ f.code else f.code

theorem Fragment.opening_append_code (f : Fragment) (flags : Flags) :
    f.opening flags ++ f.code = f.piece flags := by
  have hinlined : f.isInlined flags = true ↔ f.inlinable = true ∧ flags.enabled .inline = true := by
    rw [isInlined, Bool.and_eq_true]
  simp only [opening, piece, hinlined]
  split
  · rfl
  · rw [String.empty_append]

/-- The pieces of a program: its fragments, then its getters. -/
def programPieces (flags : Flags) (fragments : List Fragment) (getters : List String) :
    List String :=
  fragments.map (·.piece flags) ++ getters.map getterText

/-- Fragments are written piece by piece. -/
theorem Laid.code_eq {flags : Flags} {placed : List Placed} {code : String}
    (h : Laid flags placed code) :
    code = (placed.map fun q ↦ q.fragment.piece flags).foldl joinPiece "" := by
  induction h with
  | blank => rfl
  | @concat placed code q _ _ ih =>
    rw [List.map_append, List.foldl_append, ← ih, List.map_singleton, List.foldl_cons,
      List.foldl_nil, joinPiece, ← Fragment.opening_append_code, String.append_assoc]

/-- Getters are written piece by piece. -/
theorem foldl_appendGetter (getters : List String) (code : String) :
    getters.foldl appendGetter code = (getters.map getterText).foldl joinPiece code := by
  rw [List.foldl_map]
  rfl

/-! ### Programs -/

namespace Catalogue

variable {c : Catalogue} {flags : Flags}

/-- **Shape of the text.** The names of an emitted interface stand for fragments. The text of the
program is the list of the pieces of these fragments and of the getters, without the empty pieces at
its front, joined by two line breaks.

So if all pieces are empty, the text is. Otherwise it begins with the first piece that is not empty,
and each later piece has the two line breaks before it, even if it is empty. -/
theorem emit_text {i : Interface} {basename : String} {p : Program}
    (h : (c.emit flags i basename).result = .ok p) :
    ∃ fragments : List Fragment, fragments.map some = i.functions.map c.find? ∧
      p.text =
        "\n\n".intercalate ((programPieces flags fragments i.getters).dropWhile (· = "")) ∧
      ((∀ piece ∈ programPieces flags fragments i.getters, piece = "") ∧ p.text = "" ∨
        ∃ (blank : List String) (first : String) (rest : List String),
          programPieces flags fragments i.getters = blank ++ first :: rest ∧
          (∀ piece ∈ blank, piece = "") ∧ first ≠ "" ∧
          p.text = first ++ String.join (rest.map ("\n\n" ++ ·))) := by
  obtain ⟨placed, code, hnames, hvalid, hlaid, htext, -, -⟩ := exists_placed_of_emit h
  have hjoined : p.text =
      (programPieces flags (placed.map Placed.fragment) i.getters).foldl joinPiece "" := by
    rw [htext, foldl_appendGetter, hlaid.code_eq, ← List.foldl_append, programPieces, List.map_map]
    rfl
  refine ⟨placed.map Placed.fragment, ?_, ?_, ?_⟩
  · rw [map_some_fragment hvalid, hnames]
  · rw [hjoined, foldl_joinPiece]
    rfl
  · rw [hjoined]
    exact foldl_joinPiece_cases _

/-- A catalogue with a fragment that has no code, one that has none but its mark, and one that has
some. -/
def sparse : Catalogue where
  manifest :=
    { name := "Sparse"
      fragments := [⟨"void", "", .normal, false, []⟩, ⟨"bare", "", .normal, true, []⟩,
        ⟨"run", "run();", .normal, true, []⟩] }
  nodup := by decide
  unreserved := by decide

/-- Nothing stands before the first mark, and the empty fragment behind it gets its separator. -/
theorem emit_text_sparse :
    ∃ p, (sparse.emit (Flags.empty.enable .inline)
        ⟨"Sparse", ["void", "void", "bare", "void", "run"], ["g"]⟩ "out").result = .ok p ∧
      p.text = "inline \n\n\n\ninline run();\n\n_ g() method_id \x7b\n\x7d" := by
  obtain ⟨p, hp⟩ := Logged.exists_result_eq_ok
    (x := sparse.emit (Flags.empty.enable .inline)
      ⟨"Sparse", ["void", "void", "bare", "void", "run"], ["g"]⟩ "out") (by decide +kernel)
  obtain ⟨fragments, hfragments, htext, -⟩ := emit_text hp
  have hfound : fragments.map some =
      [⟨"void", "", .normal, false, []⟩, ⟨"void", "", .normal, false, []⟩,
        ⟨"bare", "", .normal, true, []⟩, ⟨"void", "", .normal, false, []⟩,
        ⟨"run", "run();", .normal, true, []⟩].map some :=
    hfragments.trans (by decide +kernel)
  rw [List.map_injective_iff.2 (fun _ _ ↦ Option.some.inj) hfound] at htext
  exact ⟨p, hp, htext.trans (by decide +kernel)⟩

end Catalogue

end Provenance
