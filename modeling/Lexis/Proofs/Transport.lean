import Lexis.Proofs.Findings
import Lexis.Proofs.Place

/-! The same text read at other places. What a piece gives is told from the places in it, so that
cursors which go side by side over a text give the same tokens and errors, only moved. -/

namespace Lexis
set_option autoImplicit false

/-- Where `p` is when its text begins at `o` and not at the start. -/
def Position.rebase (o p : Position) : Position :=
  ⟨o.line + p.line - 1, if p.line = 1 then o.column + p.column else p.column,
    o.offset + p.offset⟩

def Span.move (f : Position → Position) (s : Span) : Span := ⟨f s.start, f s.stop⟩

def Token.move (f : Position → Position) (t : Token) : Token := ⟨t.toLexeme, t.span.move f⟩

def LexicalError.move (f : Position → Position) : LexicalError → LexicalError
  | unrecognizedCharacter c p => unrecognizedCharacter c (f p)
  | unterminatedString p => unterminatedString (f p)
  | invalidEscapeSequence c p => invalidEscapeSequence c (f p)

theorem Token.move_id : Token.move id = id := rfl

theorem LexicalError.move_id : LexicalError.move id = id := by
  funext e
  cases e <;> rfl

namespace Position

@[simp] theorem rebase_start (o : Position) : o.rebase start = o := by simp [rebase, start]

theorem rebase_past (o : Position) {p : Position} (hp : 1 ≤ p.line) (c : Char)
    (next? : Option Char) : (o.rebase p).past c next? = o.rebase (p.past c next?) := by
  have line : o.line + p.line - 1 + 1 = o.line + (p.line + 1) - 1 := by omega
  have later : p.line + 1 ≠ 1 := by omega
  unfold past
  split
  · simp only [rebase, line, if_neg later, Nat.add_assoc]
  · split
    · simp [rebase, Nat.add_assoc]
    · by_cases first : p.line = 1 <;> simp [rebase, first, Nat.add_assoc]

end Position

namespace Cursor

/-- Over `n` characters the second cursor is where `f` moves the places of the first one. -/
def Beside (f : Position → Position) (n : Nat) (c d : Cursor) : Prop :=
  ∀ m ≤ n, (d.skip m).position = f (c.skip m).position

namespace Beside
variable {f : Position → Position} {m n : Nat} {c d : Cursor}

theorem position (h : Beside f n c d) : d.position = f c.position := h 0 (Nat.zero_le n)

theorem of_le (h : Beside f n c d) (hm : m ≤ n) : Beside f m c d :=
  fun k hk => h k (Nat.le_trans hk hm)

theorem skip (h : Beside f (m + n) c d) : Beside f n (c.skip m) (d.skip m) := by
  intro k hk
  rw [skip_skip, skip_skip]
  exact h (m + k) (by omega)

end Beside

theorem position_skip_rebase (o : Position) {p : Position} (hp : 1 ≤ p.line) (s : Text) (n : Nat) :
    (skip ⟨o.rebase p, s⟩ n).position = o.rebase (skip ⟨p, s⟩ n).position := by
  induction n generalizing p s with
  | zero => rfl
  | succ n ih =>
    rw [skip_succ, skip_succ]
    cases s with
    | nil => exact ih hp []
    | cons x s =>
      have later := Nat.le_trans hp (p.line_le_past x s.head?)
      rw [advance, advance, Position.rebase_past o hp]
      exact ih later s

theorem beside_start (o : Position) (s : Text) (n : Nat) :
    Beside o.rebase n (start s) ⟨o, s⟩ := by
  intro m _
  have moved := position_skip_rebase o (Nat.le_refl Position.start.line) s m
  rwa [Position.rebase_start] at moved

end Cursor

open Cursor (Beside)

theorem Quoted.faults_of_beside {f : Position → Position} {c d : Cursor} {as : List Atom}
    (h : Beside f (as.flatMap Atom.text).length c d) :
    faults d as = (faults c as).map (LexicalError.move f) := by
  induction as generalizing c d with
  | nil => rfl
  | cons a as ih =>
    rw [List.flatMap_cons, List.length_append] at h
    have escape : d.advance.position = f c.advance.position := by
      have := List.length_pos_iff.mpr a.text_ne_nil
      exact h 1 (by omega)
    rw [faults, faults, List.map_append, ih h.skip, escape]
    cases a.invalid? <;> rfl

/-- What is told from the places in the text of a piece, and nothing where the piece is a blank. -/
structure IsTold {α : Type} (tell : Placed → List α)
    (move : (Position → Position) → α → α) : Prop where
  of_beside : ∀ {f : Position → Position} {p : Piece} {c d : Cursor},
    Beside f p.text.length c d → tell ⟨p, d⟩ = (tell ⟨p, c⟩).map (move f)
  blank : ∀ t c, tell ⟨.blank t, c⟩ = []
  move_id : move id = id

theorem isTold_token? : IsTold (fun p => p.token?.toList) Token.move where
  of_beside := by
    intro f p c d h
    have span : Placed.span ⟨p, d⟩ = (Placed.span ⟨p, c⟩).move f := by
      rw [Placed.span, h.position, Placed.stop, h _ (Nat.le_refl _)]
      rfl
    simp only [Placed.token?, span]
    cases p.lexeme? <;> rfl
  blank _ _ := rfl
  move_id := Token.move_id

theorem isTold_errors : IsTold Placed.errors LexicalError.move where
  of_beside := by
    intro f p c d h
    cases p with
    | blank t => rfl
    | lexeme k t => rfl
    | quoted l =>
      have inside : Beside f (l.body.flatMap Atom.text).length c.advance d.advance := by
        apply Beside.skip (m := 1)
        apply h.of_le
        simp [Piece.text, Quoted.text, Quoted.bodyText]
        omega
      rw [Placed.errors_quoted, Placed.errors_quoted, List.map_append,
        Quoted.faults_of_beside inside, h.position]
      cases l.closed <;> rfl
    | stray x =>
      rw [Placed.errors_stray, Placed.errors_stray, h.position]
      rfl
  blank _ _ := rfl
  move_id := LexicalError.move_id

theorem Cursor.place_append (c : Cursor) (ps qs : List Piece) :
    c.place (ps ++ qs) = c.place ps ++ (c.skip (ps.flatMap Piece.text).length).place qs := by
  induction ps generalizing c with
  | nil => rfl
  | cons p ps ih =>
    rw [List.cons_append, place, place, ih, List.flatMap_cons, List.length_append, skip_skip,
      List.cons_append]

namespace IsTold
variable {α : Type} {tell : Placed → List α} {move : (Position → Position) → α → α}
  (told : IsTold tell move) {f : Position → Position} {c d : Cursor}
include told

theorem flatMap_place {ps : List Piece} (h : Beside f (ps.flatMap Piece.text).length c d) :
    (d.place ps).flatMap tell = ((c.place ps).flatMap tell).map (move f) := by
  induction ps generalizing c d with
  | nil => rfl
  | cons p ps ih =>
    rw [List.flatMap_cons, List.length_append] at h
    have first : tell ⟨p, d⟩ = (tell ⟨p, c⟩).map (move f) :=
      told.of_beside (h.of_le (Nat.le_add_right _ _))
    rw [Cursor.place, Cursor.place, List.flatMap_cons, List.flatMap_cons, List.map_append, first,
      ih h.skip]

/-- Cursors side by side on the same text tell the same, moved. -/
theorem flatMap_placed (same : d.rest = c.rest) (h : Beside f c.rest.length c d) :
    d.placed.flatMap tell = (c.placed.flatMap tell).map (move f) := by
  rw [← flatMap_text_pieces c.rest] at h
  rw [Cursor.placed, Cursor.placed, same]
  exact told.flatMap_place h

end IsTold

end Lexis
