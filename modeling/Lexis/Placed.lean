import Lexis.Cursor
import Lexis.Error
import Lexis.Piece

/-!
Pieces at their places. A placed piece gives at most one token, and the findings that go with it:
faults, and stretches of the source that no token covers. Neither depends on any setting.
-/

namespace Lexis
set_option autoImplicit false

/-- What the lexer comes upon besides tokens. -/
inductive Finding where
  | fault (error : LexicalError)
  | passed (trivia : Trivia)
deriving DecidableEq

namespace Quoted

/-- The faults among atoms that follow one another from a cursor on. The fault of an escape is at
the character after its backslash. -/
def faults : Cursor → List Atom → List LexicalError
  | _, [] => []
  | c, a :: as =>
    (a.invalid?.map fun e => .invalidEscapeSequence e c.advance.position).toList ++
      faults (c.skip a.text.length) as

end Quoted

structure Placed where
  piece : Piece
  start : Cursor
deriving DecidableEq

namespace Placed

def stop (p : Placed) : Cursor := p.start.skip p.piece.text.length

def span (p : Placed) : Span := ⟨p.start.position, p.stop.position⟩

def token? (p : Placed) : Option Token := p.piece.lexeme?.map fun l => ⟨l, p.span⟩

/-- In the order of detection: escapes in a literal come before the literal's own end. -/
def findings (p : Placed) : List Finding :=
  match p.piece with
  | .blank _ => [.passed ⟨.whitespace, p.span⟩]
  | .lexeme _ _ => []
  | .quoted l =>
    (Quoted.faults p.start.advance l.body).map .fault ++
      if l.closed then []
      else [.fault (.unterminatedString p.start.position), .passed ⟨.skipped, p.span⟩]
  | .stray c =>
    [.fault (.unrecognizedCharacter c p.start.position), .passed ⟨.skipped, p.span⟩]

end Placed

namespace Cursor

def place : Cursor → List Piece → List Placed
  | _, [] => []
  | c, p :: ps => ⟨p, c⟩ :: place (c.skip p.text.length) ps

def placed (c : Cursor) : List Placed := c.place (pieces c.rest)

theorem placed_of_rest_nil {c : Cursor} (h : c.rest = []) : c.placed = [] := by
  simp [placed, h, place]

theorem placed_of_rest_cons {c : Cursor} {x : Char} {s : Text} (h : c.rest = x :: s) :
    c.placed = ⟨.read x s, c⟩ :: (Placed.stop ⟨.read x s, c⟩).placed := by
  rw [placed, h, pieces_cons, place, placed, Placed.stop, skip_rest, h]

structure Step where
  token : Token
  findings : List Finding
  cursor : Cursor
deriving DecidableEq

/-- One token further; at the end of the source the end of the input again and again. -/
def next (c : Cursor) : Step :=
  match _h : c.rest with
  | [] => ⟨.endOfInput c.position, [], c⟩
  | x :: s =>
    let p : Placed := ⟨.read x s, c⟩
    match p.token? with
    | some t => ⟨t, p.findings, p.stop⟩
    | none =>
      let later := p.stop.next
      ⟨later.token, p.findings ++ later.findings, later.cursor⟩
termination_by c.rest.length
decreasing_by
  have := List.length_pos_iff.mpr (Piece.read_text_ne_nil x s)
  simp only [Placed.stop, skip_rest, List.length_drop, _h, List.length_cons]
  omega

theorem next_of_rest_nil {c : Cursor} (h : c.rest = []) :
    c.next = ⟨.endOfInput c.position, [], c⟩ := by
  rw [next]
  split
  · rfl
  · simp_all

theorem next_of_token {c : Cursor} {x : Char} {s : Text} {t : Token} (h : c.rest = x :: s)
    (ht : Placed.token? ⟨.read x s, c⟩ = some t) :
    c.next = ⟨t, Placed.findings ⟨.read x s, c⟩, Placed.stop ⟨.read x s, c⟩⟩ := by
  rw [next]
  split
  · simp_all
  · rename_i x' s' h'
    obtain ⟨rfl, rfl⟩ : x = x' ∧ s = s' := by simpa [h] using h'
    simp only [ht]

theorem next_of_no_token {c : Cursor} {x : Char} {s : Text} (h : c.rest = x :: s)
    (ht : Placed.token? ⟨.read x s, c⟩ = none) :
    c.next = ⟨(Placed.stop ⟨.read x s, c⟩).next.token,
      Placed.findings ⟨.read x s, c⟩ ++ (Placed.stop ⟨.read x s, c⟩).next.findings,
      (Placed.stop ⟨.read x s, c⟩).next.cursor⟩ := by
  rw [next]
  split
  · simp_all
  · rename_i x' s' h'
    obtain ⟨rfl, rfl⟩ : x = x' ∧ s = s' := by simpa [h] using h'
    simp only [ht]

theorem stop_rest_length_lt {c : Cursor} {x : Char} {s : Text} (h : c.rest = x :: s) :
    (Placed.stop ⟨.read x s, c⟩).rest.length < c.rest.length := by
  have := List.length_pos_iff.mpr (Piece.read_text_ne_nil x s)
  simp only [Placed.stop, skip_rest, List.length_drop, h, List.length_cons]
  omega

theorem next_progress (c : Cursor) :
    c.next.token.kind = .endOfInput ∧ c.next.cursor.rest = [] ∨
      c.next.token.kind ≠ .endOfInput ∧ c.next.cursor.rest.length < c.rest.length := by
  match h : c.rest with
  | [] =>
    left
    rw [next_of_rest_nil h]
    exact ⟨rfl, h⟩
  | x :: s =>
    have shorter := stop_rest_length_lt h
    cases ht : Placed.token? ⟨.read x s, c⟩ with
    | some t =>
      right
      rw [next_of_token h ht]
      refine ⟨?_, h ▸ shorter⟩
      obtain ⟨l, hl, rfl⟩ := Option.map_eq_some_iff.mp ht
      exact Piece.kind_ne_endOfInput hl
    | none =>
      rw [next_of_no_token h ht]
      rw [h] at shorter
      rcases next_progress (Placed.stop ⟨.read x s, c⟩) with ⟨hk, hr⟩ | ⟨hk, hl⟩
      · exact .inl ⟨hk, hr⟩
      · exact .inr ⟨hk, Nat.lt_trans hl shorter⟩
termination_by c.rest.length
decreasing_by exact stop_rest_length_lt h

end Cursor

end Lexis
