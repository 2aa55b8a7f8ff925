import Lexis.Proofs.Longest
import Lexis.Proofs.Steps

/-! The rounds of one step of the lexer. Each passes over one piece, and the first piece that is a
lexeme ends them. -/

namespace Lexis
set_option autoImplicit false

theorem Cursor.offset_skip (c : Cursor) (n : Nat) :
    (c.skip n).position.offset = c.position.offset + Text.byteLength (c.rest.take n) := by
  induction n generalizing c with
  | zero => simp
  | succ n ih =>
    obtain ⟨p, s⟩ := c
    rw [skip_succ, ih]
    cases s with
    | nil => simp
    | cons x s => simp [advance, Nat.add_assoc]

namespace Lexer

/-- A piece is passed over, and what is found on it is reported. -/
def pass (l : Lexer) (p : Piece) : Lexer :=
  { l with
    cursor := l.cursor.skip p.text.length
    report := l.report.addAll l.config (Placed.findings ⟨p, l.cursor⟩) }

section
variable {l : Lexer} {x : Char} {s : Text} (hs : l.cursor.rest = x :: s)
include hs

theorem nextToken_of_lexeme {e : Lexeme} (he : (Piece.read x s).lexeme? = some e) :
    l.nextToken = (⟨e, Placed.span ⟨.read x s, l.cursor⟩⟩, l.pass (.read x s)) := by
  have token : Placed.token? ⟨.read x s, l.cursor⟩ =
      some ⟨e, Placed.span ⟨.read x s, l.cursor⟩⟩ := by
    rw [Placed.token?, he]
    rfl
  have going : (l.ended || decide (e.kind = .endOfInput)) = l.ended := by
    rw [decide_eq_false (Piece.kind_ne_endOfInput he), Bool.or_false]
  rw [nextToken, Cursor.next_of_token hs token, after]
  simp only [going]
  rfl

theorem nextToken_of_read {k : TokenKind} {t : Text} (piece : Piece.read x s = .lexeme k t) :
    l.nextToken = (.plain k t ⟨l.cursor.position, (l.cursor.skip t.length).position⟩,
      l.skip t.length) := by
  have lexeme : (Piece.read x s).lexeme? = some ⟨k, t, none⟩ := by
    rw [piece]
    rfl
  rw [nextToken_of_lexeme hs lexeme, piece]
  rfl

theorem nextToken_of_no_lexeme (none : (Piece.read x s).lexeme? = none) :
    l.nextToken = (l.pass (.read x s)).nextToken := by
  have token : Placed.token? ⟨.read x s, l.cursor⟩ = Option.none := by
    rw [Placed.token?, none]
    rfl
  rw [nextToken, Cursor.next_of_no_token hs token, after, Report.addAll_append]
  rfl

end

end Lexer

end Lexis
