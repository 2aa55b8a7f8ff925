import Lexis.Blank
import Lexis.Numeral
import Lexis.Quoted
import Lexis.Token
import Lexis.Word

/-!
Cutting a text into pieces. Every text but the empty one begins with a piece, no piece is empty,
and the pieces of a text put together are the text (`flatMap_text_pieces`).
-/

namespace Lexis
set_option autoImplicit false

inductive Piece where
  | blank (text : Text)
  | lexeme (kind : TokenKind) (text : Text)
  | quoted (literal : Quoted)
  /-- A character that begins nothing else. -/
  | stray (c : Char)
deriving DecidableEq

namespace Piece

def text : Piece → Text
  | blank text => text
  | lexeme _ text => text
  | quoted literal => literal.text
  | stray c => [c]

/-- What the piece hands on, if anything: blanks, strays and unclosed literals do not. -/
def lexeme? : Piece → Option Lexeme
  | blank _ => none
  | lexeme kind text => some ⟨kind, text, none⟩
  | quoted l => if l.closed then some ⟨.stringLiteral, l.text, some l.value⟩ else none
  | stray _ => none

/-- The piece that begins a text of the given first character. -/
def read (c : Char) (s : Text) : Piece :=
  if Blank.startsAt (c :: s) then blank (Blank.read (c :: s))
  else if isWordStart c then lexeme (Word.kind (Word.read (c :: s))) (Word.read (c :: s))
  else if Numeral.startsAt (c :: s) then
    lexeme (Numeral.read (c :: s)).1 (Numeral.read (c :: s)).2
  else if isQuote c then quoted (Quoted.read c s)
  else if isSymbolStart c then
    match Symbol.match? (c :: s) with
    | some symbol => lexeme (.symbol symbol) symbol.text
    | none => stray c
  else stray c

theorem read_of_blank_ne_nil {c : Char} {s : Text} (ne : Blank.read (c :: s) ≠ []) :
    read c s = .blank (Blank.read (c :: s)) := by
  rw [read, if_pos (Blank.startsAt_iff.mpr ne)]

theorem read_isPrefix (c : Char) (s : Text) : (read c s).text <+: c :: s := by
  fun_cases read c s with
  | case1 => exact Blank.read_isPrefix _
  | case2 => exact Word.read_isPrefix _
  | case3 => exact Numeral.read_isPrefix _
  | case4 => exact Quoted.read_text_isPrefix c s
  | case5 blank word numeral quote start symbol found => exact Symbol.match?_isPrefix found
  | case6 => exact List.prefix_append [c] s
  | case7 => exact List.prefix_append [c] s

theorem read_text_ne_nil (c : Char) (s : Text) : (read c s).text ≠ [] := by
  fun_cases read c s with
  | case1 blank => exact Blank.startsAt_iff.mp blank
  | case2 blank word => exact Word.read_ne_nil word s
  | case3 blank word numeral => exact Numeral.read_ne_nil numeral
  | case4 => exact List.cons_ne_nil c _
  | case5 blank word numeral quote start symbol found => exact symbol.text_ne_nil
  | case6 => exact List.cons_ne_nil c []
  | case7 => exact List.cons_ne_nil c []

theorem kind_ne_endOfInput {c : Char} {s : Text} {l : Lexeme} (h : (read c s).lexeme? = some l) :
    l.kind ≠ .endOfInput := by
  revert h
  fun_cases read c s with
  | case2 =>
    intro h
    obtain rfl := Option.some.inj h
    exact Word.kind_ne_endOfInput _
  | case3 =>
    intro h
    obtain rfl := Option.some.inj h
    exact Numeral.kind_ne_endOfInput _
  | case4 =>
    intro h
    obtain ⟨-, h⟩ := Option.ite_none_right_eq_some.mp h
    obtain rfl := Option.some.inj h
    simp
  | case5 =>
    intro h
    obtain rfl := Option.some.inj h
    simp
  | _ =>
    intro h
    cases h

end Piece

def pieces : Text → List Piece
  | [] => []
  | c :: s => Piece.read c s :: pieces ((c :: s).drop (Piece.read c s).text.length)
termination_by s => s.length
decreasing_by
  have := List.length_pos_iff.mpr (Piece.read_text_ne_nil c s)
  simp only [List.length_drop, List.length_cons]
  omega

@[simp] theorem pieces_nil : pieces [] = [] := by rw [pieces]

theorem pieces_cons (c : Char) (s : Text) :
    pieces (c :: s) = Piece.read c s :: pieces ((c :: s).drop (Piece.read c s).text.length) := by
  rw [pieces]

theorem Piece.read_text_append_drop (c : Char) (s : Text) :
    (Piece.read c s).text ++ (c :: s).drop (Piece.read c s).text.length = c :: s := by
  obtain ⟨r, hr⟩ := Piece.read_isPrefix c s
  rw [← hr]
  simp

theorem flatMap_text_pieces (s : Text) : (pieces s).flatMap Piece.text = s := by
  fun_induction pieces s with
  | case1 => rfl
  | case2 c s ih => rw [List.flatMap_cons, ih, Piece.read_text_append_drop]

/-- The lexemes of a text, without the end of the input. -/
def lexemes (s : Text) : List Lexeme := (pieces s).filterMap Piece.lexeme?

end Lexis
