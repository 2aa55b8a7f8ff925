import Lexis.Proofs.Separator
import Lexis.Proofs.Tiling
import Lexis.Proofs.Transport

/-! Lexing starts afresh behind a separator. What is found before it stays as it was, and the text
after it gives the tokens and errors that it gives alone, at their new places. -/

namespace Lexis
set_option autoImplicit false

/-- The place behind `u` at `e`, for a character that ends no line. -/
def Position.behind (e : Position) (u : Char) : Position :=
  ⟨e.line, e.column + 1, e.offset + u.utf8Size⟩

theorem Position.past_append (p : Position) (x : Char) (s : Text) {r : Text}
    (hr : r.head? ≠ some '\n') : p.past x (s ++ r).head? = p.past x s.head? := by
  cases s with
  | nil => simp [past, breaksLine, hr]
  | cons y s => rfl

theorem IsSeparator.past {u : Char} (hu : IsSeparator u) (e : Position) (next? : Option Char) :
    e.past u next? = e.behind u := by
  obtain ⟨-, hn, hr⟩ := hu.ne
  simp [Position.past, Position.breaksLine, Position.behind, hn, hr]

namespace Cursor

def extend (c : Cursor) (r : Text) : Cursor := ⟨c.position, c.rest ++ r⟩

theorem extend_finish (c : Cursor) (r : Text) : c.finish.extend r = ⟨c.finish.position, r⟩ := by
  rw [extend, finish_rest, List.nil_append]

section
variable {c : Cursor} {r : Text} (hr : r.head? ≠ some '\n')
include hr

/-- More text changes no place before it, but that a line feed would join with a carriage return. -/
theorem skip_extend {n : Nat} (hn : n ≤ c.rest.length) :
    (c.extend r).skip n = (c.skip n).extend r := by
  induction n generalizing c with
  | zero => rfl
  | succ n ih =>
    obtain ⟨p, s⟩ := c
    cases s with
    | nil => simp at hn
    | cons x s =>
      have first : (extend ⟨p, x :: s⟩ r).advance = (advance ⟨p, x :: s⟩).extend r := by
        simp only [extend, List.cons_append, advance, p.past_append x s hr]
      rw [skip_succ, skip_succ, first]
      apply ih
      simpa using hn

theorem beside_extend : Beside id c.rest.length c (c.extend r) := by
  intro m hm
  rw [skip_extend hr hm]
  rfl

theorem finish_extend : (c.extend r).finish = (Cursor.mk c.finish.position r).finish := by
  have whole : (c.extend r).finish = ((c.extend r).skip c.rest.length).skip r.length := by
    rw [finish, extend, List.length_append, skip_skip]
  rw [whole, skip_extend hr (Nat.le_refl _), ← finish, extend_finish]
  rfl

end

theorem finish_behind {u : Char} (hu : IsSeparator u) (a b : Text) :
    (start (a ++ u :: b)).finish.position =
      ((start a).finish.position.behind u).rebase (start b).finish.position := by
  have noFeed : (u :: b).head? ≠ some '\n' := by simp [hu.ne]
  have whole : (start (a ++ u :: b)).finish =
      (Cursor.mk (start a).finish.position (u :: b)).finish :=
    finish_extend (c := start a) noFeed
  rw [whole, finish, List.length_cons, skip_succ, advance, hu.past]
  exact beside_start _ b b.length _ (Nat.le_refl _)

end Cursor

namespace IsTold
variable {α : Type} {tell : Placed → List α} {move : (Position → Position) → α → α}
  (told : IsTold tell move)
include told

theorem skip_read (c : Cursor) :
    c.placed.flatMap tell = (c.skip (Blank.read c.rest).length).placed.flatMap tell := by
  by_cases none : Blank.read c.rest = []
  · rw [none]
    rfl
  · cases hs : c.rest with
    | nil => simp [hs, Blank.read] at none
    | cons x s =>
      have piece := Piece.read_of_blank_ne_nil (hs ▸ none)
      rw [Cursor.placed_of_rest_cons hs, List.flatMap_cons, piece, told.blank]
      rfl

theorem skip_blank {c : Cursor} {t r : Text} (h : Blank.IsBlank t) (hc : c.rest = t ++ r) :
    c.placed.flatMap tell = (c.skip t.length).placed.flatMap tell := by
  have rest : (c.skip t.length).rest = r := by simp [hc]
  rw [told.skip_read c, told.skip_read (c.skip t.length), rest, hc, Blank.read_append h,
    List.length_append, Cursor.skip_skip]

variable {u : Char} (hu : IsSeparator u) (b : Text)
include hu

theorem extend_stop {c : Cursor} {x : Char} {s : Text} (hs : c.rest = x :: s)
    (closed : ∀ l, Piece.read x s = .quoted l → l.closed) :
    (c.extend (u :: b)).placed.flatMap tell = tell ⟨.read x s, c⟩ ++
      ((Placed.stop ⟨.read x s, c⟩).extend (u :: b)).placed.flatMap tell := by
  have noFeed : (u :: b).head? ≠ some '\n' := by simp [hu.ne]
  have front := (Piece.read_isPrefix x s).length_le
  rw [← hs] at front
  have skipped := Cursor.skip_extend noFeed front
  -- A blank can go on over the separator, so that it is not the first piece any more.
  by_cases blank : ∃ t, Piece.read x s = .blank t
  · obtain ⟨t, ht⟩ := blank
    have rest : (c.extend (u :: b)).rest = t ++ ((c.skip t.length).rest ++ u :: b) := by
      have whole := Cursor.text_append_rest_stop hs
      rw [ht] at whole
      rw [← List.append_assoc]
      exact congrArg (· ++ u :: b) whole.symm
    rw [ht] at skipped ⊢
    rw [told.blank, told.skip_blank (Piece.isBlank_of_read ht).2 rest]
    exact congrArg (fun c => c.placed.flatMap tell) skipped
  · have same := Piece.read_append_separator hu b (not_exists.mp blank) closed
    have rest : (c.extend (u :: b)).rest = x :: (s ++ u :: b) := by rw [Cursor.extend, hs]; rfl
    have first := told.of_beside ((Cursor.beside_extend noFeed).of_le front)
    rw [told.move_id, List.map_id] at first
    rw [Cursor.placed_of_rest_cons rest, List.flatMap_cons, same, first, Placed.stop, skipped]
    rfl

theorem extend {c : Cursor}
    (closed : ∀ e ∈ c.placed.flatMap Placed.errors, e.kind ≠ .unterminatedString) :
    (c.extend (u :: b)).placed.flatMap tell =
      c.placed.flatMap tell ++ (Cursor.mk c.finish.position (u :: b)).placed.flatMap tell := by
  induction c using Cursor.walk with
  | atEnd c hs =>
    rw [Cursor.placed_of_rest_nil hs, ← Cursor.extend_finish, Cursor.finish, hs]
    rfl
  | onward c x s hs ih =>
    rw [Cursor.placed_of_rest_cons hs, List.flatMap_cons] at closed ⊢
    obtain ⟨here, later⟩ := List.forall_mem_append.mp closed
    have first : ∀ l, Piece.read x s = .quoted l → l.closed := by
      intro l hl
      by_contra unclosed
      rw [hl, Placed.errors_quoted, if_neg unclosed] at here
      exact here _ List.mem_concat_self rfl
    rw [told.extend_stop hu b hs first, ih later, Cursor.finish_stop hs, List.append_assoc]

theorem separator (e : Position) :
    (Cursor.mk e (u :: b)).placed.flatMap tell =
      (if isWhitespace u then [] else tell ⟨.stray u, ⟨e, u :: b⟩⟩) ++
        (Cursor.mk (e.behind u) b).placed.flatMap tell := by
  rw [← hu.past]
  by_cases white : isWhitespace u
  · rw [if_pos white]
    exact told.skip_blank (.whitespace white .nil) rfl
  · rw [if_neg white, Cursor.placed_of_rest_cons rfl, List.flatMap_cons,
      Piece.read_separator hu b (Bool.eq_false_iff.mpr white)]
    rfl

theorem append_separator {a : Text} {e : Position}
    (last : (Cursor.start a).finish.position = e)
    (closed : ∀ e ∈ (tokenize a).errors, e.kind ≠ .unterminatedString) :
    (Cursor.start (a ++ u :: b)).placed.flatMap tell =
      (Cursor.start a).placed.flatMap tell ++
        ((if isWhitespace u then [] else tell ⟨.stray u, ⟨e, u :: b⟩⟩) ++
          ((Cursor.start b).placed.flatMap tell).map (move (e.behind u).rebase)) := by
  rw [errors_tokenize] at closed
  have across := told.extend hu b closed
  have behind : (Cursor.mk (e.behind u) b).placed.flatMap tell =
      ((Cursor.start b).placed.flatMap tell).map (move (e.behind u).rebase) :=
    told.flatMap_placed rfl (Cursor.beside_start _ b b.length)
  rw [last, told.separator hu b, behind] at across
  exact across

end IsTold

/-- A separator behind a text without an open quote ends what the lexer knows: the text after it
gives the tokens and errors that it gives alone, moved behind the separator. -/
theorem tokenize_append_separator {a : Text} {u : Char}
    (closed : ∀ e ∈ (tokenize a).errors, e.kind ≠ .unterminatedString) (hu : IsSeparator u)
    (b : Text) : ∃ tokens e, (tokenize a).stream.tokens = tokens ++ [.endOfInput e] ∧
      (tokenize (a ++ u :: b)).stream.tokens =
        tokens ++ (tokenize b).stream.tokens.map (Token.move (e.behind u).rebase) ∧
      (tokenize (a ++ u :: b)).errors = (tokenize a).errors ++
        (if isWhitespace u then [] else [.unrecognizedCharacter u e]) ++
        (tokenize b).errors.map (LexicalError.move (e.behind u).rebase) := by
  refine ⟨_, (Cursor.start a).finish.position, tokens_tokenizeWith {} a, ?_, ?_⟩
  · have tokens := isTold_token?.append_separator hu b rfl closed
    have silent (c : Cursor) : (if isWhitespace u then []
        else (Placed.token? ⟨.stray u, c⟩).toList) = [] := ite_self _
    rw [silent, List.nil_append] at tokens
    simp only [← List.filterMap_eq_flatMap_toList] at tokens
    rw [tokenize, tokens_tokenizeWith, tokens, Cursor.finish_behind hu, tokenize,
      tokens_tokenizeWith, List.map_append, List.append_assoc]
    rfl
  · have errors := isTold_errors.append_separator hu b rfl closed
    rw [errors_tokenize, errors_tokenize, errors_tokenize, errors, List.append_assoc]
    rfl

/-- A stray tilde, a bad escape and a backslash before a lone carriage return, then a letter that
begins no name, and a line feed and an open quote behind it. -/
theorem tokenize_append_separator_stray :
    let a : Text := ['~', '\'', '\\', 'q', '\'', '1', '.', '\\', '\r']
    let b : Text := ['\n', '=', '\'', 'é']
    (∀ e ∈ (tokenize a).errors, e.kind ≠ .unterminatedString) ∧ IsSeparator 'é' ∧
      ∃ tokens e, (tokenize a).stream.tokens = tokens ++ [.endOfInput e] ∧
        (tokenize (a ++ 'é' :: b)).stream.tokens =
          tokens ++ (tokenize b).stream.tokens.map (Token.move (e.behind 'é').rebase) ∧
        (tokenize (a ++ 'é' :: b)).errors = (tokenize a).errors ++
          (if isWhitespace 'é' then [] else [.unrecognizedCharacter 'é' e]) ++
          (tokenize b).errors.map (LexicalError.move (e.behind 'é').rebase) := by
  intro a b
  have closed : ∀ e ∈ (tokenize a).errors, e.kind ≠ .unterminatedString := by decide +kernel
  have separator : IsSeparator 'é' := by decide
  exact ⟨closed, separator, tokenize_append_separator closed separator b⟩

end Lexis
