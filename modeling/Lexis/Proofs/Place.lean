import Lexis.Placed
import Mathlib.Data.List.DropRight

/-! The place of a cursor, counted from the text before it and not step by step. Every
way to a cursor keeps the two counts equal. -/

namespace Lexis
set_option autoImplicit false

/-- What a character does to the counts of lines and columns: it ends a line, it is the carriage
return of a two-character line break, or it takes a column. -/
inductive Role where
  | breaks
  | joins
  | counts
deriving DecidableEq

namespace Role

def of (c : Char) (next? : Option Char) : Role :=
  if c = '\n' then breaks
  else if c = '\r' then if next? = some '\n' then joins else breaks
  else counts

end Role

namespace Text

def roles : Text → List Role
  | [] => []
  | c :: s => Role.of c s.head? :: roles s

@[simp] theorem length_roles (s : Text) : (roles s).length = s.length := by
  induction s with
  | nil => rfl
  | cons c s ih => simp [roles, ih]

/-- The roles before a place; the character at the place decides on a carriage return. -/
def rolesBefore (before rest : Text) : List Role := (roles (before ++ rest)).take before.length

theorem roles_append (before rest : Text) :
    roles (before ++ rest) = rolesBefore before rest ++ roles rest := by
  induction before with
  | nil => simp [rolesBefore]
  | cons c before ih =>
    simp only [rolesBefore, List.cons_append, roles, List.length_cons, List.take_succ_cons]
    rw [← rolesBefore, ← ih]

@[simp] theorem length_rolesBefore (before rest : Text) :
    (rolesBefore before rest).length = before.length := by
  simp [rolesBefore]

theorem rolesBefore_concat (before : Text) (c : Char) (rest : Text) :
    rolesBefore (before ++ [c]) rest =
      rolesBefore before (c :: rest) ++ [Role.of c rest.head?] := by
  have early := roles_append before (c :: rest)
  have late := roles_append (before ++ [c]) rest
  rw [List.append_assoc, List.singleton_append, early] at late
  have same : rolesBefore (before ++ [c]) rest ++ roles rest =
      (rolesBefore before (c :: rest) ++ [Role.of c rest.head?]) ++ roles rest := by
    simpa [roles] using late.symm
  exact List.append_cancel_right same

end Text

namespace Position

/-- The place between two parts of a source. Lines are counted by the characters that end
one, columns by those after the last line end. -/
def between (before rest : Text) : Position :=
  let roles := Text.rolesBefore before rest
  ⟨1 + roles.count .breaks, (roles.rtakeWhile (· ≠ .breaks)).count .counts,
    Text.byteLength before⟩

@[simp] theorem between_nil (s : Text) : between [] s = start := by
  simp [between, Text.rolesBefore, start]

@[simp] theorem between_offset (before rest : Text) :
    (between before rest).offset = Text.byteLength before := rfl

theorem past_between (before : Text) (c : Char) (rest : Text) :
    (between before (c :: rest)).past c rest.head? = between (before ++ [c]) rest := by
  simp only [between, past, Text.rolesBefore_concat, List.rtakeWhile_concat, List.count_append,
    Text.byteLength_append, Text.byteLength_cons, Text.byteLength_nil, Nat.add_zero]
  by_cases hn : c = '\n'
  · simp [breaksLine, Role.of, hn, Nat.add_assoc]
  · by_cases hr : c = '\r'
    · by_cases hf : rest.head? = some '\n'
      · simp [breaksLine, Role.of, hr, hf]
      · simp [breaksLine, Role.of, hr, hf, Nat.add_assoc]
    · simp [breaksLine, Role.of, hn, hr]

theorem count_add_count_le (roles : List Role) :
    roles.count .breaks + roles.count .counts ≤ roles.length := by
  induction roles with
  | nil => simp
  | cons r roles ih =>
    cases r <;> simp <;> omega

theorem line_add_column_le (before rest : Text) :
    (between before rest).line - 1 + (between before rest).column ≤
      (between before rest).offset := by
  have later := (List.rtakeWhile_suffix (· ≠ .breaks)
    (Text.rolesBefore before rest)).sublist.count_le Role.counts
  have all := count_add_count_le (Text.rolesBefore before rest)
  have bytes := Text.length_le_byteLength before
  rw [Text.length_rolesBefore] at all
  simp only [between]
  omega

end Position

namespace Cursor

/-- The cursor stands where the text before it ends. -/
def After (before : Text) (c : Cursor) : Prop := c.position = .between before c.rest

theorem After.start (source : Text) : (Cursor.start source).After [] := by
  simp [After, Cursor.start]

theorem After.advance {before : Text} {c : Cursor} (h : c.After before) :
    c.advance.After (before ++ c.rest.take 1) := by
  obtain ⟨p, s⟩ := c
  cases s with
  | nil => simpa [After] using h
  | cons x s =>
    have hp : p = .between before (x :: s) := h
    rw [hp]
    exact Position.past_between before x s

theorem After.skip {before : Text} {c : Cursor} (h : c.After before) (n : Nat) :
    (c.skip n).After (before ++ c.rest.take n) := by
  induction n generalizing before c with
  | zero => simpa using h
  | succ n ih =>
    rw [skip_succ]
    have later := ih h.advance
    rw [advance_rest, List.append_assoc] at later
    cases hs : c.rest with
    | nil => simpa [hs] using later
    | cons x s => simpa [hs] using later

theorem After.offset {before : Text} {c : Cursor} (h : c.After before) :
    c.position.offset = Text.byteLength before := by
  rw [h, Position.between_offset]

theorem After.slice?_skip {before : Text} {c : Cursor} (h : c.After before) {m n : Nat}
    (hmn : m ≤ n) : (before ++ c.rest).slice? (c.skip m).position.offset
      (c.skip n).position.offset = some ((c.rest.take n).drop m) := by
  have front : c.rest.take n = c.rest.take m ++ (c.rest.take n).drop m := by
    have cut := (List.take_append_drop m (c.rest.take n)).symm
    rwa [List.take_take, Nat.min_eq_left hmn] at cut
  have whole : before ++ c.rest =
      (before ++ c.rest.take m) ++ (c.rest.take n).drop m ++ c.rest.drop n := by
    rw [List.append_assoc before, ← front, List.append_assoc, List.take_append_drop]
  have bytes : Text.byteLength (before ++ c.rest.take n) =
      Text.byteLength (before ++ c.rest.take m) + Text.byteLength ((c.rest.take n).drop m) := by
    rw [← Text.byteLength_append, List.append_assoc, ← front]
  rw [(h.skip m).offset, (h.skip n).offset, bytes, whole]
  exact Text.slice?_append _ _ _

/-- Induction along the pieces of the text that is left. -/
@[elab_as_elim]
theorem walk {motive : Cursor → Prop} (atEnd : ∀ c, c.rest = [] → motive c)
    (onward : ∀ c x s, c.rest = x :: s → motive (Placed.stop ⟨.read x s, c⟩) → motive c)
    (c : Cursor) : motive c := by
  cases hs : c.rest with
  | nil => exact atEnd c hs
  | cons x s => exact onward c x s hs (walk atEnd onward (Placed.stop ⟨.read x s, c⟩))
termination_by c.rest.length
decreasing_by exact stop_rest_length_lt hs

theorem append_rest_skip {c : Cursor} {t : Text} (ht : t <+: c.rest) :
    t ++ (c.skip t.length).rest = c.rest := by
  obtain ⟨r, hr⟩ := ht
  rw [skip_rest, ← hr, List.drop_left]

theorem After.skip_prefix {before : Text} {c : Cursor} (h : c.After before) {t : Text}
    (ht : t <+: c.rest) : (c.skip t.length).After (before ++ t) := by
  have later := h.skip t.length
  rwa [← List.prefix_iff_eq_take.mp ht] at later

theorem After.stop {before : Text} {c : Cursor} {x : Char} {s : Text} (h : c.After before)
    (hs : c.rest = x :: s) :
    (Placed.stop ⟨.read x s, c⟩).After (before ++ (Piece.read x s).text) :=
  h.skip_prefix (hs ▸ Piece.read_isPrefix x s)

theorem text_append_rest_stop {c : Cursor} {x : Char} {s : Text} (hs : c.rest = x :: s) :
    (Piece.read x s).text ++ (Placed.stop ⟨.read x s, c⟩).rest = c.rest :=
  append_rest_skip (hs ▸ Piece.read_isPrefix x s)

theorem After.slice?_span {before : Text} {c : Cursor} {x : Char} {s : Text} (h : c.After before)
    (hs : c.rest = x :: s) : (Placed.span ⟨.read x s, c⟩).slice? (before ++ c.rest) =
      some (Piece.read x s).text := by
  have cut := h.slice?_skip (Nat.zero_le (Piece.read x s).text.length)
  rw [List.drop_zero] at cut
  have front := List.prefix_iff_eq_take.mp (Piece.read_isPrefix x s)
  rw [← hs] at front
  exact cut.trans (congrArg some front.symm)

end Cursor

theorem Piece.text_of_lexeme? {p : Piece} {l : Lexeme} (h : p.lexeme? = some l) :
    l.text = p.text := by
  cases p with
  | blank t => cases h
  | lexeme k t =>
    obtain rfl := Option.some.inj h
    rfl
  | quoted q =>
    simp only [lexeme?, Option.ite_none_right_eq_some] at h
    obtain ⟨-, h⟩ := h
    obtain rfl := Option.some.inj h
    rfl
  | stray c => cases h

theorem Placed.token?_eq_some {p : Placed} {t : Token} (h : p.token? = some t) :
    t.span = p.span ∧ t.text = p.piece.text := by
  obtain ⟨l, hl, rfl⟩ := Option.map_eq_some_iff.mp h
  exact ⟨rfl, Piece.text_of_lexeme? hl⟩

end Lexis
