import Lexis.Proofs.Place
import Lexis.Session

/-! Sessions of a lexer step by step. Whatever the commands were, the cursor and every marked
place stand in the source, and nothing but their offset matters. -/

namespace Lexis
set_option autoImplicit false

namespace Cursor

/-- What one step does: it passes over pieces without a token, and then it is at the end or
at a piece that gives one. -/
theorem next_cases (c : Cursor) : ∃ n,
    ((c.skip n).rest = [] ∧ c.next.token = .endOfInput (c.skip n).position ∧
      c.next.cursor = c.skip n) ∨
    (∃ x s t, (c.skip n).rest = x :: s ∧ Placed.token? ⟨.read x s, c.skip n⟩ = some t ∧
      c.next.token = t ∧ c.next.cursor = Placed.stop ⟨.read x s, c.skip n⟩) := by
  induction c using walk with
  | atEnd c hs =>
    rw [next_of_rest_nil hs]
    exact ⟨0, Or.inl ⟨hs, rfl, rfl⟩⟩
  | onward c x s hs ih =>
    cases ht : Placed.token? ⟨.read x s, c⟩ with
    | some t =>
      rw [next_of_token hs ht]
      exact ⟨0, Or.inr ⟨x, s, t, hs, ht, rfl, rfl⟩⟩
    | none =>
      obtain ⟨n, later⟩ := ih
      rw [next_of_no_token hs ht]
      have along : (Placed.stop ⟨.read x s, c⟩).skip n =
          c.skip ((Piece.read x s).text.length + n) := skip_skip c _ n
      rw [along] at later
      exact ⟨_, later⟩

theorem exists_next_eq_skip (c : Cursor) : ∃ n, c.next.cursor = c.skip n := by
  obtain ⟨m, ⟨-, -, h⟩ | ⟨x, s, t, -, -, -, h⟩⟩ := c.next_cases
  · exact ⟨m, h⟩
  · exact ⟨m + (Piece.read x s).text.length, h.trans (skip_skip c m _)⟩

theorem getElem?_passed (c : Cursor) (n : Nat) :
    (c.passed (n + 1)).getLast? = some (c.lookAhead? n) := by
  induction n generalizing c with
  | zero => simp [passed, peek?, lookAhead?, List.head?_eq_getElem?]
  | succ n ih =>
    have later := ih c.advance
    rw [passed, List.getLast?_cons, later]
    simp [lookAhead?]

/-- Some text of the source comes before the cursor, and all the others after it. -/
def StandsIn (source : Text) (c : Cursor) : Prop :=
  ∃ before, before ++ c.rest = source ∧ c.After before

theorem StandsIn.start (source : Text) : (Cursor.start source).StandsIn source :=
  ⟨[], rfl, After.start source⟩

theorem StandsIn.skip {source : Text} {c : Cursor} (h : c.StandsIn source) (n : Nat) :
    (c.skip n).StandsIn source := by
  obtain ⟨before, rfl, after⟩ := h
  refine ⟨before ++ c.rest.take n, ?_, after.skip n⟩
  rw [skip_rest, List.append_assoc, List.take_append_drop]

theorem StandsIn.next {source : Text} {c : Cursor} (h : c.StandsIn source) :
    c.next.cursor.StandsIn source := by
  obtain ⟨n, hn⟩ := c.exists_next_eq_skip
  rw [hn]
  exact h.skip n

theorem StandsIn.slice?_next {source : Text} {c : Cursor} (h : c.StandsIn source) :
    c.next.token.span.slice? source = some c.next.token.text := by
  obtain ⟨n, ⟨-, ht, -⟩ | ⟨x, s, t, hs, ht, same, -⟩⟩ := c.next_cases
  · obtain ⟨before, rfl, after⟩ := h
    have cut := after.slice?_skip (Nat.le_refl n)
    have nothing : (c.rest.take n).drop n = [] := by simp
    rw [nothing] at cut
    rw [ht]
    exact cut
  · obtain ⟨before, rfl, after⟩ := h.skip n
    obtain ⟨span, text⟩ := Placed.token?_eq_some ht
    rw [same, span, text]
    exact after.slice?_span hs

end Cursor

namespace Lexer

structure OnSource (source : Text) (l : Lexer) : Prop where
  source_eq : l.source = source
  cursor : l.cursor.StandsIn source

variable {source : Text} {l : Lexer} (h : l.OnSource source)
include h

theorem OnSource.nextToken : l.nextToken.2.OnSource source :=
  ⟨h.source_eq, h.cursor.next⟩

theorem OnSource.next? : l.next?.2.OnSource source := by
  unfold Lexer.next?
  split
  · exact h
  · exact h.nextToken

theorem OnSource.drain : l.drain.2.OnSource source := by
  fun_induction Lexer.drain l with
  | case1 => exact h
  | case2 l _ step later ih => exact ih h.nextToken

end Lexer

namespace Session

def after (s : Session) (commands : List Command) : Session :=
  commands.foldl (fun s c => (s.run c).2) s

structure OnSource (source : Text) (s : Session) : Prop where
  lexer : s.lexer.OnSource source
  marks : ∀ m ∈ s.marks, m.2.StandsIn source

theorem OnSource.start (config : Config) (source : Text) :
    (Session.start config source).OnSource source :=
  ⟨⟨rfl, .start source⟩, by simp [Session.start]⟩

theorem OnSource.run {source : Text} {s : Session} (h : s.OnSource source) (c : Command) :
    (s.run c).2.OnSource source := by
  obtain ⟨lexer, marks⟩ := h
  cases c with
  | nextToken => exact ⟨lexer.nextToken, marks⟩
  | next => exact ⟨lexer.next?, marks⟩
  | drain => exact ⟨lexer.drain, marks⟩
  | advance n => exact ⟨⟨lexer.source_eq, lexer.cursor.skip n⟩, marks⟩
  | lookAhead n => exact ⟨lexer, marks⟩
  | mark label =>
    refine ⟨lexer, ?_⟩
    intro m hm
    rcases List.mem_cons.mp hm with rfl | hm
    · exact lexer.cursor
    · exact marks m hm
  | returnTo label =>
    simp only [Session.run]
    cases found : s.marks.lookup label with
    | none => exact ⟨lexer, marks⟩
    | some mark =>
      obtain ⟨early, late, all, -⟩ := List.lookup_eq_some_iff.mp found
      have mem : (label, mark) ∈ s.marks := by simp [all]
      exact ⟨⟨lexer.source_eq, marks _ mem⟩, marks⟩
  | errors => exact ⟨lexer, marks⟩
  | source => exact ⟨lexer, marks⟩
  | tokenize => exact ⟨lexer, marks⟩

theorem OnSource.after {source : Text} {s : Session} (h : s.OnSource source)
    (commands : List Command) : (s.after commands).OnSource source := by
  induction commands generalizing s with
  | nil => exact h
  | cons c commands ih => exact ih (h.run c)

end Session

/-- What holds of a cursor on a source, `before` and `rest` being the text on its two sides. -/
structure Cursor.Placing (source before rest : Text) (c : Cursor) : Prop where
  takeBytes?_offset : source.takeBytes? c.position.offset = some before
  dropBytes?_offset : source.dropBytes? c.position.offset = some rest
  offset_le : c.position.offset ≤ Text.byteLength source
  peek? : c.peek? = rest.head?
  peek?_eq_none_iff : c.peek? = none ↔ c.position.offset = Text.byteLength source
  line : c.position.line = 1 + (Text.rolesBefore before rest).count .breaks
  column : c.position.column =
    ((Text.rolesBefore before rest).rtakeWhile (· ≠ .breaks)).count .counts
  line_add_column_le : c.position.line - 1 + c.position.column ≤ c.position.offset
  lookAhead? : ∀ n, c.lookAhead? n = rest[n]?
  getLast?_passed : ∀ n, (c.passed (n + 1)).getLast? = some (c.lookAhead? n)
  slice?_skip : ∀ m n, m ≤ n → source.slice? (c.skip m).position.offset
    (c.skip n).position.offset = some ((rest.take n).drop m)

theorem Cursor.After.placing {before : Text} {c : Cursor} (h : c.After before) :
    c.Placing (before ++ c.rest) before c.rest := by
  have offset := h.offset
  have position : c.position = .between before c.rest := h
  have bytes := Text.byteLength_append before c.rest
  refine ⟨?_, ?_, ?_, rfl, ?_, ?_, ?_, ?_, fun n => rfl, c.getElem?_passed, ?_⟩
  · rw [offset, Text.takeBytes?_append]
  · rw [offset, Text.dropBytes?_append]
  · omega
  · rw [offset, bytes, Cursor.peek?, List.head?_eq_none_iff]
    constructor
    · intro hr
      simp [hr]
    · intro hr
      have := Text.length_le_byteLength c.rest
      exact List.length_eq_zero_iff.mp (by omega)
  · rw [position, Position.between]
  · rw [position, Position.between]
  · rw [position]
    exact Position.line_add_column_le before c.rest
  · exact fun m n hmn => h.slice?_skip hmn

/-- After any commands the cursor stands in the source, and its line and column are counts
over the text before its offset. Every slice that a step takes is in range. -/
theorem cursor_after_commands (config : Config) (source : Text) (commands : List Command) :
    let lexer := ((Session.start config source).after commands).lexer
    lexer.source = source ∧
      (∃ before rest, lexer.cursor.Placing source before rest) ∧
      lexer.nextToken.1.span.slice? source = some lexer.nextToken.1.text := by
  obtain ⟨⟨same, cursor⟩, -⟩ := (Session.OnSource.start config source).after commands
  refine ⟨same, ?_, cursor.slice?_next⟩
  obtain ⟨before, whole, after⟩ := cursor
  have placing := after.placing
  rw [whole] at placing
  exact ⟨before, _, placing⟩

end Lexis
