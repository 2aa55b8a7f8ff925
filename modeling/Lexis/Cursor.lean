import Lexis.Position

/-!
A cursor is a place in a source with the text that is left from there. It moves forward by whole
characters; at the end it stays.
-/

namespace Lexis
set_option autoImplicit false

structure Cursor where
  position : Position
  rest : Text
deriving DecidableEq

namespace Cursor

def start (source : Text) : Cursor := ⟨.start, source⟩

def isAtEnd (c : Cursor) : Bool := c.rest.isEmpty

/-- The character `n` places ahead. -/
def lookAhead? (c : Cursor) (n : Nat) : Option Char := c.rest[n]?

def peek? (c : Cursor) : Option Char := c.rest.head?

def advance : Cursor → Cursor
  | ⟨p, []⟩ => ⟨p, []⟩
  | ⟨p, x :: s⟩ => ⟨p.past x s.head?, s⟩

def skip (c : Cursor) : Nat → Cursor
  | 0 => c
  | n + 1 => c.advance.skip n

/-- What `n` advances pass over, one by one; nothing at the end. -/
def passed (c : Cursor) : Nat → List (Option Char)
  | 0 => []
  | n + 1 => c.peek? :: c.advance.passed n

def finish (c : Cursor) : Cursor := c.skip c.rest.length

@[simp] theorem advance_nil (p : Position) : advance ⟨p, []⟩ = ⟨p, []⟩ := rfl

@[simp] theorem advance_rest (c : Cursor) : c.advance.rest = c.rest.tail := by
  obtain ⟨p, s⟩ := c
  cases s <;> rfl

@[simp] theorem skip_zero (c : Cursor) : c.skip 0 = c := rfl

theorem skip_succ (c : Cursor) (n : Nat) : c.skip (n + 1) = c.advance.skip n := rfl

theorem skip_skip (c : Cursor) (m n : Nat) : (c.skip m).skip n = c.skip (m + n) := by
  induction m generalizing c with
  | zero => simp
  | succ m ih => rw [skip_succ, ih, Nat.add_right_comm, skip_succ]

@[simp] theorem skip_rest (c : Cursor) (n : Nat) : (c.skip n).rest = c.rest.drop n := by
  induction n generalizing c with
  | zero => simp
  | succ n ih => rw [skip_succ, ih, advance_rest, ← List.drop_one, List.drop_drop, Nat.add_comm]

@[simp] theorem finish_rest (c : Cursor) : c.finish.rest = [] := by simp [finish]

end Cursor

end Lexis
