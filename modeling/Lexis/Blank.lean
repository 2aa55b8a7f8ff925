import Lexis.CharClass
import Lexis.Text

/-!
Blanks between lexemes: whitespace and line continuations, a continuation being a backslash
directly before a line break. `read` takes the longest blank that begins a text.
-/

namespace Lexis.Blank
set_option autoImplicit false

inductive IsBlank : Text → Prop where
  | nil : IsBlank []
  | whitespace {c : Char} {s : Text} : isWhitespace c → IsBlank s → IsBlank (c :: s)
  | continuation {s : Text} : IsBlank s → IsBlank ('\\' :: '\n' :: s)
  | longContinuation {s : Text} : IsBlank s → IsBlank ('\\' :: '\r' :: '\n' :: s)

def read : Text → Text
  | [] => []
  | '\\' :: '\n' :: s => '\\' :: '\n' :: read s
  | '\\' :: '\r' :: '\n' :: s => '\\' :: '\r' :: '\n' :: read s
  | c :: s => if isWhitespace c then c :: read s else []

def continuesLine : Text → Bool
  | '\\' :: '\n' :: _ => true
  | '\\' :: '\r' :: '\n' :: _ => true
  | _ => false

/-- The test that is made before a blank is read. -/
def startsAt : Text → Bool
  | [] => false
  | c :: s => isWhitespace c || continuesLine (c :: s)

theorem startsAt_iff {s : Text} : startsAt s ↔ read s ≠ [] := by
  fun_cases read s with
  | case1 => simp [startsAt]
  | case2 s => simp [startsAt, continuesLine]
  | case3 s => simp [startsAt, continuesLine]
  | case4 c s short long white => simp [startsAt, white]
  | case5 c s short long white =>
    have noContinuation : continuesLine (c :: s) = false := by
      unfold continuesLine
      split
      · simp_all
      · simp_all
      · rfl
    simp [startsAt, white, noContinuation]

theorem isBlank_read (s : Text) : IsBlank (read s) := by
  fun_induction read s with
  | case1 => exact .nil
  | case2 s ih => exact .continuation ih
  | case3 s ih => exact .longContinuation ih
  | case4 c s _ _ hc ih => exact .whitespace hc ih
  | case5 => exact .nil

theorem read_isPrefix (s : Text) : read s <+: s := by
  fun_induction read s <;> simp_all

end Lexis.Blank
