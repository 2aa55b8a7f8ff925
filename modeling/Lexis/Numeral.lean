import Lexis.CharClass
import Lexis.TokenKind

/-!
Numerals. Digits and a dot are a float whatever follows the dot, and so is a dot with a digit
after it. An integer of more than one digit has no leading zero: a zero that leads is a numeral
of its own.
-/

namespace Lexis.Numeral
set_option autoImplicit false

def startsAt : Text → Bool
  | [] => false
  | [c] => isDigit c
  | c :: d :: _ => isDigit c || (c = '.' && isDigit d)

def read (s : Text) : TokenKind × Text :=
  match s.dropWhile isDigit with
  | '.' :: r => (.floatLiteral, s.takeWhile isDigit ++ '.' :: r.takeWhile isDigit)
  | _ => (.intLiteral, if s.head? = some '0' then ['0'] else s.takeWhile isDigit)

theorem read_isPrefix (s : Text) : (read s).2 <+: s := by
  unfold read
  split
  · rename_i r h
    have whole : s.takeWhile isDigit ++ '.' :: r = s := by
      rw [← h, List.takeWhile_append_dropWhile]
    have part : s.takeWhile isDigit ++ '.' :: r.takeWhile isDigit <+:
        s.takeWhile isDigit ++ '.' :: r := by
      simpa using List.takeWhile_prefix isDigit
    rwa [whole] at part
  · cases s with
    | nil => simp
    | cons c s =>
      by_cases h : c = '0'
      · simp [h]
      · simpa [h] using List.takeWhile_prefix isDigit

theorem read_ne_nil {s : Text} (h : startsAt s) : (read s).2 ≠ [] := by
  unfold read
  split
  · simp
  · rename_i noDot
    match s, h with
    | [c], h =>
      have hc : isDigit c := h
      by_cases hz : c = '0' <;> simp [hc, hz]
    | c :: d :: s, h =>
      by_cases hc : isDigit c
      · by_cases hz : c = '0' <;> simp [hc, hz]
      · obtain ⟨rfl, -⟩ : c = '.' ∧ isDigit d := by simpa [startsAt, hc] using h
        exact absurd (by simp [List.dropWhile, isDigit]) (noDot (d :: s))

theorem kind_ne_endOfInput (s : Text) : (read s).1 ≠ .endOfInput := by
  unfold read
  split <;> simp

end Lexis.Numeral
