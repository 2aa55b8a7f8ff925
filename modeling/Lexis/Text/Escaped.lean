import Lexis.Text.Hidden

/-!
Characters as messages show them: a few by a backslash and a letter, those that cannot be seen by
their code point, all others as they are.
-/

namespace Lexis.Text
set_option autoImplicit false

/-- The characters that are always written with a backslash, and what follows it. -/
def backslashed : List (Char × Char) :=
  [('\x00', '0'), ('\t', 't'), ('\r', 'r'), ('\n', 'n'), ('\'', '\''), ('"', '"'), ('\\', '\\')]

def codePoint (c : Char) : List Char :=
  '\\' :: 'u' :: '\x7b' :: (Nat.toDigits 16 c.toNat ++ ['\x7d'])

/-- How a character is shown, given which ones need their code point. -/
def escapedBy (hidden : Char → Bool) (c : Char) : List Char :=
  match backslashed.lookup c with
  | some letter => ['\\', letter]
  | none => if hidden c then codePoint c else [c]

def escaped (c : Char) : List Char := escapedBy isHidden c

end Lexis.Text
