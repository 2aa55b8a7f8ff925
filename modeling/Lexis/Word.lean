import Lexis.CharClass
import Lexis.TokenKind

/-!
Words: a letter or an underscore, then letters, underscores and digits. A word is a keyword when
the whole of it is spelled like one, and an identifier otherwise.
-/

namespace Lexis.Word
set_option autoImplicit false

/-- The longest run of word characters that begins the text. -/
def read (s : Text) : Text := s.takeWhile isWordPart

def kind (word : Text) : TokenKind := (Keyword.ofText? word).elim .identifier .keyword

theorem read_isPrefix (s : Text) : read s <+: s := List.takeWhile_prefix _

theorem read_ne_nil {c : Char} (h : isWordStart c) (s : Text) : read (c :: s) ≠ [] := by
  simp [read, isWordPart_of_isWordStart h]

theorem kind_ne_endOfInput (word : Text) : kind word ≠ .endOfInput := by
  unfold kind
  cases Keyword.ofText? word <;> simp

end Lexis.Word
