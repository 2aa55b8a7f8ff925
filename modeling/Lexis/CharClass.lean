/-!
The classes of characters that the lexical grammar speaks of. Every class is within ASCII, so a
character beyond it belongs to none and starts no lexeme.
-/

namespace Lexis
set_option autoImplicit false

/-- Space, tab, line feed, carriage return, vertical tab and form feed. -/
def isWhitespace (c : Char) : Bool :=
  c = ' ' || c = '\t' || c = '\n' || c = '\r' || c = '\x0b' || c = '\x0c'

def isDigit (c : Char) : Bool := c.isDigit

def isWordStart (c : Char) : Bool := c.isAlpha || c = '_'

def isWordPart (c : Char) : Bool := isWordStart c || isDigit c

def isQuote (c : Char) : Bool := c = '"' || c = '\''

/-- The first characters of the symbols; `~` starts only `~=`. -/
def isSymbolStart (c : Char) : Bool :=
  ";=,:[]()\x7b\x7d+-*/%^#|&<>.~".toList.contains c

theorem isWordPart_of_isWordStart {c : Char} (h : isWordStart c) : isWordPart c := by
  simp [isWordPart, h]

inductive CharClass where
  | whitespace
  | wordStart
  | wordPart
  | digit
  | quote
  | symbolStart
deriving DecidableEq

namespace CharClass

def all : List CharClass := [whitespace, wordStart, wordPart, digit, quote, symbolStart]

theorem mem_all (k : CharClass) : k ∈ all := by cases k <;> simp [all]

def name : CharClass → String
  | whitespace => "WHITESPACE"
  | wordStart => "IDENT_START"
  | wordPart => "IDENT_CONTINUE"
  | digit => "DIGIT"
  | quote => "QUOTE"
  | symbolStart => "SYMBOL_START"

def ofName? (name : String) : Option CharClass := all.find? (·.name = name)

def has : CharClass → Char → Bool
  | whitespace => isWhitespace
  | wordStart => isWordStart
  | wordPart => isWordPart
  | digit => isDigit
  | quote => isQuote
  | symbolStart => isSymbolStart

end CharClass

abbrev ClassSet := CharClass → Bool

namespace ClassSet

def ofChar (c : Char) : ClassSet := fun k => k.has c

def ofList (ks : List CharClass) : ClassSet := fun k => k ∈ ks

/-- The members, in the order of `CharClass.all`. -/
def toList (a : ClassSet) : List CharClass := CharClass.all.filter a

def union (a b : ClassSet) : ClassSet := fun k => a k || b k

def intersects (a b : ClassSet) : Bool := CharClass.all.any fun k => a k && b k

def isEmpty (a : ClassSet) : Bool := CharClass.all.all fun k => !a k

def equals (a b : ClassSet) : Bool := CharClass.all.all fun k => a k == b k

/-- Whether a character belongs to one of the classes. -/
def test (a : ClassSet) (c : Char) : Bool := (ofChar c).intersects a

theorem isEmpty_iff (a : ClassSet) : a.isEmpty ↔ ∀ k, a k = false := by
  simp [isEmpty, CharClass.mem_all]

end ClassSet

end Lexis
