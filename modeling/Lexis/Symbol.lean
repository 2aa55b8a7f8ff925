import Lexis.Text

/-!
Punctuation and operators. Symbols of two characters stand before their first characters in the
table, so the first one that begins a text is the longest one that does.
-/

namespace Lexis
set_option autoImplicit false

inductive Symbol where
  | arrow
  | eq
  | notEq
  | ltEq
  | gtEq
  | dotDot
  | semicolon
  | assign
  | comma
  | colon
  | lBracket
  | rBracket
  | lParen
  | rParen
  | lBrace
  | rBrace
  | plus
  | minus
  | star
  | slash
  | percent
  | caret
  | hash
  | pipe
  | amp
  | lt
  | gt
  | dot
deriving DecidableEq

namespace Symbol

/-- Every symbol, longer ones first. -/
def all : List Symbol :=
  [arrow, eq, notEq, ltEq, gtEq, dotDot, semicolon, assign, comma, colon, lBracket, rBracket,
    lParen, rParen, lBrace, rBrace, plus, minus, star, slash, percent, caret, hash, pipe, amp, lt,
    gt, dot]

theorem mem_all (s : Symbol) : s ∈ all := by cases s <;> simp [all]

def spelling : Symbol → String
  | arrow => "->"
  | eq => "=="
  | notEq => "~="
  | ltEq => "<="
  | gtEq => ">="
  | dotDot => ".."
  | semicolon => ";"
  | assign => "="
  | comma => ","
  | colon => ":"
  | lBracket => "["
  | rBracket => "]"
  | lParen => "("
  | rParen => ")"
  | lBrace => "\x7b"
  | rBrace => "\x7d"
  | plus => "+"
  | minus => "-"
  | star => "*"
  | slash => "/"
  | percent => "%"
  | caret => "^"
  | hash => "#"
  | pipe => "|"
  | amp => "&"
  | lt => "<"
  | gt => ">"
  | dot => "."

def name : Symbol → String
  | arrow => "Arrow"
  | eq => "Eq"
  | notEq => "NotEq"
  | ltEq => "LtEq"
  | gtEq => "GtEq"
  | dotDot => "DotDot"
  | semicolon => "Semicolon"
  | assign => "Assign"
  | comma => "Comma"
  | colon => "Colon"
  | lBracket => "LBracket"
  | rBracket => "RBracket"
  | lParen => "LParen"
  | rParen => "RParen"
  | lBrace => "LBrace"
  | rBrace => "RBrace"
  | plus => "Plus"
  | minus => "Minus"
  | star => "Star"
  | slash => "Slash"
  | percent => "Percent"
  | caret => "Caret"
  | hash => "Hash"
  | pipe => "Pipe"
  | amp => "Amp"
  | lt => "Lt"
  | gt => "Gt"
  | dot => "Dot"

def text (s : Symbol) : Text := s.spelling.toList

/-- The longest symbol that begins the text. -/
def match? (rest : Text) : Option Symbol := all.find? (·.text.isPrefixOf rest)

theorem text_injective {a b : Symbol} (h : a.text = b.text) : a = b := by
  have key : ∀ x ∈ all, ∀ y ∈ all, x.text = y.text → x = y := by decide +kernel
  exact key a (mem_all a) b (mem_all b) h

theorem text_ne_nil (s : Symbol) : s.text ≠ [] := by
  cases s <;> simp [text, spelling]

theorem match?_isPrefix {rest : Text} {s : Symbol} (h : match? rest = some s) :
    s.text <+: rest := by
  simpa using List.find?_some h

theorem match?_eq_none_iff {rest : Text} :
    match? rest = none ↔ ∀ s : Symbol, ¬ s.text <+: rest := by
  simp [match?, mem_all]

end Symbol

end Lexis
