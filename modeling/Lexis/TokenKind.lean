import Lexis.Keyword
import Lexis.Symbol

/-!
The kinds of tokens: a keyword or a symbol, whose text is fixed, or a category whose texts vary.
-/

namespace Lexis
set_option autoImplicit false

inductive TokenKind where
  | keyword (k : Keyword)
  | symbol (s : Symbol)
  | identifier
  | intLiteral
  | floatLiteral
  | stringLiteral
  | endOfInput
deriving DecidableEq

namespace TokenKind

def all : List TokenKind :=
  Symbol.all.map symbol ++ Keyword.all.map keyword ++
    [identifier, intLiteral, floatLiteral, stringLiteral, endOfInput]

theorem mem_all (k : TokenKind) : k ∈ all := by
  cases k <;> simp [all, Symbol.mem_all, Keyword.mem_all]

/-- The name that serialized forms use. -/
def name : TokenKind → String
  | keyword k => k.name
  | symbol s => s.name
  | identifier => "Identifier"
  | intLiteral => "IntLiteral"
  | floatLiteral => "FloatLiteral"
  | stringLiteral => "StringLiteral"
  | endOfInput => "EndOfInput"

def ofName? (name : String) : Option TokenKind := all.find? (·.name = name)

/-- The fixed text of a keyword or a symbol, or else the name of the category. This table is apart
from the ones that words and symbols are looked up in. -/
def caption : TokenKind → String
  | symbol .semicolon => ";"
  | symbol .assign => "="
  | symbol .comma => ","
  | symbol .colon => ":"
  | symbol .lBracket => "["
  | symbol .rBracket => "]"
  | symbol .dot => "."
  | symbol .lParen => "("
  | symbol .rParen => ")"
  | symbol .arrow => "->"
  | symbol .lBrace => "\x7b"
  | symbol .rBrace => "\x7d"
  | symbol .plus => "+"
  | symbol .minus => "-"
  | symbol .star => "*"
  | symbol .slash => "/"
  | symbol .percent => "%"
  | symbol .caret => "^"
  | symbol .hash => "#"
  | symbol .eq => "=="
  | symbol .notEq => "~="
  | symbol .ltEq => "<="
  | symbol .gtEq => ">="
  | symbol .lt => "<"
  | symbol .gt => ">"
  | symbol .pipe => "|"
  | symbol .amp => "&"
  | symbol .dotDot => ".."
  | keyword .kwDo => "do"
  | keyword .kwEnd => "end"
  | keyword .kwWhile => "while"
  | keyword .kwIf => "if"
  | keyword .kwThen => "then"
  | keyword .kwElseIf => "elseif"
  | keyword .kwElse => "else"
  | keyword .kwFor => "for"
  | keyword .kwIn => "in"
  | keyword .kwFunction => "function"
  | keyword .typeTable => "Table"
  | keyword .typeUnion => "Union"
  | keyword .typeList => "List"
  | keyword .kwNil => "nil"
  | keyword .kwReturn => "return"
  | keyword .kwBreak => "break"
  | keyword .kwContinue => "continue"
  | keyword .kwOr => "or"
  | keyword .kwAnd => "and"
  | keyword .kwNot => "not"
  | keyword .kwFalse => "false"
  | keyword .kwTrue => "true"
  | identifier => "identifier"
  | intLiteral => "integer"
  | floatLiteral => "float"
  | stringLiteral => "string"
  | endOfInput => "end of input"

theorem caption_keyword (w : Keyword) : (keyword w).caption = w.spelling := by cases w <;> rfl

theorem caption_symbol (s : Symbol) : (symbol s).caption = s.spelling := by cases s <;> rfl

def isKeyword (k : TokenKind) : Bool := Keyword.all.any (keyword · = k)

def isSymbol (k : TokenKind) : Bool := Symbol.all.any (symbol · = k)

theorem isKeyword_iff {k : TokenKind} : k.isKeyword ↔ ∃ w, keyword w = k := by
  simp [isKeyword, Keyword.mem_all]

theorem isSymbol_iff {k : TokenKind} : k.isSymbol ↔ ∃ s, symbol s = k := by
  simp [isSymbol, Symbol.mem_all]

def isLiteral : TokenKind → Bool
  | intLiteral | floatLiteral | stringLiteral => true
  | keyword .kwTrue | keyword .kwFalse | keyword .kwNil => true
  | _ => false

/-- Fixed texts are shown in quotes. -/
def display (k : TokenKind) : String :=
  if k.isKeyword || k.isSymbol then "'" ++ k.caption ++ "'" else k.caption

def showsText : TokenKind → Bool
  | identifier | intLiteral | floatLiteral | stringLiteral => true
  | _ => false

theorem name_injective {a b : TokenKind} (h : a.name = b.name) : a = b := by
  have key : ∀ x ∈ all, ∀ y ∈ all, x.name = y.name → x = y := by decide +kernel
  exact key a (mem_all a) b (mem_all b) h

theorem ofName?_eq_some_iff {n : String} {k : TokenKind} : ofName? n = some k ↔ k.name = n :=
  find?_key_eq_some_iff mem_all fun _ _ => name_injective

end TokenKind

end Lexis
