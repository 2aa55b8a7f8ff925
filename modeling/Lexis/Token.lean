import Lexis.Position
import Lexis.TokenKind

/-!
Lexemes, tokens and trivia. A token is a lexeme with its place in the source; trivia are the
stretches of the source that no token covers.
-/

namespace Lexis
set_option autoImplicit false

/-- A classified stretch of text. Only string literals have a value besides their text. -/
structure Lexeme where
  kind : TokenKind
  text : Text
  value : Option Text
deriving DecidableEq

structure Token extends Lexeme where
  span : Span
deriving DecidableEq

namespace Token

def plain (kind : TokenKind) (text : Text) (span : Span) : Token := ⟨⟨kind, text, none⟩, span⟩

def string (text value : Text) (span : Span) : Token :=
  ⟨⟨.stringLiteral, text, some value⟩, span⟩

def endOfInput (p : Position) : Token := plain .endOfInput [] (.single p)

def position (t : Token) : Position := t.span.start

/-- Tokens of varying text are shown with it. -/
def display (t : Token) : String :=
  if t.kind.showsText then t.kind.caption ++ "(" ++ String.ofList t.text ++ ")"
  else t.kind.display

end Token

inductive TriviaKind where
  | whitespace
  /-- What was passed over after an error. -/
  | skipped
deriving DecidableEq

namespace TriviaKind

def all : List TriviaKind := [whitespace, skipped]

def name : TriviaKind → String
  | whitespace => "Whitespace"
  | skipped => "Skipped"

def ofName? (name : String) : Option TriviaKind := all.find? (·.name = name)

theorem mem_all (k : TriviaKind) : k ∈ all := by cases k <;> simp [all]

theorem name_injective {a b : TriviaKind} (h : a.name = b.name) : a = b := by
  cases a <;> cases b <;> simp [name] at h ⊢

theorem ofName?_eq_some_iff {n : String} {k : TriviaKind} : ofName? n = some k ↔ k.name = n :=
  find?_key_eq_some_iff mem_all fun _ _ => name_injective

end TriviaKind

structure Trivia where
  kind : TriviaKind
  span : Span
deriving DecidableEq

end Lexis
