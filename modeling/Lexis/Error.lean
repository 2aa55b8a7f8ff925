import Lexis.Lookup
import Lexis.Position
import Lexis.Text.Escaped

/-!
Lexical errors and their messages. An error never stops the lexer; a `Rejection` holds all the
errors of a source for those who accept none.
-/

namespace Lexis
set_option autoImplicit false

inductive LexicalError where
  | unrecognizedCharacter (character : Char) (position : Position)
  /-- A quote, at the position, that nothing closes. -/
  | unterminatedString (position : Position)
  | invalidEscapeSequence (sequence : Char) (position : Position)
deriving DecidableEq

namespace LexicalError

inductive Kind where
  | unrecognizedCharacter
  | unterminatedString
  | invalidEscapeSequence
deriving DecidableEq

namespace Kind

def all : List Kind := [unrecognizedCharacter, unterminatedString, invalidEscapeSequence]

def name : Kind → String
  | unrecognizedCharacter => "UnrecognizedCharacter"
  | unterminatedString => "UnterminatedString"
  | invalidEscapeSequence => "InvalidEscapeSequence"

def ofName? (name : String) : Option Kind := all.find? (·.name = name)

theorem mem_all (k : Kind) : k ∈ all := by cases k <;> simp [all]

theorem name_injective {a b : Kind} (h : a.name = b.name) : a = b := by
  cases a <;> cases b <;> simp [name] at h ⊢

theorem ofName?_eq_some_iff {n : String} {k : Kind} : ofName? n = some k ↔ k.name = n :=
  find?_key_eq_some_iff mem_all fun _ _ => name_injective

end Kind

def kind : LexicalError → Kind
  | unrecognizedCharacter _ _ => .unrecognizedCharacter
  | unterminatedString _ => .unterminatedString
  | invalidEscapeSequence _ _ => .invalidEscapeSequence

def position : LexicalError → Position
  | unrecognizedCharacter _ p => p
  | unterminatedString p => p
  | invalidEscapeSequence _ p => p

/-- The character that is at fault; a quote left open is not one. -/
def character? : LexicalError → Option Char
  | unrecognizedCharacter c _ => some c
  | unterminatedString _ => none
  | invalidEscapeSequence c _ => some c

/-- The message, given which characters need their code point. -/
def messageBy (hidden : Char → Bool) : LexicalError → String
  | unrecognizedCharacter c p =>
    "Unrecognized character '" ++ String.ofList (Text.escapedBy hidden c) ++ "' at " ++ p.display
  | unterminatedString p => "Unterminated string at " ++ p.display
  | invalidEscapeSequence c p =>
    "Invalid escape sequence '\\" ++ String.ofList (Text.escapedBy hidden c) ++ "' at " ++ p.display

def message (e : LexicalError) : String := e.messageBy Text.isHidden

end LexicalError

structure Rejection where
  first : LexicalError
  others : List LexicalError
deriving DecidableEq

namespace Rejection

def ofList? : List LexicalError → Option Rejection
  | [] => none
  | e :: es => some ⟨e, es⟩

def errors (r : Rejection) : List LexicalError := r.first :: r.others

/-- The message of the first error and the number of the others. -/
def message (r : Rejection) : String :=
  match r.others.length with
  | 0 => r.first.message
  | n => r.first.message ++ " (and " ++ toString n ++ " more lexical errors)"

theorem errors_of_ofList? {es : List LexicalError} {r : Rejection} (h : ofList? es = some r) :
    r.errors = es := by
  cases es with
  | nil => simp [ofList?] at h
  | cons e es =>
    obtain rfl : _ = r := by simpa [ofList?] using h
    rfl

end Rejection

end Lexis
