import Lexis.Lexer

/-!
Sessions: a lexer under commands, with marked places kept under labels. Lexing to the end works on
the lexer as it is and leaves it there.
-/

namespace Lexis
set_option autoImplicit false

inductive Command where
  | nextToken
  | next
  | drain
  | advance (times : Nat)
  | lookAhead (distance : Nat)
  | mark (label : String)
  | returnTo (label : String)
  | errors
  | source
  | tokenize
deriving DecidableEq

inductive Answer where
  | token (t : Token)
  | nextOne (t : Option Token)
  | tokens (ts : List Token)
  | passed (cs : List (Option Char))
  | character (c : Option Char)
  | done
  | errors (es : List LexicalError)
  | source (s : Text)
  | output (o : Output)
deriving DecidableEq

structure Session where
  lexer : Lexer
  /-- The latest place of a label comes first. -/
  marks : List (String × Cursor)
deriving DecidableEq

namespace Session

def start (config : Config) (source : Text) : Session := ⟨.start config source, []⟩

/-- The answer to a command and the session after it. A label that marks no place leads nowhere. -/
def run (s : Session) : Command → Answer × Session
  | .nextToken =>
    let step := s.lexer.nextToken
    (.token step.1, { s with lexer := step.2 })
  | .next =>
    let step := s.lexer.next?
    (.nextOne step.1, { s with lexer := step.2 })
  | .drain =>
    let step := s.lexer.drain
    (.tokens step.1, { s with lexer := step.2 })
  | .advance n => (.passed (s.lexer.cursor.passed n), { s with lexer := s.lexer.skip n })
  | .lookAhead n => (.character (s.lexer.cursor.lookAhead? n), s)
  | .mark label => (.done, { s with marks := (label, s.lexer.mark) :: s.marks })
  | .returnTo label =>
    match s.marks.lookup label with
    | some mark => (.done, { s with lexer := s.lexer.returnTo mark })
    | none => (.done, s)
  | .errors => (.errors s.lexer.report.errors.toList, s)
  | .source => (.source s.lexer.source, s)
  | .tokenize => (.output s.lexer.tokenize, s)

def runAll (s : Session) : List Command → List (Answer × Session)
  | [] => []
  | c :: cs =>
    let step := s.run c
    step :: step.2.runAll cs

end Session

end Lexis
