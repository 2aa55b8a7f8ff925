import Lexis.Report
import Lexis.Stream

/-!
The lexer: a cursor on a source with settings and a report. It gives tokens one by one or all that
are left at once, and its cursor can be put back to an earlier place. `tokenize`, `tokenizeWith`
and `cleanStream` lex a whole source.
-/

namespace Lexis
set_option autoImplicit false

structure Output where
  stream : Stream
  errors : List LexicalError
  suppressed : Nat
deriving DecidableEq

/-- Whether no error was found, recorded or not. -/
def Output.isClean (o : Output) : Bool := o.errors.isEmpty && o.suppressed == 0

structure Lexer where
  source : Text
  config : Config
  cursor : Cursor
  report : Report
  ended : Bool
deriving DecidableEq

namespace Lexer

def start (config : Config) (source : Text) : Lexer := ⟨source, config, .start source, {}, false⟩

def skip (l : Lexer) (n : Nat) : Lexer := { l with cursor := l.cursor.skip n }

def mark (l : Lexer) : Cursor := l.cursor

/-- Back to a marked place. Only the cursor moves: what was found stays found, and an ended lexer
stays ended. -/
def returnTo (l : Lexer) (mark : Cursor) : Lexer := { l with cursor := mark }

def after (l : Lexer) (step : Cursor.Step) : Lexer :=
  { l with
    cursor := step.cursor
    report := l.report.addAll l.config step.findings
    ended := l.ended || step.token.kind = .endOfInput }

/-- One token further; after the last one the end of the input again and again. -/
def nextToken (l : Lexer) : Token × Lexer :=
  let step := l.cursor.next
  (step.token, l.after step)

/-- As `nextToken`, but the end of the input comes once only. -/
def next? (l : Lexer) : Option Token × Lexer :=
  if l.ended then (none, l)
  else
    let step := l.nextToken
    (some step.1, step.2)

/-- What goes down with every step until the end of the input was handed out. -/
def size (l : Lexer) : Nat := if l.ended then 0 else l.cursor.rest.length + 1

theorem size_nextToken_lt {l : Lexer} (running : ¬ l.ended) : l.nextToken.2.size < l.size := by
  rcases l.cursor.next_progress with ⟨ending, -⟩ | ⟨more, shorter⟩
  · simp [size, nextToken, after, ending, running]
  · simpa [size, nextToken, after, more, running] using shorter

def drain (l : Lexer) : List Token × Lexer :=
  if l.ended then ([], l)
  else
    let step := l.nextToken
    let later := step.2.drain
    (step.1 :: later.1, later.2)
termination_by l.size
decreasing_by exact size_nextToken_lt (by assumption)

def remainingFindings (l : Lexer) : List Finding := l.cursor.placed.flatMap Placed.findings

def remainingTokens (l : Lexer) : List Token :=
  l.cursor.placed.filterMap Placed.token? ++ [.endOfInput l.cursor.finish.position]

def finalReport (l : Lexer) : Report := l.report.addAll l.config l.remainingFindings

/-- All that is left at once, with what was reported before. -/
def tokenize (l : Lexer) : Output :=
  let report := l.finalReport
  ⟨⟨l.source, l.remainingTokens, report.trivia.toList⟩, report.errors.toList, report.suppressed⟩

end Lexer

def tokenizeWith (config : Config) (source : Text) : Output := (Lexer.start config source).tokenize

def tokenize (source : Text) : Output := tokenizeWith {} source

/-- The stream of a source without errors, or else all its errors. -/
def cleanStream (source : Text) : Except Rejection Stream :=
  let output := tokenize source
  match Rejection.ofList? output.errors with
  | some rejection => .error rejection
  | none => .ok output.stream

end Lexis
