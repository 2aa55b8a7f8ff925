import Lexis.Lexer

/-!
The log of lexing a source to its end: an event for each error and for each kept trivia as they
are found, and a summary. Errors are logged whether or not the limit lets them be recorded.
-/

namespace Lexis
set_option autoImplicit false

inductive Event where
  | error (e : LexicalError)
  | trivia (t : Trivia)
  | summary (bytes tokens errors : Nat)
deriving DecidableEq

namespace Event

inductive Level where
  | trace
  | debug
deriving DecidableEq

def Level.name : Level → String
  | trace => "TRACE"
  | debug => "DEBUG"

def level : Event → Level
  | error _ => .trace
  | trivia _ => .trace
  | summary _ _ _ => .debug

def message : Event → String
  | error _ => "lexical error"
  | trivia _ => "trivia"
  | summary _ _ _ => "tokenized source"

end Event

def Config.event? (config : Config) : Finding → Option Event
  | .fault e => some (.error e)
  | .passed t => if config.keepTrivia then some (.trivia t) else none

namespace Lexer

/-- What `nextToken` logs, in the order of detection. -/
def nextEvents (l : Lexer) : List Event := l.cursor.next.findings.filterMap l.config.event?

def drainEvents (l : Lexer) : List Event :=
  if l.ended then [] else l.nextEvents ++ l.nextToken.2.drainEvents
termination_by l.size
decreasing_by exact size_nextToken_lt (by assumption)

/-- What `tokenize` logs. It takes the tokens that are left even after the end was handed out, and
sums up what it took. -/
def log (l : Lexer) : List Event :=
  let run := { l with ended := false }
  run.drainEvents ++ [.summary (Text.byteLength l.source) run.drain.1.length
    run.drain.2.report.errorCount]

end Lexer

def tokenizationLog (config : Config) (source : Text) : List Event :=
  (Lexer.start config source).log

end Lexis
