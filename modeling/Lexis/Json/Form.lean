import Lexis.Json
import Lexis.Report
import Lexis.Stream

/-!
The JSON forms of the lexer's values. Positions, spans, trivia, kinds and settings are read back
from their forms; tokens, streams and errors are only written.
-/

namespace Lexis
set_option autoImplicit false

namespace Position

def fieldNames : List String := ["line", "column", "offset"]

def toJson (p : Position) : Json :=
  .object [("line", .natural p.line), ("column", .natural p.column), ("offset", .natural p.offset)]

def ofJson? (j : Json) : Option Position :=
  match j.record? fieldNames with
  | some [some line, some column, some offset] =>
    return ⟨← line.word?, ← column.word?, ← offset.word?⟩
  | _ => none

end Position

namespace Span

def fieldNames : List String := ["start", "end"]

def toJson (s : Span) : Json := .object [("start", s.start.toJson), ("end", s.stop.toJson)]

def ofJson? (j : Json) : Option Span :=
  match j.record? fieldNames with
  | some [some start, some stop] => return ⟨← Position.ofJson? start, ← Position.ofJson? stop⟩
  | _ => none

end Span

namespace TokenKind

def toJson (k : TokenKind) : Json := .string k.name

def ofJson? (j : Json) : Option TokenKind := j.caseName?.bind ofName?

end TokenKind

namespace TriviaKind

def toJson (k : TriviaKind) : Json := .string k.name

def ofJson? (j : Json) : Option TriviaKind := j.caseName?.bind ofName?

end TriviaKind

namespace Trivia

def fieldNames : List String := ["kind", "span"]

def toJson (t : Trivia) : Json := .object [("kind", t.kind.toJson), ("span", t.span.toJson)]

def ofJson? (j : Json) : Option Trivia :=
  match j.record? fieldNames with
  | some [some kind, some span] => return ⟨← TriviaKind.ofJson? kind, ← Span.ofJson? span⟩
  | _ => none

end Trivia

namespace Config

def fieldNames : List String := ["keep_trivia", "max_errors"]

def toJson (config : Config) : Json :=
  .object [("keep_trivia", .bool config.keepTrivia),
    ("max_errors", .natural config.maxErrors.toNat)]

/-- A field that is left out has its default. -/
def ofJson? (j : Json) : Option Config :=
  match j.record? fieldNames with
  | some [keepTrivia, maxErrors] => do
    let keepTrivia ← keepTrivia.elim (some ({} : Config).keepTrivia) Json.bool?
    let maxErrors ← maxErrors.elim (some ({} : Config).maxErrors) fun n => n.word?.map UInt64.ofNat
    return ⟨keepTrivia, maxErrors⟩
  | _ => none

end Config

namespace Token

/-- A token without a value has no field for it. -/
def toJson (t : Token) : Json :=
  .object ([("kind", t.kind.toJson), ("text", .text t.text)] ++
    (t.value.map fun v => ("value", .text v)).toList ++ [("span", t.span.toJson)])

end Token

namespace Stream

/-- A stream without trivia has no field for them. -/
def toJson (s : Stream) : Json :=
  .object (("tokens", .array (s.tokens.map Token.toJson)) ::
    if s.trivia.isEmpty then [] else [("trivia", .array (s.trivia.map Trivia.toJson))])

end Stream

namespace LexicalError

namespace Kind

def toJson (k : Kind) : Json := .string k.name

def ofJson? (j : Json) : Option Kind := j.caseName?.bind ofName?

end Kind

/-- The fields of an error besides its kind. -/
def payload : LexicalError → List (String × Json)
  | unrecognizedCharacter c p => [("character", .character c), ("position", p.toJson)]
  | unterminatedString p => [("position", p.toJson)]
  | invalidEscapeSequence c p => [("sequence", .character c), ("position", p.toJson)]

def toJson (e : LexicalError) : Json := .object (("kind", e.kind.toJson) :: e.payload)

end LexicalError

end Lexis
