import Lexis.Token

/-!
Token streams: the tokens of a source in order, the end of the input last, and the trivia where
they were kept. With its trivia a stream gives the source back.
-/

namespace Lexis
set_option autoImplicit false

structure Stream where
  source : Text
  tokens : List Token
  trivia : List Trivia
deriving DecidableEq

namespace Stream

def kinds (s : Stream) : List TokenKind := s.tokens.map (·.kind)

def isEmpty (s : Stream) : Bool := s.tokens.all (·.kind = .endOfInput)

/-- The source texts of trivia, nothing for a span that cannot be cut out. -/
def triviaText (source : Text) (trivia : List Trivia) : Text :=
  trivia.flatMap fun t => (t.span.slice? source).getD []

/-- Token texts with the trivia that start before each token in front of it. -/
def weave (source : Text) : List Token → List Trivia → Text
  | [], trivia => triviaText source trivia
  | t :: tokens, trivia =>
    let early : Trivia → Bool := fun v => v.span.start.offset < t.span.start.offset
    triviaText source (trivia.takeWhile early) ++ t.text ++
      weave source tokens (trivia.dropWhile early)

def text (s : Stream) : Text := weave s.source s.tokens s.trivia

def isLossless (s : Stream) : Bool := s.text = s.source

end Stream

end Lexis
