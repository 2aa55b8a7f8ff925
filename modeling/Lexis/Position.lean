import Lexis.Text

/-!
Places in a source text. A line ends at a line feed, or at a carriage return that no line feed
follows; columns count characters and offsets count bytes.
-/

namespace Lexis
set_option autoImplicit false

/-- Lines count from one, columns and offsets from zero. -/
structure Position where
  line : Nat
  column : Nat
  offset : Nat
deriving DecidableEq

namespace Position

def start : Position := ⟨1, 0, 0⟩

/-- Whether a line ends at `c`, given the character after it. -/
def breaksLine (c : Char) (next? : Option Char) : Bool :=
  c = '\n' || (c = '\r' && next? ≠ some '\n')

/-- The place after `c`. The carriage return of a two-character line break takes no column: the
line feed after it ends the line. -/
def past (p : Position) (c : Char) (next? : Option Char) : Position :=
  if breaksLine c next? then ⟨p.line + 1, 0, p.offset + c.utf8Size⟩
  else if c = '\r' then ⟨p.line, p.column, p.offset + c.utf8Size⟩
  else ⟨p.line, p.column + 1, p.offset + c.utf8Size⟩

def display (p : Position) : String := toString p.line ++ ":" ++ toString p.column

@[simp] theorem past_offset (p : Position) (c : Char) (next? : Option Char) :
    (p.past c next?).offset = p.offset + c.utf8Size := by
  unfold past
  split
  · rfl
  · split <;> rfl

theorem line_le_past (p : Position) (c : Char) (next? : Option Char) :
    p.line ≤ (p.past c next?).line := by
  unfold past
  split
  · exact Nat.le_succ _
  · split <;> exact Nat.le_refl _

end Position

structure Span where
  start : Position
  stop : Position
deriving DecidableEq

namespace Span

def single (p : Position) : Span := ⟨p, p⟩

/-- The number of bytes covered; a span that runs backwards covers none. -/
def byteLength (s : Span) : Nat := s.stop.offset - s.start.offset

def isEmpty (s : Span) : Bool := s.byteLength == 0

def slice? (s : Span) (source : Text) : Option Text :=
  source.slice? s.start.offset s.stop.offset

def display (s : Span) : String :=
  if s.start.line = s.stop.line then s.start.display ++ "-" ++ toString s.stop.column
  else s.start.display ++ "-" ++ s.stop.display

end Span

end Lexis
