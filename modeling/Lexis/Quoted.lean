import Lexis.CharClass
import Lexis.Escape
import Lexis.Text

/-!
Quoted literals, read in one pass into atoms: plain characters, escapes, line continuations and
gaps. The atoms hold both the text that was read and the value that it stands for.
-/

namespace Lexis
set_option autoImplicit false

/-- What a literal is made of. A gap is a backslash before `z`, and the whitespace after it is
skipped; a dangling backslash ends the source. -/
inductive Atom where
  | plain (c : Char)
  | escape (c : Char)
  | continuation
  | longContinuation
  | gap
  | skipped (c : Char)
  | dangling
deriving DecidableEq

namespace Atom

def text : Atom → Text
  | plain c => [c]
  | escape c => ['\\', c]
  | continuation => ['\\', '\n']
  | longContinuation => ['\\', '\r', '\n']
  | gap => ['\\', 'z']
  | skipped c => [c]
  | dangling => ['\\']

/-- What the atom stands for. An escape that is not in the table stands for its character. -/
def value : Atom → Text
  | plain c => [c]
  | escape c => [(Escape.decode? c).getD c]
  | _ => []

def invalid? : Atom → Option Char
  | escape c => if (Escape.decode? c).isNone then some c else none
  | _ => none

theorem text_ne_nil (a : Atom) : a.text ≠ [] := by cases a <;> simp [text]

end Atom

structure Quoted where
  quote : Char
  body : List Atom
  closed : Bool
deriving DecidableEq

namespace Quoted

def bodyText (l : Quoted) : Text := l.body.flatMap Atom.text

def ending (quote : Char) : (closed : Bool) → Text
  | true => [quote]
  | false => []

def text (l : Quoted) : Text := l.quote :: (l.bodyText ++ ending l.quote l.closed)

def value (l : Quoted) : Text := l.body.flatMap Atom.value

def consBody (a : Atom) (b : List Atom × Bool) : List Atom × Bool := (a :: b.1, b.2)

/-- The atoms up to the closing quote, and whether there is one. Whitespace is skipped while
`skipping` holds, which is in a gap. -/
def readBody (quote : Char) : (skipping : Bool) → Text → List Atom × Bool
  | _, [] => ([], false)
  | _, ['\\'] => ([.dangling], false)
  | _, '\\' :: '\n' :: s => consBody .continuation (readBody quote false s)
  | _, '\\' :: '\r' :: '\n' :: s => consBody .longContinuation (readBody quote false s)
  | _, '\\' :: 'z' :: s => consBody .gap (readBody quote true s)
  | _, '\\' :: c :: s => consBody (.escape c) (readBody quote false s)
  | skipping, c :: s =>
    if c = quote then ([], true)
    else if skipping && isWhitespace c then consBody (.skipped c) (readBody quote true s)
    else consBody (.plain c) (readBody quote false s)

def read (quote : Char) (s : Text) : Quoted :=
  ⟨quote, (readBody quote false s).1, (readBody quote false s).2⟩

@[simp] theorem consBody_fst (a : Atom) (b : List Atom × Bool) :
    (consBody a b).1 = a :: b.1 := rfl

@[simp] theorem consBody_snd (a : Atom) (b : List Atom × Bool) : (consBody a b).2 = b.2 := rfl

theorem readBody_isPrefix (quote : Char) (skipping : Bool) (s : Text) :
    (readBody quote skipping s).1.flatMap Atom.text ++
      ending quote (readBody quote skipping s).2 <+: s := by
  fun_induction readBody quote skipping s <;> simp_all [Atom.text, ending]

theorem readBody_of_not_closed (quote : Char) (skipping : Bool) (s : Text)
    (h : (readBody quote skipping s).2 = false) :
    (readBody quote skipping s).1.flatMap Atom.text = s := by
  fun_induction readBody quote skipping s <;> simp_all [Atom.text]

theorem read_text_isPrefix (quote : Char) (s : Text) : (read quote s).text <+: quote :: s := by
  simpa [text, bodyText, read] using readBody_isPrefix quote false s

end Quoted

end Lexis
