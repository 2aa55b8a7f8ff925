/-!
The one-character escapes of quoted literals: the character written after the backslash and the
character that it stands for.
-/

namespace Lexis.Escape
set_option autoImplicit false

def table : List (Char × Char) :=
  [('n', '\n'), ('t', '\t'), ('r', '\r'), ('a', '\x07'), ('b', '\x08'), ('f', '\x0c'),
    ('v', '\x0b'), ('\\', '\\'), ('"', '"'), ('\'', '\''), ('|', '|')]

/-- What a backslash followed by the character stands for. -/
def decode? (c : Char) : Option Char := table.lookup c

end Lexis.Escape
