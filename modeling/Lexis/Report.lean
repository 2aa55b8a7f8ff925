import Lexis.Placed

/-!
Settings, and what is kept of the findings under them. Errors beyond the limit are only counted;
trivia are kept only where they are asked for.
-/

namespace Lexis
set_option autoImplicit false

structure Config where
  keepTrivia : Bool := false
  /-- How many errors are recorded; the greatest value sets no limit. -/
  maxErrors : UInt64 := 18446744073709551615
deriving DecidableEq

namespace Config

def noLimit : UInt64 := 18446744073709551615

/-- Whether one more error is recorded after `n` of them. -/
def admits (config : Config) (n : Nat) : Bool :=
  config.maxErrors = noLimit || n < config.maxErrors.toNat

end Config

structure Report where
  errors : Array LexicalError := #[]
  suppressed : Nat := 0
  trivia : Array Trivia := #[]
deriving DecidableEq

namespace Report

def add (config : Config) (r : Report) : Finding → Report
  | .fault e =>
    if config.admits r.errors.size then { r with errors := r.errors.push e }
    else { r with suppressed := r.suppressed + 1 }
  | .passed t => if config.keepTrivia then { r with trivia := r.trivia.push t } else r

def addAll (config : Config) (r : Report) (fs : List Finding) : Report := fs.foldl (add config) r

def errorCount (r : Report) : Nat := r.errors.size + r.suppressed

@[simp] theorem addAll_nil (config : Config) (r : Report) : r.addAll config [] = r := rfl

@[simp] theorem addAll_cons (config : Config) (r : Report) (f : Finding) (fs : List Finding) :
    r.addAll config (f :: fs) = (r.add config f).addAll config fs := rfl

theorem addAll_append (config : Config) (r : Report) (fs gs : List Finding) :
    r.addAll config (fs ++ gs) = (r.addAll config fs).addAll config gs := by
  simp [addAll]

end Report

end Lexis
