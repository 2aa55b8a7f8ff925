import Lexis.Lookup
import Lexis.Text

/-!
The reserved words. A word is reserved when it is spelled exactly as one of them, letter case
included; the three aggregate types are reserved too.
-/

namespace Lexis
set_option autoImplicit false

inductive Keyword where
  | kwDo
  | kwEnd
  | kwWhile
  | kwIf
  | kwThen
  | kwElseIf
  | kwElse
  | kwFor
  | kwIn
  | kwFunction
  | typeTable
  | typeUnion
  | typeList
  | kwNil
  | kwReturn
  | kwBreak
  | kwContinue
  | kwOr
  | kwAnd
  | kwNot
  | kwFalse
  | kwTrue
deriving DecidableEq

namespace Keyword

/-- Every keyword, in the order of the grammar. -/
def all : List Keyword :=
  [kwDo, kwEnd, kwWhile, kwIf, kwThen, kwElseIf, kwElse, kwFor, kwIn, kwFunction, typeTable,
    typeUnion, typeList, kwNil, kwReturn, kwBreak, kwContinue, kwOr, kwAnd, kwNot, kwFalse, kwTrue]

theorem mem_all (k : Keyword) : k ∈ all := by cases k <;> simp [all]

def spelling : Keyword → String
  | kwDo => "do"
  | kwEnd => "end"
  | kwWhile => "while"
  | kwIf => "if"
  | kwThen => "then"
  | kwElseIf => "elseif"
  | kwElse => "else"
  | kwFor => "for"
  | kwIn => "in"
  | kwFunction => "function"
  | typeTable => "Table"
  | typeUnion => "Union"
  | typeList => "List"
  | kwNil => "nil"
  | kwReturn => "return"
  | kwBreak => "break"
  | kwContinue => "continue"
  | kwOr => "or"
  | kwAnd => "and"
  | kwNot => "not"
  | kwFalse => "false"
  | kwTrue => "true"

def name : Keyword → String
  | kwDo => "Do"
  | kwEnd => "End"
  | kwWhile => "While"
  | kwIf => "If"
  | kwThen => "Then"
  | kwElseIf => "ElseIf"
  | kwElse => "Else"
  | kwFor => "For"
  | kwIn => "In"
  | kwFunction => "Function"
  | typeTable => "TypeTable"
  | typeUnion => "TypeUnion"
  | typeList => "TypeList"
  | kwNil => "Nil"
  | kwReturn => "Return"
  | kwBreak => "Break"
  | kwContinue => "Continue"
  | kwOr => "Or"
  | kwAnd => "And"
  | kwNot => "Not"
  | kwFalse => "False"
  | kwTrue => "True"

def text (k : Keyword) : Text := k.spelling.toList

/-- The keyword that a whole word spells. -/
def ofText? (word : Text) : Option Keyword := all.find? (·.text = word)

theorem text_injective {a b : Keyword} (h : a.text = b.text) : a = b := by
  have key : ∀ x ∈ all, ∀ y ∈ all, x.text = y.text → x = y := by decide +kernel
  exact key a (mem_all a) b (mem_all b) h

theorem ofText?_eq_some_iff {word : Text} {k : Keyword} :
    ofText? word = some k ↔ k.text = word :=
  find?_key_eq_some_iff mem_all fun _ _ => text_injective

end Keyword

end Lexis
