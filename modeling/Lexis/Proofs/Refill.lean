import Lexis.Position

/-! Texts with other texts in place of what some spans of them cover. -/

namespace Lexis
set_option autoImplicit false

def Span.covers (v : Span) (n : Nat) : Bool := v.start.offset ≤ n && n < v.stop.offset

theorem Span.covers_iff {v : Span} {n : Nat} :
    v.covers n ↔ v.start.offset ≤ n ∧ n < v.stop.offset := by
  simp [covers]

namespace Text

/-- The text from the offset `n` on, filled anew where the spans are. -/
def refillFrom (spans : List Span) (fill : Span → Text) : (n : Nat) → Text → Text
  | _, [] => []
  | n, c :: s =>
    (match spans.find? (·.covers n) with
      | none => [c]
      | some v => if v.start.offset = n then fill v else []) ++
      refillFrom spans fill (n + c.utf8Size) s

/-- A source with other texts in place of what the spans cover. -/
def refill (spans : List Span) (fill : Span → Text) (source : Text) : Text :=
  refillFrom spans fill 0 source

variable {spans : List Span} {fill : Span → Text} {n : Nat}

theorem refillFrom_append (a b : Text) : refillFrom spans fill n (a ++ b) =
    refillFrom spans fill n a ++ refillFrom spans fill (n + byteLength a) b := by
  induction a generalizing n with
  | nil => rfl
  | cons c a ih =>
    rw [List.cons_append, refillFrom, refillFrom, ih, byteLength_cons, Nat.add_assoc,
      List.append_assoc]

theorem refillFrom_eq_self {s : Text}
    (later : ∀ v ∈ spans, n + byteLength s ≤ v.start.offset) : refillFrom spans fill n s = s := by
  induction s generalizing n with
  | nil => rfl
  | cons c s ih =>
    have size := c.utf8Size_pos
    simp only [byteLength_cons] at later
    have uncovered : spans.find? (·.covers n) = none := by
      apply List.find?_eq_none.mpr
      intro v hv
      have := later v hv
      rw [Span.covers_iff]
      omega
    rw [refillFrom, uncovered, ih, List.singleton_append]
    intro v hv
    have := later v hv
    omega

theorem refillFrom_inside {s : Text} {v : Span} (early : v.start.offset < n)
    (late : n + byteLength s ≤ v.stop.offset) : refillFrom (v :: spans) fill n s = [] := by
  induction s generalizing n with
  | nil => rfl
  | cons c s ih =>
    have size := c.utf8Size_pos
    rw [byteLength_cons] at late
    have covered : v.covers n := Span.covers_iff.mpr (by omega)
    simp only [refillFrom, List.find?_cons, covered, if_neg (Nat.ne_of_lt early), List.nil_append]
    exact ih (by omega) (by omega)

theorem refillFrom_cons {s : Text} {v : Span} (past : v.stop.offset ≤ n) :
    refillFrom (v :: spans) fill n s = refillFrom spans fill n s := by
  induction s generalizing n with
  | nil => rfl
  | cons c s ih =>
    have beyond : v.covers n = false := by
      apply Bool.eq_false_iff.mpr
      rw [Ne, Span.covers_iff]
      omega
    rw [refillFrom, refillFrom, ih (Nat.le_add_right_of_le past)]
    simp only [List.find?_cons, beyond]

theorem refillFrom_span_append {a b : Text} {v : Span} (ne : a ≠ []) (start : v.start.offset = n)
    (stop : v.stop.offset = n + byteLength a) : refillFrom (v :: spans) fill n (a ++ b) =
      fill v ++ refillFrom spans fill (n + byteLength a) b := by
  obtain ⟨c, a, rfl⟩ := List.exists_cons_of_ne_nil ne
  have size := c.utf8Size_pos
  rw [byteLength_cons] at stop
  have covered : v.covers n := Span.covers_iff.mpr (by omega)
  have first : refillFrom (v :: spans) fill n (c :: a) = fill v := by
    simp only [refillFrom, List.find?_cons, covered, if_pos start]
    rw [refillFrom_inside (by omega) (by omega), List.append_nil]
  have past : v.stop.offset ≤ n + byteLength (c :: a) := Nat.le_of_eq stop
  rw [refillFrom_append, first, refillFrom_cons past]

end Text

end Lexis
