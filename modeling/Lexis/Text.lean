/-!
Source text as a list of characters, measured and cut in UTF-8 bytes. A cut that falls inside a
character or beyond the end gives nothing.
-/

namespace Lexis
set_option autoImplicit false

abbrev Text := List Char

namespace Text

/-- The number of bytes of the UTF-8 form. -/
def byteLength : Text → Nat
  | [] => 0
  | c :: s => c.utf8Size + byteLength s

def dropBytes? : Nat → Text → Option Text
  | 0, s => some s
  | _ + 1, [] => none
  | n + 1, c :: s => if c.utf8Size ≤ n + 1 then dropBytes? (n + 1 - c.utf8Size) s else none

def takeBytes? : Nat → Text → Option Text
  | 0, _ => some []
  | _ + 1, [] => none
  | n + 1, c :: s =>
    if c.utf8Size ≤ n + 1 then (takeBytes? (n + 1 - c.utf8Size) s).map (c :: ·) else none

/-- The text between two byte offsets. -/
def slice? (s : Text) (start stop : Nat) : Option Text :=
  if start ≤ stop then (dropBytes? start s).bind (takeBytes? (stop - start)) else none

@[simp] theorem byteLength_nil : byteLength [] = 0 := rfl

@[simp] theorem byteLength_cons (c : Char) (s : Text) :
    byteLength (c :: s) = c.utf8Size + byteLength s := rfl

@[simp] theorem byteLength_append (a b : Text) :
    byteLength (a ++ b) = byteLength a + byteLength b := by
  induction a with
  | nil => simp
  | cons c a ih => simp [ih, Nat.add_assoc]

theorem length_le_byteLength (s : Text) : s.length ≤ byteLength s := by
  induction s with
  | nil => simp
  | cons c s ih =>
    have := c.utf8Size_pos
    simp only [List.length_cons, byteLength_cons]
    omega

@[simp] theorem dropBytes?_zero (s : Text) : dropBytes? 0 s = some s := by
  cases s <;> rfl

@[simp] theorem takeBytes?_zero (s : Text) : takeBytes? 0 s = some [] := by
  cases s <;> rfl

theorem dropBytes?_cons (c : Char) (s : Text) (n : Nat) :
    dropBytes? (c.utf8Size + n) (c :: s) = dropBytes? n s := by
  have h := c.utf8Size_pos
  obtain ⟨m, hm⟩ : ∃ m, c.utf8Size + n = m + 1 := ⟨c.utf8Size + n - 1, by omega⟩
  rw [hm, dropBytes?, if_pos (by omega), ← hm, Nat.add_sub_cancel_left]

theorem takeBytes?_cons (c : Char) (s : Text) (n : Nat) :
    takeBytes? (c.utf8Size + n) (c :: s) = (takeBytes? n s).map (c :: ·) := by
  have h := c.utf8Size_pos
  obtain ⟨m, hm⟩ : ∃ m, c.utf8Size + n = m + 1 := ⟨c.utf8Size + n - 1, by omega⟩
  rw [hm, takeBytes?, if_pos (by omega), ← hm, Nat.add_sub_cancel_left]

@[simp] theorem dropBytes?_append (a b : Text) : dropBytes? (byteLength a) (a ++ b) = some b := by
  induction a with
  | nil => simp
  | cons c a ih => simpa [dropBytes?_cons] using ih

@[simp] theorem takeBytes?_append (a b : Text) : takeBytes? (byteLength a) (a ++ b) = some a := by
  induction a with
  | nil => simp
  | cons c a ih => simp [takeBytes?_cons, ih]

/-- The part in the middle is cut out by the offsets of its ends. -/
theorem slice?_append (a b r : Text) :
    slice? (a ++ b ++ r) (byteLength a) (byteLength a + byteLength b) = some b := by
  simp [slice?, List.append_assoc]

end Text

end Lexis
