/-!
Finding a member of a finite type by a key that tells its members apart.
-/

namespace Lexis
set_option autoImplicit false

/-- In a complete list, the entry found under a key is the one that has the key. -/
theorem find?_key_eq_some_iff {α β : Type} [DecidableEq β] {entries : List α} {key : α → β}
    (complete : ∀ a, a ∈ entries) (injective : ∀ a b, key a = key b → a = b) {k : β} {a : α} :
    entries.find? (fun e => key e = k) = some a ↔ key a = k := by
  constructor
  · intro h
    simpa using List.find?_some h
  · rintro rfl
    cases h : entries.find? (fun e => key e = key a) with
    | none => simpa using List.find?_eq_none.mp h a (complete a)
    | some b =>
      have same : key b = key a := by simpa using List.find?_some h
      rw [injective b a same]

end Lexis
