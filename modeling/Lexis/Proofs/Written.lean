/-! Numbers as they are written, in digits of a base up to sixteen. What follows the digits does not
matter as long as it is no letter and no digit. -/

namespace Lexis
set_option autoImplicit false

theorem span_append {p : Char → Bool} {r rest : List Char} (inside : ∀ c ∈ r, p c)
    (stop : ∀ c, rest.head? = some c → p c = false) :
    (r ++ rest).takeWhile p = r ∧ (r ++ rest).dropWhile p = rest := by
  have none : rest.takeWhile p = [] ∧ rest.dropWhile p = rest := by
    cases rest with
    | nil => exact ⟨rfl, rfl⟩
    | cons c rest => simp [stop c rfl]
  rw [List.takeWhile_append_of_pos inside, List.dropWhile_append_of_pos inside, none.1, none.2,
    List.append_nil]
  exact ⟨rfl, rfl⟩

namespace Digits

def value (d : Char) : Nat := "0123456789abcdef".toList.idxOf d

/-- The number that the digits are read as. -/
def read (b : Nat) (ds : List Char) : Nat := ds.foldl (fun n d => b * n + value d) 0

theorem value_digitChar {n : Nat} (h : n < 16) : value n.digitChar = n := by
  have table : ∀ i : Fin 16, value (i : Nat).digitChar = i := by decide
  exact table ⟨n, h⟩

theorem isAlphanum_digitChar {n : Nat} (h : n < 16) : n.digitChar.isAlphanum := by
  have table : ∀ i : Fin 16, (i : Nat).digitChar.isAlphanum := by decide
  exact table ⟨n, h⟩

variable {b : Nat} (many : 1 < b) (small : b ≤ 16)
include many small

theorem read_toDigits (n : Nat) : read b (Nat.toDigits b n) = n := by
  induction n using Nat.strongRecOn with
  | ind n ih =>
    by_cases single : n < b
    · rw [Nat.toDigits_of_lt_base single]
      simp [read, value_digitChar (Nat.lt_of_lt_of_le single small)]
    · have positive : 0 < n := by omega
      have last : n % b < 16 := Nat.lt_of_lt_of_le (Nat.mod_lt n (by omega)) small
      have front := ih (n / b) (Nat.div_lt_self positive many)
      rw [Nat.toDigits_of_base_le many (Nat.le_of_not_lt single), read, List.foldl_append, ← read,
        front]
      simp [value_digitChar last, Nat.div_add_mod]

theorem isAlphanum_of_mem {n : Nat} : ∀ d ∈ Nat.toDigits b n, d.isAlphanum := by
  induction n using Nat.strongRecOn with
  | ind n ih =>
    by_cases single : n < b
    · rw [Nat.toDigits_of_lt_base single]
      simpa using isAlphanum_digitChar (Nat.lt_of_lt_of_le single small)
    · have positive : 0 < n := by omega
      have last : n % b < 16 := Nat.lt_of_lt_of_le (Nat.mod_lt n (by omega)) small
      rw [Nat.toDigits_of_base_le many (Nat.le_of_not_lt single)]
      intro d hd
      rcases List.mem_append.mp hd with hd | hd
      · exact ih (n / b) (Nat.div_lt_self positive many) d hd
      · obtain rfl := List.mem_singleton.mp hd
        exact isAlphanum_digitChar last

/-- A number is told from its digits, whatever other character follows them. -/
theorem toDigits_append_inj {m n : Nat} {c d : Char} {s t : List Char}
    (hc : c.isAlphanum = false) (hd : d.isAlphanum = false)
    (same : Nat.toDigits b m ++ c :: s = Nat.toDigits b n ++ d :: t) : m = n ∧ c :: s = d :: t := by
  have digits (n : Nat) {c : Char} (hc : c.isAlphanum = false) (s : List Char) :
      (Nat.toDigits b n ++ c :: s).takeWhile Char.isAlphanum = Nat.toDigits b n :=
    (span_append (isAlphanum_of_mem many small) (by simp [hc])).1
  have front : Nat.toDigits b m = Nat.toDigits b n := by
    rw [← digits m hc s, ← digits n hd t, same]
  refine ⟨?_, ?_⟩
  · rw [← read_toDigits many small m, front, read_toDigits many small n]
  · rw [front] at same
    exact List.append_cancel_left same

end Digits

theorem toString_append_inj {m n : Nat} {c d : Char} {s t : List Char}
    (hc : c.isAlphanum = false) (hd : d.isAlphanum = false)
    (same : (toString m).toList ++ c :: s = (toString n).toList ++ d :: t) :
    m = n ∧ c :: s = d :: t := by
  have written (n : Nat) : (toString n).toList = Nat.toDigits 10 n := by
    rw [Nat.toString_eq_ofList_toDigits, String.toList_ofList]
  rw [written, written] at same
  exact Digits.toDigits_append_inj (by decide) (by decide) hc hd same

end Lexis
