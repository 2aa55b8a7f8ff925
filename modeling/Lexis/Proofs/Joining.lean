import Lexis.Proofs.Decomposition

/-! Lexemes side by side. What comes directly after a lexeme can make a longer match of it only
when the lexeme joins with the first character of it. -/

namespace Lexis
set_option autoImplicit false

/-- Whether a lexeme of the kind may run on into the character. -/
def TokenKind.joins : TokenKind → Char → Bool
  | keyword _, c | identifier, c => isWordPart c
  | intLiteral, c | floatLiteral, c | symbol .dot, c => isDigit c || c = '.'
  | symbol .minus, c => c = '>'
  | symbol .assign, c | symbol .lt, c | symbol .gt, c => c = '='
  | _, _ => false

theorem TokenKind.isLexemePart_of_joins {k : TokenKind} {c : Char} (h : k.joins c) :
    isLexemePart c := by
  have wordPart (hp : isWordPart c) : isLexemePart c := Bool.or_eq_true_iff.mpr (Or.inl hp)
  have numeral (hp : isDigit c || c = '.') : isLexemePart c := by
    rcases Bool.or_eq_true_iff.mp hp with hp | hp
    · exact wordPart (Bool.or_eq_true_iff.mpr (Or.inr hp))
    · exact of_decide_eq_true hp ▸ rfl
  unfold joins at h
  split at h
  · exact wordPart h
  · exact wordPart h
  · exact numeral h
  · exact numeral h
  · exact numeral h
  · exact of_decide_eq_true h ▸ rfl
  · exact of_decide_eq_true h ▸ rfl
  · exact of_decide_eq_true h ▸ rfl
  · exact of_decide_eq_true h ▸ rfl
  · cases h

section
variable {t v : Text} {d : Char}

theorem IsWord.isWordPart_of_append (h : IsWord (t ++ d :: v)) : isWordPart d := by
  apply h.all_isWordPart
  simp

theorem isDigit_or_dot_of_append (h : IsInteger (t ++ d :: v) ∨ IsFloat (t ++ d :: v)) :
    isDigit d ∨ d = '.' := by
  have mem : d ∈ t ++ d :: v := by simp
  rcases h with hi | hf
  · exact Or.inl (hi.all_isDigit d mem)
  · exact hf.isDigit_or_dot d mem

theorem Symbol.joins_of_isFloat {s : Symbol} (h : IsFloat (s.text ++ d :: v)) :
    (TokenKind.symbol s).joins d := by
  have class_of_mem := s.isSymbolStart_of_mem
  have noDigit {x : Char} (hs : isSymbolStart x) (hd : isDigit x) : False := by
    cases CharClass.has_unique (k := .symbolStart) (l := .digit) hs hd
  obtain ⟨x, t, ht⟩ := List.exists_cons_of_ne_nil s.text_ne_nil
  rw [ht] at h class_of_mem
  obtain ⟨a, b, whole, ha, hb, -⟩ := h.exists_digits
  cases a with
  | cons y a =>
    obtain ⟨rfl, -⟩ := List.cons.inj whole
    exact (noDigit (class_of_mem x List.mem_cons_self) (ha x List.mem_cons_self)).elim
  | nil =>
    obtain ⟨rfl, rfl⟩ := List.cons.inj whole
    cases t with
    | cons y t => exact (noDigit (class_of_mem y (by simp)) (hb y (by simp))).elim
    | nil =>
      obtain rfl : s = .dot := text_injective ht
      simp [TokenKind.joins, hb d (by simp)]

theorem Symbol.joins_of_text_eq {s y : Symbol} (h : y.text = s.text ++ d :: v) :
    (TokenKind.symbol s).joins d := by
  have table : all.all fun s => all.all fun y => s.text.isPrefixOf y.text →
      (y.text.drop s.text.length).head?.all (TokenKind.symbol s).joins := by decide
  have entry := List.all_eq_true.mp (List.all_eq_true.mp table s s.mem_all) y y.mem_all
  have longer : s.text.isPrefixOf y.text := by
    rw [h]
    exact List.isPrefixOf_iff_prefix.mpr (List.prefix_append _ _)
  have found := of_decide_eq_true entry longer
  rw [h, List.drop_left] at found
  exact found

theorem IsFloat.two_le_length (h : IsFloat t) : 2 ≤ t.length := by
  obtain ⟨a, b, rfl, -, -, ne⟩ := h.exists_digits
  have : 0 < a.length ∨ 0 < b.length := by
    rcases ne with ne | ne
    · exact Or.inl (List.length_pos_iff.mpr ne)
    · exact Or.inr (List.length_pos_iff.mpr ne)
  simp only [List.length_append, List.length_cons]
  omega

theorem IsLiteral.not_append (h : IsLiteral t) : ¬ IsLiteral (t ++ d :: v) := by
  intro longer
  cases h with
  | @intro q b hq hb =>
    have short := Quoted.read_of_isLiteral (.intro hq hb) (List.prefix_append _ (d :: v))
    have long := Quoted.read_of_isLiteral longer (List.prefix_refl _)
    have same := congrArg List.length (short.2.symm.trans long.2)
    simp at same

theorem IsLexeme.joins_of_isMatch {k : TokenKind} (h : IsLexeme k t)
    (longer : IsMatch (t ++ d :: v)) : k.joins d := by
  have family := longer.isMatchOf
  have lead := Text.lead?_of_prefix (List.prefix_append t (d :: v)) h.ne_nil
  rw [← lead] at family
  cases h with
  | keyword k hw =>
    rw [hw.lead?] at family
    exact IsWord.isWordPart_of_append family
  | identifier hw =>
    rw [hw.lead?] at family
    exact IsWord.isWordPart_of_append family
  | intLiteral hi =>
    rw [hi.lead?] at family
    simpa [TokenKind.joins] using isDigit_or_dot_of_append family
  | floatLiteral hf =>
    have numeral (hn : IsInteger (t ++ d :: v) ∨ IsFloat (t ++ d :: v)) :
        TokenKind.floatLiteral.joins d := by
      simpa [TokenKind.joins] using isDigit_or_dot_of_append hn
    rcases hf.lead? with lead | lead
    · rw [lead] at family
      exact numeral family
    · rw [lead] at family
      rcases family with hf' | ⟨y, hy⟩
      · exact numeral (Or.inr hf')
      · -- The float alone is as long as a symbol can be.
        have long := hf.two_le_length
        have short := y.length_text_le
        rw [hy, List.length_append, List.length_cons] at short
        omega
  | stringLiteral hs =>
    rw [hs.lead?] at family
    exact absurd family hs.not_append
  | symbol s =>
    rw [s.lead?_text] at family
    rcases family with hf | ⟨y, hy⟩
    · exact Symbol.joins_of_isFloat hf
    · exact Symbol.joins_of_text_eq hy

end

/-- A lexeme is the longest match of a text unless it joins with what comes after it. -/
theorem IsLexeme.longest_append {k : TokenKind} {t rest : Text} (h : IsLexeme k t)
    (apart : ∀ d, rest.head? = some d → k.joins d = false) : Longest (t ++ rest) t := by
  refine ⟨Or.inr ⟨k, h⟩, h.ne_nil, List.prefix_append t rest, ?_⟩
  intro u hu hp
  by_cases short : u.length ≤ t.length
  · exact short
  · obtain ⟨w, rfl⟩ := List.prefix_of_prefix_length_le (List.prefix_append t rest) hp (by omega)
    have further : w <+: rest := (List.prefix_append_right_inj t).mp hp
    cases w with
    | nil => simp at short
    | cons d w =>
      obtain ⟨r, rfl⟩ := further
      have joined := h.joins_of_isMatch hu
      rw [apart d rfl] at joined
      cases joined

end Lexis
