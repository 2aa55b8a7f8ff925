import Lexis.Proofs.Longest

/-! Texts that can be cut into clean units in some way, longest match or not. Characters may be
dropped from the front of such a text as long as no quote is among them. -/

namespace Lexis
set_option autoImplicit false

/-- A body whose escapes are all in the table. -/
inductive IsCleanBody (quote : Char) : Text → Prop where
  | nil : IsCleanBody quote []
  | plain {c : Char} {s : Text} : c ≠ quote → c ≠ '\\' → IsCleanBody quote s →
    IsCleanBody quote (c :: s)
  | escape {c : Char} {s : Text} : c ∈ Escape.table.map Prod.fst → IsCleanBody quote s →
    IsCleanBody quote ('\\' :: c :: s)
  | gap {s : Text} : IsCleanBody quote s → IsCleanBody quote ('\\' :: 'z' :: s)
  | continuation {s : Text} : IsCleanBody quote s → IsCleanBody quote ('\\' :: '\n' :: s)
  | longContinuation {s : Text} : IsCleanBody quote s →
    IsCleanBody quote ('\\' :: '\r' :: '\n' :: s)

/-- What a source without errors is made of. Blanks count one by one. -/
inductive IsCleanUnit : Text → Prop where
  | whitespace {c : Char} : isWhitespace c → IsCleanUnit [c]
  | continuation : IsCleanUnit ['\\', '\n']
  | longContinuation : IsCleanUnit ['\\', '\r', '\n']
  | word {t : Text} : IsWord t → IsCleanUnit t
  | integer {t : Text} : IsInteger t → IsCleanUnit t
  | float {t : Text} : IsFloat t → IsCleanUnit t
  | symbol (s : Symbol) : IsCleanUnit s.text
  | literal {q : Char} {b : Text} : isQuote q → IsCleanBody q b → IsCleanUnit (q :: (b ++ [q]))

/-- Some cut of the text leaves clean units only. -/
def Decomposes (s : Text) : Prop := ∃ units : List Text, units.flatten = s ∧
  ∀ t ∈ units, IsCleanUnit t

theorem IsCleanBody.isBody {q : Char} {b : Text} (hq : isQuote q) (h : IsCleanBody q b) :
    IsBody q b := by
  have hn := (ne_of_isQuote hq).2
  induction h with
  | nil => exact .nil
  | plain hc hb _ ih => exact .plain hc hb ih
  | escape _ _ ih => exact .escape ih
  | gap _ ih => exact .escape ih
  | continuation _ ih => exact .escape ih
  | longContinuation _ ih => exact .escape (.plain hn.symm (by decide) ih)

theorem CharClass.not_isQuote_of_has {k : CharClass} {c : Char} (h : k.has c)
    (other : k ≠ .quote := by decide) : isQuote c = false := by
  have table : ∀ k ∈ all, k ≠ .quote → k.has '"' = false ∧ k.has '\'' = false := by decide
  have lacks := table k (mem_all k) other
  apply Bool.eq_false_iff.mpr
  intro hq
  simp only [isQuote, Bool.or_eq_true, decide_eq_true_eq] at hq
  rcases hq with rfl | rfl
  · cases lacks.1.symm.trans h
  · cases lacks.2.symm.trans h

theorem IsFloat.isDigit_or_dot {t : Text} (h : IsFloat t) : ∀ d ∈ t, isDigit d ∨ d = '.' := by
  obtain ⟨a, b, rfl, ha, hb, -⟩ := h.exists_digits
  intro d hd
  rcases List.mem_append.mp hd with hd | hd
  · exact Or.inl (ha d hd)
  · rcases List.mem_cons.mp hd with rfl | hd
    · exact Or.inr rfl
    · exact Or.inl (hb d hd)

namespace IsCleanUnit

theorem isMatch {t : Text} (h : IsCleanUnit t) : IsMatch t := by
  cases h with
  | whitespace hc => exact Or.inl (.whitespace hc .nil)
  | continuation => exact Or.inl (.continuation .nil)
  | longContinuation => exact Or.inl (.longContinuation .nil)
  | word hw => exact Or.inr ⟨_, Word.isLexeme_kind hw⟩
  | integer hi => exact Or.inr ⟨_, .intLiteral hi⟩
  | float hf => exact Or.inr ⟨_, .floatLiteral hf⟩
  | symbol s => exact Or.inr ⟨_, .symbol s⟩
  | literal hq hb => exact Or.inr ⟨_, .stringLiteral (.intro hq (hb.isBody hq))⟩

theorem ne_nil {t : Text} (h : IsCleanUnit t) : t ≠ [] := by
  cases h with
  | word hw => exact (Word.isLexeme_kind hw).ne_nil
  | integer hi => exact (IsLexeme.intLiteral hi).ne_nil
  | float hf => exact (IsLexeme.floatLiteral hf).ne_nil
  | symbol s => exact s.text_ne_nil
  | _ => exact List.cons_ne_nil _ _

theorem of_isDigit {d : Char} (h : isDigit d) : IsCleanUnit [d] := by
  by_cases hz : d = '0'
  · rw [hz]
    exact .integer .zero
  · exact .integer (.nonzero h hz (by simp))

theorem of_isWordPart {d : Char} (h : isWordPart d) : IsCleanUnit [d] := by
  rcases Bool.or_eq_true_iff.mp h with h | h
  · exact .word (.intro h (by simp))
  · exact of_isDigit h

theorem dot : IsCleanUnit ['.'] := .symbol .dot

theorem of_mem_tail_symbol (s : Symbol) : ∀ d ∈ s.text.tail, IsCleanUnit [d] := by
  have table : Symbol.all.all fun s => s.text.tail.all fun d =>
      Symbol.all.any fun y => y.text = [d] := by decide
  intro d hd
  have found := List.all_eq_true.mp (List.all_eq_true.mp table s s.mem_all) d hd
  obtain ⟨y, -, hy⟩ := List.any_eq_true.mp found
  exact of_decide_eq_true hy ▸ .symbol y

/-- A unit other than a literal comes apart behind its first character. -/
theorem of_mem_tail {t : Text} (h : IsCleanUnit t) (lead : Text.lead? t ≠ some .quote) :
    ∀ d ∈ t.tail, IsCleanUnit [d] := by
  intro d hd
  have mem := List.mem_of_mem_tail hd
  cases h with
  | whitespace => simp at hd
  | continuation =>
    obtain rfl := List.mem_singleton.mp hd
    exact .whitespace (by decide)
  | longContinuation =>
    obtain rfl | rfl : d = '\r' ∨ d = '\n' := by simpa using hd
    · exact .whitespace (by decide)
    · exact .whitespace (by decide)
  | word hw => exact of_isWordPart (hw.all_isWordPart d mem)
  | integer hi => exact of_isDigit (hi.all_isDigit d mem)
  | float hf =>
    rcases hf.isDigit_or_dot d mem with hd | rfl
    · exact of_isDigit hd
    · exact dot
  | symbol s => exact of_mem_tail_symbol s d hd
  | literal hq _ => exact absurd (Text.lead?_cons _ (k := .quote) hq) lead

theorem exists_body {t : Text} (h : IsCleanUnit t) (lead : Text.lead? t = some .quote) :
    ∃ q b, IsCleanBody q b ∧ t = q :: (b ++ [q]) := by
  cases h with
  | whitespace hc =>
    cases (Text.lead?_cons [] (k := .whitespace) hc).symm.trans lead
  | continuation => cases lead
  | longContinuation => cases lead
  | word hw => cases hw.lead?.symm.trans lead
  | integer hi => cases hi.lead?.symm.trans lead
  | float hf =>
    rcases hf.lead? with h | h
    · cases h.symm.trans lead
    · cases h.symm.trans lead
  | symbol s => cases s.lead?_text.symm.trans lead
  | literal _ hb => exact ⟨_, _, hb, rfl⟩

end IsCleanUnit

namespace Decomposes

theorem nil : Decomposes [] := ⟨[], rfl, by simp⟩

theorem unit_append {t s : Text} (ht : IsCleanUnit t) (hs : Decomposes s) :
    Decomposes (t ++ s) := by
  obtain ⟨units, rfl, clean⟩ := hs
  exact ⟨t :: units, rfl, List.forall_mem_cons.mpr ⟨ht, clean⟩⟩

theorem singles_append {t s : Text} (ht : ∀ d ∈ t, IsCleanUnit [d]) (hs : Decomposes s) :
    Decomposes (t ++ s) := by
  induction t with
  | nil => exact hs
  | cons d t ih =>
    obtain ⟨hd, ht⟩ := List.forall_mem_cons.mp ht
    exact unit_append (t := [d]) hd (ih ht)

theorem blank_append {t s : Text} (ht : Blank.IsBlank t) (hs : Decomposes s) :
    Decomposes (t ++ s) := by
  induction ht with
  | nil => exact hs
  | @whitespace c _ hc _ ih => exact unit_append (t := [c]) (.whitespace hc) ih
  | continuation _ ih => exact unit_append (t := ['\\', '\n']) .continuation ih
  | longContinuation _ ih => exact unit_append (t := ['\\', '\r', '\n']) .longContinuation ih

theorem exists_unit {c : Char} {s : Text} (h : Decomposes (c :: s)) :
    ∃ t r, IsCleanUnit (c :: t) ∧ s = t ++ r ∧ Decomposes r := by
  obtain ⟨units, cut, clean⟩ := h
  cases units with
  | nil => cases cut
  | cons u units =>
    obtain ⟨hu, later⟩ := List.forall_mem_cons.mp clean
    obtain ⟨d, t, rfl⟩ := List.exists_cons_of_ne_nil hu.ne_nil
    obtain ⟨rfl, rest⟩ := List.cons.inj cut
    exact ⟨t, units.flatten, hu, rest.symm, units, rfl, later⟩

/-- Whatever unit a character other than a quote began, the cut can be mended without it. -/
theorem tail {c : Char} {s : Text} (h : Decomposes (c :: s)) (hc : isQuote c = false) :
    Decomposes s := by
  obtain ⟨t, r, unit, rfl, hr⟩ := h.exists_unit
  apply singles_append _ hr
  exact unit.of_mem_tail (Text.lead?_ne_quote hc t)

theorem of_append {t s : Text} (h : Decomposes (t ++ s)) (ht : ∀ d ∈ t, isQuote d = false) :
    Decomposes s := by
  induction t with
  | nil => exact h
  | cons d t ih =>
    obtain ⟨hd, ht⟩ := List.forall_mem_cons.mp ht
    exact ih (h.tail hd) ht

theorem not_unmatched {c : Char} {s : Text} (h : Decomposes (c :: s)) : ¬ Unmatched (c :: s) := by
  obtain ⟨t, r, unit, rfl, -⟩ := h.exists_unit
  intro none
  exact unit.ne_nil (none _ unit.isMatch (List.prefix_append (c :: t) r))

end Decomposes

theorem Blank.IsBlank.not_isQuote {t : Text} (h : IsBlank t) : ∀ d ∈ t, isQuote d = false := by
  induction h with
  | nil => simp
  | whitespace hc _ ih =>
    have plain := CharClass.not_isQuote_of_has (k := .whitespace) hc
    exact List.forall_mem_cons.mpr ⟨plain, ih⟩
  | continuation _ ih => simpa [isQuote] using ih
  | longContinuation _ ih => simpa [isQuote] using ih

/-- The characters that lexemes other than literals are made of. -/
def isLexemePart (c : Char) : Bool := isWordPart c || isSymbolStart c

theorem CharClass.has_of_isLexemePart {c : Char} (h : isLexemePart c) :
    wordStart.has c ∨ digit.has c ∨ symbolStart.has c := by
  rcases Bool.or_eq_true_iff.mp h with h | h
  · exact (Bool.or_eq_true_iff.mp h).imp id Or.inl
  · exact Or.inr (Or.inr h)

theorem not_isLexemePart_of_isWhitespace {c : Char} (h : isWhitespace c) :
    isLexemePart c = false := by
  apply Bool.eq_false_iff.mpr
  intro part
  rcases CharClass.has_of_isLexemePart part with has | has | has
  · cases CharClass.has_unique (k := .whitespace) h has
  · cases CharClass.has_unique (k := .whitespace) h has
  · cases CharClass.has_unique (k := .whitespace) h has

theorem Blank.IsBlank.not_isLexemePart {t : Text} (h : IsBlank t) {c : Char}
    (hc : t.head? = some c) : isLexemePart c = false := by
  cases h with
  | nil => cases hc
  | whitespace hw =>
    obtain rfl := Option.some.inj hc
    exact not_isLexemePart_of_isWhitespace hw
  | continuation =>
    obtain rfl := Option.some.inj hc
    decide
  | longContinuation =>
    obtain rfl := Option.some.inj hc
    decide

theorem not_isQuote_of_isLexemePart {c : Char} (h : isLexemePart c) : isQuote c = false := by
  rcases CharClass.has_of_isLexemePart h with h | h | h
  · exact CharClass.not_isQuote_of_has h
  · exact CharClass.not_isQuote_of_has h
  · exact CharClass.not_isQuote_of_has h

theorem IsLexeme.isLexemePart_of_mem {k : TokenKind} {t : Text} (h : IsLexeme k t)
    (other : k ≠ .stringLiteral) : ∀ d ∈ t, isLexemePart d := by
  intro d hd
  have wordPart (hp : isWordPart d) : isLexemePart d := Bool.or_eq_true_iff.mpr (Or.inl hp)
  have digit (hp : isDigit d) : isLexemePart d := wordPart (Bool.or_eq_true_iff.mpr (Or.inr hp))
  cases h with
  | keyword k hw => exact wordPart (hw.all_isWordPart d hd)
  | identifier hw => exact wordPart (hw.all_isWordPart d hd)
  | intLiteral hi => exact digit (hi.all_isDigit d hd)
  | floatLiteral hf =>
    rcases hf.isDigit_or_dot d hd with hd | rfl
    · exact digit hd
    · rfl
  | stringLiteral => exact absurd rfl other
  | symbol s => exact Bool.or_eq_true_iff.mpr (Or.inr (s.isSymbolStart_of_mem d hd))

namespace IsMatch
variable {t : Text} (h : IsMatch t) (lead : Text.lead? t ≠ some .quote)
include h lead

theorem not_isQuote : ∀ d ∈ t, isQuote d = false := by
  rcases h with hb | ⟨k, hl⟩
  · exact hb.not_isQuote
  · have other : k ≠ .stringLiteral := by
      rintro rfl
      cases hl with
      | stringLiteral hs => exact lead hs.lead?
    exact fun d hd => not_isQuote_of_isLexemePart (hl.isLexemePart_of_mem other d hd)

theorem decomposes_append {s : Text} (hs : Decomposes s) : Decomposes (t ++ s) := by
  rcases h with hb | ⟨k, hl⟩
  · exact hs.blank_append hb
  · cases hl with
    | keyword k hw => exact hs.unit_append (.word hw)
    | identifier hw => exact hs.unit_append (.word hw)
    | intLiteral hi => exact hs.unit_append (.integer hi)
    | floatLiteral hf => exact hs.unit_append (.float hf)
    | stringLiteral hq => exact absurd hq.lead? lead
    | symbol s => exact hs.unit_append (.symbol s)

/-- The longest match may be taken off the front although other cuts take less. -/
theorem decomposes_append_iff {s : Text} : Decomposes (t ++ s) ↔ Decomposes s := by
  constructor
  · intro hs
    exact hs.of_append (h.not_isQuote lead)
  · intro hs
    exact h.decomposes_append lead hs

end IsMatch

end Lexis
