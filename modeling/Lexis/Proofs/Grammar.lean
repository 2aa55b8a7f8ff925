import Lexis.Piece

/-! The lexical grammar: which texts are blanks and which are lexemes of a kind, said
without a reader. The first character of a text tells which language it can be in. -/

namespace Lexis
set_option autoImplicit false

namespace CharClass

theorem toNat_lt_of_isDigit {c : Char} (h : isDigit c) : c.toNat < 128 := by
  simp only [isDigit, Char.isDigit, Bool.and_eq_true, decide_eq_true_eq] at h
  exact Nat.lt_of_le_of_lt (UInt32.le_iff_toNat_le.mp h.2) (by decide)

theorem toNat_lt_of_isWordStart {c : Char} (h : isWordStart c) : c.toNat < 128 := by
  rcases Bool.or_eq_true_iff.mp h with h | h
  · rcases Bool.or_eq_true_iff.mp h with h | h
    · have upper : c.val ≤ 'Z'.val := (of_decide_eq_true h).2
      exact Nat.lt_of_le_of_lt (UInt32.le_iff_toNat_le.mp upper) (by decide)
    · have lower : c.val ≤ 'z'.val := of_decide_eq_true (Bool.and_eq_true_iff.mp h).2
      exact Nat.lt_of_le_of_lt (UInt32.le_iff_toNat_le.mp lower) (by decide)
  · obtain rfl := of_decide_eq_true h
    decide

/-- The class of a character that begins something; word parts only go on. -/
def lead? (c : Char) : Option CharClass :=
  [whitespace, wordStart, digit, quote, symbolStart].find? (·.has c)

theorem lead?_of_toNat_lt {k : CharClass} {c : Char} (h : k.has c) (small : c.toNat < 128)
    (table : ∀ n : Fin 128, k.has (Char.ofNat n) → lead? (Char.ofNat n) = some k) :
    lead? c = some k := by
  have same : Char.ofNat c.toNat = c := Char.ofNat_toNat c
  have found := table ⟨c.toNat, small⟩ (by rwa [same])
  rwa [same] at found

theorem lead?_of_has {k : CharClass} {c : Char} (h : k.has c)
    (leading : k ≠ wordPart := by decide) : lead? c = some k := by
  cases k with
  | whitespace =>
    simp only [has, isWhitespace, Bool.or_eq_true, decide_eq_true_eq] at h
    rcases h with ((((rfl | rfl) | rfl) | rfl) | rfl) | rfl <;> rfl
  | wordStart => exact lead?_of_toNat_lt h (toNat_lt_of_isWordStart h) (by decide)
  | wordPart => exact absurd rfl leading
  | digit => exact lead?_of_toNat_lt h (toNat_lt_of_isDigit h) (by decide)
  | quote =>
    simp only [has, isQuote, Bool.or_eq_true, decide_eq_true_eq] at h
    rcases h with rfl | rfl <;> rfl
  | symbolStart =>
    have table : ";=,:[]()\x7b\x7d+-*/%^#|&<>.~".toList.all (lead? · = some symbolStart) := by
      decide
    exact of_decide_eq_true (List.all_eq_true.mp table c (List.contains_iff_mem.mp h))

theorem has_of_lead? {k : CharClass} {c : Char} (h : lead? c = some k) : k.has c := by
  simpa using List.find?_some h

theorem has_unique {k l : CharClass} {c : Char} (hk : k.has c) (hl : l.has c)
    (leading : k ≠ wordPart := by decide) (leading' : l ≠ wordPart := by decide) : k = l :=
  Option.some.inj ((lead?_of_has hk leading).symm.trans (lead?_of_has hl leading'))

end CharClass

inductive IsWord : Text → Prop where
  | intro {c : Char} {s : Text} : isWordStart c → (∀ d ∈ s, isWordPart d) → IsWord (c :: s)

inductive IsInteger : Text → Prop where
  | zero : IsInteger ['0']
  | nonzero {c : Char} {s : Text} :
    isDigit c → c ≠ '0' → (∀ d ∈ s, isDigit d) → IsInteger (c :: s)

inductive IsFloat : Text → Prop where
  | afterDigits {a b : Text} :
    a ≠ [] → (∀ d ∈ a, isDigit d) → (∀ d ∈ b, isDigit d) → IsFloat (a ++ '.' :: b)
  | fraction {b : Text} : b ≠ [] → (∀ d ∈ b, isDigit d) → IsFloat ('.' :: b)

/-- What stands between the quotes of a literal: a backslash takes the next character along. -/
inductive IsBody (quote : Char) : Text → Prop where
  | nil : IsBody quote []
  | plain {c : Char} {s : Text} : c ≠ quote → c ≠ '\\' → IsBody quote s → IsBody quote (c :: s)
  | escape {c : Char} {s : Text} : IsBody quote s → IsBody quote ('\\' :: c :: s)

inductive IsLiteral : Text → Prop where
  | intro {q : Char} {b : Text} : isQuote q → IsBody q b → IsLiteral (q :: (b ++ [q]))

inductive IsLexeme : TokenKind → Text → Prop where
  | keyword {t : Text} (k : Keyword) : IsWord t → k.text = t → IsLexeme (.keyword k) t
  | identifier {t : Text} : IsWord t → (∀ k : Keyword, k.text ≠ t) → IsLexeme .identifier t
  | intLiteral {t : Text} : IsInteger t → IsLexeme .intLiteral t
  | floatLiteral {t : Text} : IsFloat t → IsLexeme .floatLiteral t
  | stringLiteral {t : Text} : IsLiteral t → IsLexeme .stringLiteral t
  | symbol (s : Symbol) : IsLexeme (.symbol s) s.text

/-- The texts that a scan takes in one go. -/
def IsMatch (t : Text) : Prop := Blank.IsBlank t ∨ ∃ k, IsLexeme k t

def Text.lead? (t : Text) : Option CharClass := t.head?.bind CharClass.lead?

theorem Text.lead?_cons {k : CharClass} {c : Char} (s : Text) (h : k.has c)
    (leading : k ≠ .wordPart := by decide) : Text.lead? (c :: s) = some k :=
  CharClass.lead?_of_has h leading

theorem Text.lead?_ne_quote {c : Char} (h : isQuote c = false) (s : Text) :
    Text.lead? (c :: s) ≠ some .quote := by
  intro lead
  have quote : isQuote c := CharClass.has_of_lead? lead
  rw [h] at quote
  cases quote

theorem Text.lead?_of_prefix {t s : Text} (h : t <+: s) (ne : t ≠ []) :
    Text.lead? t = Text.lead? s := by
  obtain ⟨r, rfl⟩ := h
  cases t with
  | nil => exact absurd rfl ne
  | cons c t => rfl

theorem Blank.IsBlank.lead? {t : Text} (h : IsBlank t) :
    Text.lead? t = some .whitespace ∨ Text.lead? t = none := by
  cases h with
  | nil => exact Or.inr rfl
  | whitespace hc => exact Or.inl (Text.lead?_cons _ hc)
  | continuation => exact Or.inr rfl
  | longContinuation => exact Or.inr rfl

theorem IsWord.lead? {t : Text} (h : IsWord t) : Text.lead? t = some .wordStart := by
  cases h with
  | intro hc _ => exact Text.lead?_cons _ hc

theorem IsInteger.lead? {t : Text} (h : IsInteger t) : Text.lead? t = some .digit := by
  cases h with
  | zero => exact Text.lead?_cons (k := .digit) [] rfl
  | nonzero hc => exact Text.lead?_cons _ hc

theorem IsFloat.lead? {t : Text} (h : IsFloat t) :
    Text.lead? t = some .digit ∨ Text.lead? t = some .symbolStart := by
  cases h with
  | @afterDigits a b ha digits _ =>
    obtain ⟨d, a, rfl⟩ := List.exists_cons_of_ne_nil ha
    exact Or.inl (Text.lead?_cons _ (k := .digit) (digits d List.mem_cons_self))
  | fraction => exact Or.inr (Text.lead?_cons _ (k := .symbolStart) rfl)

theorem IsLiteral.lead? {t : Text} (h : IsLiteral t) : Text.lead? t = some .quote := by
  cases h with
  | intro hc _ => exact Text.lead?_cons _ hc

/-- The later characters of symbols are of the same class as the first ones. -/
theorem Symbol.isSymbolStart_of_mem (s : Symbol) : ∀ d ∈ s.text, isSymbolStart d := by
  have table : all.all fun s => s.text.all isSymbolStart := by decide
  exact List.all_eq_true.mp (List.all_eq_true.mp table s s.mem_all)

/-- A character that begins a symbol is one, but for the one that needs another after it. -/
theorem Symbol.text_singleton {c : Char} (start : isSymbolStart c) (other : c ≠ '~') :
    ∃ y : Symbol, y.text = [c] := by
  have table : ";=,:[]()\x7b\x7d+-*/%^#|&<>.~".toList.all fun c =>
      c = '~' || all.any (·.text = [c]) := by decide
  have found := List.all_eq_true.mp table c (List.contains_iff_mem.mp start)
  rw [decide_eq_false other, Bool.false_or] at found
  obtain ⟨y, -, hy⟩ := List.any_eq_true.mp found
  exact ⟨y, of_decide_eq_true hy⟩

theorem Symbol.isSymbolStart_iff {c : Char} :
    isSymbolStart c ↔ ∃ y : Symbol, y.text.head? = some c := by
  constructor
  · intro start
    by_cases tilde : c = '~'
    · exact ⟨.notEq, by rw [tilde]; rfl⟩
    · obtain ⟨y, hy⟩ := text_singleton start tilde
      exact ⟨y, by rw [hy]; rfl⟩
  · rintro ⟨y, hy⟩
    exact y.isSymbolStart_of_mem c (List.mem_of_head? hy)

theorem Symbol.head?_text_of_isPrefix {y : Symbol} {c : Char} {s : Text} (h : y.text <+: c :: s) :
    y.text.head? = some c := by
  obtain ⟨d, w, hw⟩ := List.exists_cons_of_ne_nil y.text_ne_nil
  rw [hw] at h ⊢
  rw [(List.cons_prefix_cons.mp h).1]
  rfl

/-- Where a lexer does not try the symbols for want of a first character, none begins. -/
theorem Symbol.match?_of_not_isSymbolStart {c : Char} (h : ¬ isSymbolStart c) (s : Text) :
    match? (c :: s) = none := by
  apply match?_eq_none_iff.mpr
  intro y begins
  exact h (isSymbolStart_iff.mpr ⟨y, head?_text_of_isPrefix begins⟩)

theorem Symbol.lead?_text (s : Symbol) : Text.lead? s.text = some .symbolStart := by
  have class_of_mem := s.isSymbolStart_of_mem
  obtain ⟨c, t, ht⟩ := List.exists_cons_of_ne_nil s.text_ne_nil
  rw [ht] at class_of_mem ⊢
  exact Text.lead?_cons t (k := .symbolStart) (class_of_mem c List.mem_cons_self)

theorem IsInteger.all_isDigit {t : Text} (h : IsInteger t) : ∀ d ∈ t, isDigit d := by
  cases h with
  | zero =>
    intro d hd
    obtain rfl := List.mem_singleton.mp hd
    rfl
  | nonzero hc _ hs =>
    intro d hd
    rcases List.mem_cons.mp hd with rfl | hd
    · exact hc
    · exact hs d hd

/-- The digits of a float around its dot; one side may have none. -/
theorem IsFloat.exists_digits {t : Text} (h : IsFloat t) : ∃ a b : Text, t = a ++ '.' :: b ∧
    (∀ d ∈ a, isDigit d) ∧ (∀ d ∈ b, isDigit d) ∧ (a ≠ [] ∨ b ≠ []) := by
  cases h with
  | afterDigits ha digits later => exact ⟨_, _, rfl, digits, later, Or.inl ha⟩
  | fraction hb digits => exact ⟨[], _, rfl, by simp, digits, Or.inr hb⟩

theorem IsFloat.not_all_isDigit {t : Text} (h : IsFloat t) : t.all isDigit = false := by
  obtain ⟨a, b, rfl, -⟩ := h.exists_digits
  simp [isDigit]

theorem Symbol.not_isFloat (s : Symbol) : ¬ IsFloat s.text := by
  intro h
  have class_of_mem := s.isSymbolStart_of_mem
  have noDigit {d : Char} (hs : isSymbolStart d) (hd : isDigit d) : False := by
    cases CharClass.has_unique (k := .symbolStart) (l := .digit) hs hd
  obtain ⟨a, b, ht, ha, hb, ne⟩ := h.exists_digits
  rw [ht] at class_of_mem
  rcases ne with ne | ne
  · obtain ⟨d, hd⟩ := List.exists_mem_of_ne_nil _ ne
    exact noDigit (class_of_mem d (by simp [hd])) (ha d hd)
  · obtain ⟨d, hd⟩ := List.exists_mem_of_ne_nil _ ne
    exact noDigit (class_of_mem d (by simp [hd])) (hb d hd)

theorem Word.kind_text (k : Keyword) : kind k.text = .keyword k := by
  rw [kind, Keyword.ofText?_eq_some_iff.mpr rfl]
  rfl

theorem Word.kind_of_text_ne {t : Text} (h : ∀ k : Keyword, k.text ≠ t) :
    kind t = .identifier := by
  cases hk : Keyword.ofText? t with
  | none =>
    rw [kind, hk]
    rfl
  | some k => exact absurd (Keyword.ofText?_eq_some_iff.mp hk) (h k)

/-- The kind that a text has if it is a lexeme. -/
def kindOf? (t : Text) : Option TokenKind :=
  match Text.lead? t with
  | some .wordStart => some (Word.kind t)
  | some .digit => some (if t.all isDigit then .intLiteral else .floatLiteral)
  | some .quote => some .stringLiteral
  | some .symbolStart => some (((Symbol.all.find? (·.text = t)).map .symbol).getD .floatLiteral)
  | _ => none

theorem kindOf?_text (s : Symbol) : kindOf? s.text = some (.symbol s) := by
  have found : Symbol.all.find? (·.text = s.text) = some s :=
    (find?_key_eq_some_iff Symbol.mem_all fun _ _ => Symbol.text_injective).mpr rfl
  simp [kindOf?, s.lead?_text, found]

theorem IsFloat.kindOf?_eq {t : Text} (h : IsFloat t) : kindOf? t = some .floatLiteral := by
  rcases h.lead? with lead | lead
  · simp [kindOf?, lead, h.not_all_isDigit]
  · have noSymbol : Symbol.all.find? (·.text = t) = none := by
      apply List.find?_eq_none.mpr
      intro s _ hs
      exact s.not_isFloat (of_decide_eq_true hs ▸ h)
    simp [kindOf?, lead, noSymbol]

theorem IsLexeme.kindOf?_eq {k : TokenKind} {t : Text} (h : IsLexeme k t) :
    kindOf? t = some k := by
  cases h with
  | keyword k hw hk =>
    subst hk
    simp [kindOf?, hw.lead?, Word.kind_text]
  | identifier hw other => simp [kindOf?, hw.lead?, Word.kind_of_text_ne other]
  | intLiteral hi =>
    have digits : t.all isDigit := List.all_eq_true.mpr hi.all_isDigit
    simp [kindOf?, hi.lead?, digits]
  | floatLiteral hf => exact hf.kindOf?_eq
  | stringLiteral hs => simp [kindOf?, hs.lead?]
  | symbol s => exact kindOf?_text s

theorem Blank.IsBlank.kindOf?_eq {t : Text} (h : IsBlank t) : kindOf? t = none := by
  rcases h.lead? with lead | lead
  · simp [kindOf?, lead]
  · simp [kindOf?, lead]

namespace IsLexeme
variable {k l : TokenKind} {t : Text} (h : IsLexeme k t)
include h

theorem kind_unique (h' : IsLexeme l t) : k = l :=
  Option.some.inj (h.kindOf?_eq.symm.trans h'.kindOf?_eq)

theorem not_isBlank : ¬ Blank.IsBlank t := by
  intro hb
  cases h.kindOf?_eq.symm.trans hb.kindOf?_eq

theorem ne_nil : t ≠ [] := by
  rintro rfl
  exact h.not_isBlank .nil

end IsLexeme

/-- The matches that begin with a character of a class, or else of none. -/
def IsMatchOf : Option CharClass → Text → Prop
  | some .wordStart, t => IsWord t
  | some .digit, t => IsInteger t ∨ IsFloat t
  | some .quote, t => IsLiteral t
  | some .symbolStart, t => IsFloat t ∨ ∃ s : Symbol, s.text = t
  | _, t => Blank.IsBlank t

theorem IsMatch.isMatchOf {t : Text} (h : IsMatch t) : IsMatchOf (Text.lead? t) t := by
  rcases h with hb | ⟨k, hl⟩
  · rcases hb.lead? with lead | lead
    · rwa [lead]
    · rwa [lead]
  · cases hl with
    | keyword k hw => rwa [hw.lead?]
    | identifier hw => rwa [hw.lead?]
    | intLiteral hi =>
      rw [hi.lead?]
      exact Or.inl hi
    | floatLiteral hf =>
      rcases hf.lead? with lead | lead
      · rw [lead]
        exact Or.inr hf
      · rw [lead]
        exact Or.inl hf
    | stringLiteral hs => rwa [hs.lead?]
    | symbol s =>
      rw [s.lead?_text]
      exact Or.inr ⟨s, rfl⟩

end Lexis
