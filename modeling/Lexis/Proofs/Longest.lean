import Lexis.Proofs.Grammar
import Mathlib.Data.List.TakeWhile

/-! Longest matches. The reader compares no lengths: it goes by the first characters, and
still each piece that it takes is the longest match, or there is none. -/

namespace Lexis
set_option autoImplicit false

/-- `t` is the longest match that begins `s`. -/
structure Longest (s t : Text) : Prop where
  isMatch : IsMatch t
  ne_nil : t ≠ []
  isPrefix : t <+: s
  maximal : ∀ u, IsMatch u → u <+: s → u.length ≤ t.length

/-- No match but the empty one begins `s`. -/
def Unmatched (s : Text) : Prop := ∀ u, IsMatch u → u <+: s → u = []

theorem Longest.unique {s t u : Text} (ht : Longest s t) (hu : Longest s u) : t = u := by
  have h := ht.maximal u hu.isMatch hu.isPrefix
  have h' := hu.maximal t ht.isMatch ht.isPrefix
  exact List.IsPrefix.eq_of_length (List.prefix_of_prefix_length_le ht.isPrefix hu.isPrefix h')
    (Nat.le_antisymm h' h)

theorem Longest.not_unmatched {s t : Text} (h : Longest s t) : ¬ Unmatched s :=
  fun hu => h.ne_nil (hu t h.isMatch h.isPrefix)

theorem IsMatch.isMatchOf_prefix {s u : Text} (h : IsMatch u) (hp : u <+: s) (ne : u ≠ []) :
    IsMatchOf (Text.lead? s) u := by
  rw [← Text.lead?_of_prefix hp ne]
  exact h.isMatchOf

/-- Only matches with the first character of the text compete for the longest one. -/
theorem Longest.of_lead {s t : Text} (isMatch : IsMatch t) (ne : t ≠ []) (isPrefix : t <+: s)
    (maximal : ∀ u, IsMatchOf (Text.lead? s) u → u <+: s → u.length ≤ t.length) :
    Longest s t := by
  refine ⟨isMatch, ne, isPrefix, ?_⟩
  intro u hu hp
  by_cases he : u = []
  · simp [he]
  · exact maximal u (hu.isMatchOf_prefix hp he) hp

theorem Unmatched.of_lead {s : Text}
    (none : ∀ u, IsMatchOf (Text.lead? s) u → u <+: s → u = []) : Unmatched s := by
  intro u hu hp
  by_cases he : u = []
  · exact he
  · exact none u (hu.isMatchOf_prefix hp he) hp

theorem prefix_takeWhile {p : Char → Bool} {t s : Text} (h : t <+: s) (all : ∀ c ∈ t, p c) :
    t <+: s.takeWhile p := by
  obtain ⟨r, rfl⟩ := h
  rw [List.takeWhile_append_of_pos all]
  exact List.prefix_append _ _

theorem Blank.read_whitespace {c : Char} (h : isWhitespace c) (s : Text) :
    read (c :: s) = c :: read s := by
  have : c ≠ '\\' := by rintro rfl; exact absurd h (by decide)
  rw [read]
  · simp [h]
  · simp_all
  · simp_all

theorem Blank.read_append {t : Text} (h : IsBlank t) (s : Text) : read (t ++ s) = t ++ read s := by
  induction h with
  | nil => rfl
  | whitespace hc _ ih => rw [List.cons_append, read_whitespace hc, ih, List.cons_append]
  | continuation _ ih => simpa [read] using ih
  | longContinuation _ ih => simpa [read] using ih

theorem Blank.length_le_read {t s : Text} (h : IsBlank t) (hp : t <+: s) :
    t.length ≤ (read s).length := by
  obtain ⟨r, rfl⟩ := hp
  rw [read_append h, List.length_append]
  exact Nat.le_add_right _ _

theorem Blank.longest_read {s : Text} (ne : read s ≠ []) : Longest s (read s) := by
  have hp := read_isPrefix s
  apply Longest.of_lead (Or.inl (isBlank_read s)) ne hp
  intro u hu hpu
  rw [← Text.lead?_of_prefix hp ne] at hu
  rcases (isBlank_read s).lead? with lead | lead
  · rw [lead] at hu
    exact length_le_read hu hpu
  · rw [lead] at hu
    exact length_le_read hu hpu

theorem Word.isWord_read {c : Char} (h : isWordStart c) (s : Text) : IsWord (read (c :: s)) := by
  rw [read, List.takeWhile_cons_of_pos (isWordPart_of_isWordStart h)]
  exact .intro h fun d hd => List.mem_takeWhile_imp hd

theorem IsWord.all_isWordPart {t : Text} (h : IsWord t) : ∀ d ∈ t, isWordPart d := by
  cases h with
  | intro hc hs =>
    intro d hd
    rcases List.mem_cons.mp hd with rfl | hd
    · exact isWordPart_of_isWordStart hc
    · exact hs d hd

theorem Word.isLexeme_kind {t : Text} (h : IsWord t) : IsLexeme (kind t) t := by
  unfold kind
  cases hk : Keyword.ofText? t with
  | some k => exact .keyword k h (Keyword.ofText?_eq_some_iff.mp hk)
  | none =>
    apply IsLexeme.identifier h
    intro k hkt
    rw [Keyword.ofText?_eq_some_iff.mpr hkt] at hk
    cases hk

theorem Word.longest_read {c : Char} (h : isWordStart c) (s : Text) :
    Longest (c :: s) (read (c :: s)) := by
  have hw := isWord_read h s
  apply Longest.of_lead (Or.inr ⟨_, isLexeme_kind hw⟩) (read_ne_nil h s) (read_isPrefix _)
  intro u hu hp
  rw [Text.lead?_cons (k := .wordStart) s h] at hu
  exact (prefix_takeWhile hp (IsWord.all_isWordPart hu)).length_le

theorem Numeral.dropWhile_of_float {a b s : Text} (ha : ∀ d ∈ a, isDigit d)
    (hp : a ++ '.' :: b <+: s) :
    ∃ r, s.takeWhile isDigit = a ∧ s.dropWhile isDigit = '.' :: r ∧ b <+: r := by
  obtain ⟨r, rfl⟩ := hp
  refine ⟨b ++ r, ?_, ?_, List.prefix_append b r⟩
  · rw [List.append_assoc, List.takeWhile_append_of_pos ha]
    simp [isDigit]
  · rw [List.append_assoc, List.dropWhile_append_of_pos ha]
    simp [isDigit]

theorem Numeral.startsAt_cons_iff {c : Char} {s : Text} : startsAt (c :: s) ↔
    isDigit c ∨ c = '.' ∧ ∃ d r, s = d :: r ∧ isDigit d := by
  cases s <;> simp [startsAt]

theorem Numeral.startsAt_of_isNumeral {t s : Text} (h : IsInteger t ∨ IsFloat t) (hp : t <+: s) :
    startsAt s := by
  obtain ⟨r, rfl⟩ := hp
  rcases h with hi | hf
  · obtain ⟨c, t, rfl⟩ := List.exists_cons_of_ne_nil (IsLexeme.intLiteral hi).ne_nil
    exact startsAt_cons_iff.mpr (Or.inl (hi.all_isDigit c List.mem_cons_self))
  · cases hf with
    | @afterDigits a b ha digits _ =>
      obtain ⟨c, a, rfl⟩ := List.exists_cons_of_ne_nil ha
      exact startsAt_cons_iff.mpr (Or.inl (digits c List.mem_cons_self))
    | @fraction b hb digits =>
      obtain ⟨d, b, rfl⟩ := List.exists_cons_of_ne_nil hb
      exact startsAt_cons_iff.mpr (Or.inr ⟨rfl, d, _, rfl, digits d List.mem_cons_self⟩)

/-- What a dot follows the digits of is a float, with the digits after the dot. -/
theorem Numeral.read_of_dot {s r : Text} (h : s.dropWhile isDigit = '.' :: r) :
    read s = (.floatLiteral, s.takeWhile isDigit ++ '.' :: r.takeWhile isDigit) := by
  simp [read, h]

theorem Numeral.read_of_no_dot {s : Text} (h : ∀ r, s.dropWhile isDigit ≠ '.' :: r) :
    read s = (.intLiteral, if s.head? = some '0' then ['0'] else s.takeWhile isDigit) := by
  unfold read
  split
  · rename_i r hr
    exact absurd hr (h r)
  · rfl

theorem Numeral.isLexeme_read {s : Text} (h : startsAt s) :
    IsLexeme (read s).1 (read s).2 := by
  by_cases dot : ∃ r, s.dropWhile isDigit = '.' :: r
  · obtain ⟨r, hr⟩ := dot
    rw [read_of_dot hr]
    have digits {t : Text} : ∀ d ∈ t.takeWhile isDigit, isDigit d := by
      intro d hd
      exact List.mem_takeWhile_imp hd
    by_cases he : s.takeWhile isDigit = []
    · -- The text begins with the dot, so a digit comes after it.
      have hs : s = '.' :: r := by
        rw [← List.takeWhile_append_dropWhile (p := isDigit) (l := s), he, hr, List.nil_append]
      subst hs
      apply IsLexeme.floatLiteral
      refine he ▸ .fraction ?_ digits
      rcases startsAt_cons_iff.mp h with hc | ⟨-, d, r, rfl, hd⟩
      · exact absurd hc (by decide)
      · simp [hd]
    · exact .floatLiteral (.afterDigits he digits digits)
  · rw [read_of_no_dot (not_exists.mp dot)]
    apply IsLexeme.intLiteral
    cases s with
    | nil => exact absurd h (by decide)
    | cons c s =>
      have hc : isDigit c := by
        rcases startsAt_cons_iff.mp h with hc | ⟨rfl, -⟩
        · exact hc
        · exact absurd ⟨s, by simp [isDigit]⟩ dot
      by_cases hz : c = '0'
      · simpa [hz] using IsInteger.zero
      · simpa [hz, hc] using IsInteger.nonzero hc hz fun d hd => List.mem_takeWhile_imp hd

theorem Numeral.length_float_le_read {t s : Text} (h : IsFloat t) (hp : t <+: s) :
    t.length ≤ (read s).2.length := by
  obtain ⟨a, b, rfl, ha, hb, -⟩ := h.exists_digits
  obtain ⟨r, rfl, hr, hbr⟩ := dropWhile_of_float ha hp
  rw [read_of_dot hr]
  have := (prefix_takeWhile hbr hb).length_le
  simp only [List.length_append, List.length_cons]
  omega

theorem Numeral.length_integer_le_read {t s : Text} (h : IsInteger t) (hp : t <+: s) :
    t.length ≤ (read s).2.length := by
  have run := (prefix_takeWhile hp h.all_isDigit).length_le
  by_cases dot : ∃ r, s.dropWhile isDigit = '.' :: r
  · obtain ⟨r, hr⟩ := dot
    rw [read_of_dot hr]
    simp only [List.length_append]
    omega
  · rw [read_of_no_dot (not_exists.mp dot)]
    obtain ⟨r, rfl⟩ := hp
    cases h with
    | zero => simp
    | nonzero hc hz => simpa [hz] using run

theorem Symbol.length_text_le (y : Symbol) : y.text.length ≤ 2 := by
  have table : ∀ y ∈ all, y.text.length ≤ 2 := by decide
  exact table y (mem_all y)

theorem Numeral.longest_read {s : Text} (h : startsAt s) : Longest s (read s).2 := by
  have hl := isLexeme_read h
  apply Longest.of_lead (Or.inr ⟨_, hl⟩) hl.ne_nil (read_isPrefix s)
  intro u hu hp
  cases s with
  | nil => exact absurd h (by decide)
  | cons c s =>
    rcases startsAt_cons_iff.mp h with hc | ⟨rfl, d, r, rfl, hd⟩
    · rw [Text.lead?_cons (k := .digit) s hc] at hu
      rcases hu with hi | hf
      · exact length_integer_le_read hi hp
      · exact length_float_le_read hf hp
    · rw [Text.lead?_cons (k := .symbolStart) _ rfl] at hu
      rcases hu with hf | ⟨y, rfl⟩
      · exact length_float_le_read hf hp
      · -- A symbol has no more than two characters, and the float has no fewer.
        have short := y.length_text_le
        have dot : ('.' :: d :: r).dropWhile isDigit = '.' :: d :: r := by simp [isDigit]
        rw [read_of_dot dot, List.takeWhile_cons_of_pos hd]
        simp only [List.length_append, List.length_cons]
        omega

namespace IsBody
variable {q : Char} {b s : Text}

theorem eq_nil_of_quote (hq : q ≠ '\\') (h : IsBody q b) (hp : b ++ [q] <+: q :: s) : b = [] := by
  cases h with
  | nil => rfl
  | plain hc => exact absurd (List.cons_prefix_cons.mp hp).1 hc
  | escape => exact absurd (List.cons_prefix_cons.mp hp).1.symm hq

theorem tail_of_escape {c : Char} (hq : q ≠ '\\') (h : IsBody q b)
    (hp : b ++ [q] <+: '\\' :: c :: s) :
    ∃ b', b = '\\' :: c :: b' ∧ IsBody q b' ∧ b' ++ [q] <+: s := by
  cases h with
  | nil => exact absurd (List.cons_prefix_cons.mp hp).1 hq
  | plain _ hc => exact absurd (List.cons_prefix_cons.mp hp).1 hc
  | escape hb =>
    obtain ⟨rfl, later⟩ := List.cons_prefix_cons.mp (List.cons_prefix_cons.mp hp).2
    exact ⟨_, rfl, hb, later⟩

theorem tail_of_plain {c : Char} (hcq : c ≠ q) (hc : c ≠ '\\') (h : IsBody q b)
    (hp : b ++ [q] <+: c :: s) : ∃ b', b = c :: b' ∧ IsBody q b' ∧ b' ++ [q] <+: s := by
  cases h with
  | nil => exact absurd (List.cons_prefix_cons.mp hp).1.symm hcq
  | plain _ _ hb =>
    obtain ⟨rfl, later⟩ := List.cons_prefix_cons.mp hp
    exact ⟨_, rfl, hb, later⟩
  | escape => exact absurd (List.cons_prefix_cons.mp hp).1.symm hc

theorem not_prefix_backslash (hq : q ≠ '\\') (h : IsBody q b) : ¬ b ++ [q] <+: ['\\'] := by
  intro hp
  cases h with
  | nil => exact hq (List.cons_prefix_cons.mp hp).1
  | plain _ hc => exact hc (List.cons_prefix_cons.mp hp).1
  | escape => simp at hp

end IsBody

theorem ne_of_isQuote {q : Char} (h : isQuote q) : q ≠ '\\' ∧ q ≠ '\n' := by
  constructor <;> rintro rfl <;> exact absurd h (by decide)

namespace Quoted

theorem ne_backslash {c : Char} {s : Text} (lone : c = '\\' → s = [] → False)
    (pair : ∀ d r, c = '\\' → s = d :: r → False) : c ≠ '\\' := by
  intro hc
  cases s with
  | nil => exact lone hc rfl
  | cons d r => exact pair d r hc rfl

/-- A body that the text closes is the body that is read. -/
theorem readBody_of_isBody {q : Char} (hq : isQuote q) (skipping : Bool) {b s : Text}
    (h : IsBody q b) (hp : b ++ [q] <+: s) :
    (readBody q skipping s).2 = true ∧ (readBody q skipping s).1.flatMap Atom.text = b := by
  obtain ⟨hb, hn⟩ := ne_of_isQuote hq
  fun_induction readBody q skipping s generalizing b with
  | case1 => simp at hp
  | case2 => exact absurd hp (h.not_prefix_backslash hb)
  | case3 _ s ih =>
    obtain ⟨b, rfl, h, hp⟩ := h.tail_of_escape hb hp
    simpa [Atom.text] using ih h hp
  | case4 _ s ih =>
    obtain ⟨b, rfl, h, hp⟩ := h.tail_of_escape hb hp
    obtain ⟨b, rfl, h, hp⟩ := h.tail_of_plain hn.symm (by decide) hp
    simpa [Atom.text] using ih h hp
  | case5 _ s ih =>
    obtain ⟨b, rfl, h, hp⟩ := h.tail_of_escape hb hp
    simpa [Atom.text] using ih h hp
  | case6 _ c s _ _ _ ih =>
    obtain ⟨b, rfl, h, hp⟩ := h.tail_of_escape hb hp
    simpa [Atom.text] using ih h hp
  | case7 => simp [h.eq_nil_of_quote hb hp]
  | case8 skipping c s lone _ _ _ pair hc _ ih =>
    obtain ⟨b, rfl, h, hp⟩ := h.tail_of_plain hc (ne_backslash lone pair) hp
    simpa [Atom.text] using ih h hp
  | case9 skipping c s lone _ _ _ pair hc _ ih =>
    obtain ⟨b, rfl, h, hp⟩ := h.tail_of_plain hc (ne_backslash lone pair) hp
    simpa [Atom.text] using ih h hp

theorem isBody_readBody {q : Char} (hq : isQuote q) (skipping : Bool) {s : Text}
    (closed : (readBody q skipping s).2 = true) :
    IsBody q ((readBody q skipping s).1.flatMap Atom.text) := by
  obtain ⟨-, hn⟩ := ne_of_isQuote hq
  fun_induction readBody q skipping s with
  | case1 => cases closed
  | case2 => cases closed
  | case3 _ s ih => exact .escape (ih closed)
  | case4 _ s ih => exact .escape (.plain hn.symm (by decide) (ih closed))
  | case5 _ s ih => exact .escape (ih closed)
  | case6 _ c s _ _ _ ih => exact .escape (ih closed)
  | case7 => exact .nil
  | case8 _ c s lone _ _ _ pair hc _ ih => exact .plain hc (ne_backslash lone pair) (ih closed)
  | case9 _ c s lone _ _ _ pair hc _ ih => exact .plain hc (ne_backslash lone pair) (ih closed)

theorem text_read_of_closed {q : Char} {s : Text} (closed : (read q s).closed) :
    (read q s).text = q :: ((readBody q false s).1.flatMap Atom.text ++ [q]) := by
  rw [text, closed]
  rfl

theorem isLiteral_read {q : Char} (hq : isQuote q) {s : Text} (closed : (read q s).closed) :
    IsLiteral (read q s).text := by
  rw [text_read_of_closed closed]
  exact .intro hq (isBody_readBody hq false closed)

/-- A literal that begins the text is the one that is read. -/
theorem read_of_isLiteral {q : Char} {s t : Text} (h : IsLiteral t) (hp : t <+: q :: s) :
    (read q s).closed ∧ (read q s).text = t := by
  cases h with
  | @intro q' b hq hb =>
    obtain ⟨rfl, inside⟩ := List.cons_prefix_cons.mp hp
    obtain ⟨closed, same⟩ := readBody_of_isBody hq false hb inside
    refine ⟨closed, ?_⟩
    rw [text_read_of_closed closed, same]

theorem longest_read {q : Char} (hq : isQuote q) {s : Text} (closed : (read q s).closed) :
    Longest (q :: s) (read q s).text := by
  have hl := isLiteral_read hq closed
  apply Longest.of_lead (Or.inr ⟨_, .stringLiteral hl⟩) (IsLexeme.stringLiteral hl).ne_nil
    (read_text_isPrefix q s)
  intro u hu hp
  rw [Text.lead?_cons (k := .quote) s hq] at hu
  rw [(read_of_isLiteral hu hp).2]

theorem unmatched_of_not_closed {q : Char} (hq : isQuote q) {s : Text}
    (unclosed : (read q s).closed = false) : Unmatched (q :: s) := by
  apply Unmatched.of_lead
  intro u hu hp
  rw [Text.lead?_cons (k := .quote) s hq] at hu
  have closed := (read_of_isLiteral hu hp).1
  rw [unclosed] at closed
  cases closed

theorem read_text_of_not_closed {q : Char} {s : Text} (unclosed : (read q s).closed = false) :
    (read q s).text = q :: s := by
  have body := readBody_of_not_closed q false s unclosed
  have ending : Quoted.ending q (read q s).closed = [] := by rw [unclosed]; rfl
  rw [text]
  simpa [read, bodyText, ending, body] using ending

end Quoted

/-- Longer symbols come first in the table. -/
theorem Symbol.length_le_of_match? {s : Text} {y z : Symbol} (h : match? s = some y)
    (hz : z.text <+: s) : z.text.length ≤ y.text.length := by
  obtain ⟨-, before, after, hall, earlier⟩ := List.find?_eq_some_iff_append.mp h
  have sorted : all.Pairwise fun a b => b.text.length ≤ a.text.length := by decide
  have mem := mem_all z
  rw [hall] at sorted mem
  rcases List.mem_append.mp mem with hm | hm
  · have miss : z.text.isPrefixOf s = false := by simpa using earlier z hm
    exact absurd (List.isPrefixOf_iff_prefix.mpr hz) (by simp [miss])
  · rcases List.mem_cons.mp hm with rfl | hm
    · exact Nat.le_refl _
    · exact List.rel_of_pairwise_cons (List.pairwise_append.mp sorted).2.1 hm

theorem Symbol.longest_match {s : Text} {y : Symbol} (h : match? s = some y)
    (noNumeral : Numeral.startsAt s = false) : Longest s y.text := by
  have hp := match?_isPrefix h
  apply Longest.of_lead (Or.inr ⟨_, .symbol y⟩) y.text_ne_nil hp
  intro u hu hpu
  rw [← Text.lead?_of_prefix hp y.text_ne_nil, y.lead?_text] at hu
  rcases hu with hf | ⟨z, rfl⟩
  · have := Numeral.startsAt_of_isNumeral (Or.inr hf) hpu
    exact absurd this (by simp [noNumeral])
  · exact length_le_of_match? h hpu

theorem unmatched_of_nothing_reads {c : Char} {s : Text} (noBlank : Blank.read (c :: s) = [])
    (noWord : isWordStart c = false) (noNumeral : Numeral.startsAt (c :: s) = false)
    (noQuote : isQuote c = false) (noSymbol : Symbol.match? (c :: s) = none) :
    Unmatched (c :: s) := by
  apply Unmatched.of_lead
  intro u hu hp
  have blank (hb : Blank.IsBlank u) : u = [] := by
    have short := Blank.length_le_read hb hp
    rw [noBlank] at short
    exact List.length_eq_zero_iff.mp (Nat.le_zero.mp short)
  have numeral (hn : IsInteger u ∨ IsFloat u) : u = [] := by
    have starts := Numeral.startsAt_of_isNumeral hn hp
    rw [noNumeral] at starts
    cases starts
  cases lead : Text.lead? (c :: s) with
  | none =>
    rw [lead] at hu
    exact blank hu
  | some k =>
    rw [lead] at hu
    have has : k.has c := CharClass.has_of_lead? lead
    cases k with
    | whitespace => exact blank hu
    | wordPart => exact blank hu
    | wordStart => exact absurd has (by simp [CharClass.has, noWord])
    | digit => exact numeral hu
    | quote => exact absurd has (by simp [CharClass.has, noQuote])
    | symbolStart =>
      rcases hu with hf | ⟨y, rfl⟩
      · exact numeral (Or.inr hf)
      · exact absurd hp (Symbol.match?_eq_none_iff.mp noSymbol y)

/-- How a piece relates to the text that it begins. -/
inductive Piece.Fits : Text → Piece → Prop where
  | blank {s t : Text} : Longest s t → Blank.IsBlank t → Fits s (.blank t)
  | lexeme {s t : Text} {k : TokenKind} : Longest s t → IsLexeme k t → Fits s (.lexeme k t)
  | closed {s : Text} {l : Quoted} : l.closed → Longest s l.text →
    IsLexeme .stringLiteral l.text → Fits s (.quoted l)
  | unclosed {q : Char} {s : Text} {l : Quoted} : l.closed = false → Unmatched (q :: s) →
    isQuote q → l.text = q :: s → Fits (q :: s) (.quoted l)
  | stray {c : Char} {s : Text} : Unmatched (c :: s) → isQuote c = false →
    Fits (c :: s) (.stray c)

/-- The dispatch on first characters finds the longest match wherever there is one. -/
theorem Piece.fits_read (c : Char) (s : Text) : Fits (c :: s) (read c s) := by
  have stray (blank : ¬ Blank.startsAt (c :: s)) (word : ¬ isWordStart c)
      (numeral : ¬ Numeral.startsAt (c :: s)) (quote : ¬ isQuote c)
      (none : Symbol.match? (c :: s) = none) : Fits (c :: s) (.stray c) := by
    rw [Blank.startsAt_iff, Decidable.not_not] at blank
    simp only [Bool.not_eq_true] at word numeral quote
    exact .stray (unmatched_of_nothing_reads blank word numeral quote none) quote
  fun_cases read c s with
  | case1 blank =>
    exact .blank (Blank.longest_read (Blank.startsAt_iff.mp blank)) (Blank.isBlank_read _)
  | case2 blank word =>
    exact .lexeme (Word.longest_read word s) (Word.isLexeme_kind (Word.isWord_read word s))
  | case3 blank word numeral =>
    exact .lexeme (Numeral.longest_read numeral) (Numeral.isLexeme_read numeral)
  | case4 blank word numeral quote =>
    cases closed : (Quoted.read c s).closed with
    | true =>
      have literal := Quoted.isLiteral_read quote closed
      exact .closed closed (Quoted.longest_read quote closed) (.stringLiteral literal)
    | false =>
      have whole := Quoted.read_text_of_not_closed closed
      exact .unclosed closed (Quoted.unmatched_of_not_closed quote closed) quote whole
  | case5 blank word numeral quote start y found =>
    exact .lexeme (Symbol.longest_match found (Bool.eq_false_iff.mpr numeral)) (.symbol y)
  | case6 blank word numeral quote start none => exact stray blank word numeral quote none
  | case7 blank word numeral quote start =>
    exact stray blank word numeral quote (Symbol.match?_of_not_isSymbolStart start s)

end Lexis
