import Lexis.Proofs.CleanStream
import Lexis.Proofs.Joining

/-! Characters that keep texts apart. No match but a blank or a literal goes on over a separator,
so that a piece before one is read the same whatever comes after. -/

namespace Lexis
set_option autoImplicit false

/-- Whitespace within a line, and what begins nothing and is no backslash. -/
def IsSeparator (u : Char) : Prop :=
  u ∈ [' ', '\t', '\x0b', '\x0c'] ∨ (ClassSet.ofChar u).isEmpty ∧ u ≠ '\\'

instance (u : Char) : Decidable (IsSeparator u) :=
  inferInstanceAs (Decidable (u ∈ [' ', '\t', '\x0b', '\x0c'] ∨ _))

namespace IsSeparator
variable {u : Char} (h : IsSeparator u)
include h

theorem isWhitespace_or_none : isWhitespace u ∨ ∀ k : CharClass, k.has u = false := by
  rcases h with h | ⟨h, -⟩
  · left
    simp only [List.mem_cons, List.not_mem_nil, or_false] at h
    rcases h with rfl | rfl | rfl | rfl <;> rfl
  · exact Or.inr ((ClassSet.isEmpty_iff _).mp h)

theorem not_isLexemePart : isLexemePart u = false := by
  rcases h.isWhitespace_or_none with h | none
  · exact not_isLexemePart_of_isWhitespace h
  · have wordPart : isWordPart u = false := none .wordPart
    have symbolStart : isSymbolStart u = false := none .symbolStart
    simp [isLexemePart, wordPart, symbolStart]

theorem ne : u ≠ '\\' ∧ u ≠ '\n' ∧ u ≠ '\r' := by
  rcases h with h | ⟨h, hb⟩
  · simp only [List.mem_cons, List.not_mem_nil, or_false] at h
    rcases h with rfl | rfl | rfl | rfl <;> decide
  · have blank : isWhitespace u = false := (ClassSet.isEmpty_iff _).mp h .whitespace
    refine ⟨hb, ?_, ?_⟩
    · rintro rfl
      cases blank
    · rintro rfl
      cases blank

end IsSeparator

theorem prefix_append_cons {s r v : Text} {u : Char} (h : v <+: s ++ u :: r) :
    v <+: s ∨ ∃ r', v = s ++ u :: r' := by
  rcases List.prefix_or_prefix_of_prefix h (List.prefix_append s (u :: r)) with h' | ⟨w, rfl⟩
  · exact Or.inl h'
  · cases w with
    | nil => exact Or.inl (by simp)
    | cons d w =>
      have further := (List.prefix_append_right_inj s).mp h
      obtain ⟨rfl, -⟩ := List.cons_prefix_cons.mp further
      exact Or.inr ⟨w, rfl⟩

section
variable {u : Char} (hu : IsSeparator u) {r : Text}
include hu

theorem Blank.IsBlank.of_append_separator {w : Text} (h : IsBlank (w ++ u :: r)) : IsBlank w := by
  obtain ⟨-, hn, hr⟩ := hu.ne
  generalize whole : w ++ u :: r = t at h
  induction h generalizing w with
  | nil => simp at whole
  | whitespace hc _ ih =>
    cases w with
    | nil => exact .nil
    | cons d w =>
      obtain ⟨rfl, later⟩ := List.cons.inj whole
      exact .whitespace hc (ih later)
  | continuation _ ih =>
    match w with
    | [] => exact .nil
    | [d] => simp_all
    | d :: e :: w =>
      obtain ⟨rfl, rfl, later⟩ : d = '\\' ∧ e = '\n' ∧ _ := by simpa using whole
      exact .continuation (ih later)
  | longContinuation _ ih =>
    match w with
    | [] => exact .nil
    | [d] => simp_all
    | [d, e] => simp_all
    | d :: e :: f :: w =>
      obtain ⟨rfl, rfl, rfl, later⟩ : d = '\\' ∧ e = '\r' ∧ f = '\n' ∧ _ := by simpa using whole
      exact .longContinuation (ih later)

/-- What a match has before a separator is blank, or the match is a literal. -/
theorem IsMatch.isBlank_of_separator {w : Text} (h : IsMatch (w ++ u :: r))
    (lead : Text.lead? (w ++ u :: r) ≠ some .quote) : Blank.IsBlank w := by
  rcases h with hb | ⟨k, hl⟩
  · exact hb.of_append_separator hu
  · have other : k ≠ .stringLiteral := by
      rintro rfl
      cases hl with
      | stringLiteral hs => exact lead hs.lead?
    have part := hl.isLexemePart_of_mem other u (by simp)
    rw [hu.not_isLexemePart] at part
    cases part

theorem Longest.append_separator {s t : Text} {k : TokenKind} (h : Longest s t)
    (hk : IsLexeme k t) (lead : Text.lead? t ≠ some .quote) : Longest (s ++ u :: r) t := by
  refine ⟨h.isMatch, h.ne_nil, h.isPrefix.trans (List.prefix_append _ _), ?_⟩
  intro v hv hp
  rcases prefix_append_cons hp with within | ⟨r', rfl⟩
  · exact h.maximal v hv within
  · have front : t <+: s ++ u :: r' := h.isPrefix.trans (List.prefix_append _ _)
    rw [Text.lead?_of_prefix front h.ne_nil] at lead
    have blank := hv.isBlank_of_separator hu lead
    -- All of the text would be a blank, and so the longest match of it.
    have short := h.maximal s (Or.inl blank) (List.prefix_refl s)
    obtain rfl := List.IsPrefix.eq_of_length_le h.isPrefix short
    exact absurd blank hk.not_isBlank

theorem Unmatched.append_separator {s : Text} (h : Unmatched s) (ne : s ≠ [])
    (lead : Text.lead? s ≠ some .quote) : Unmatched (s ++ u :: r) := by
  intro v hv hp
  rcases prefix_append_cons hp with within | ⟨r', rfl⟩
  · exact h v hv within
  · rw [Text.lead?_of_prefix (List.prefix_append s (u :: r')) ne] at lead
    have blank := hv.isBlank_of_separator hu lead
    exact absurd (h s (Or.inl blank) (List.prefix_refl s)) ne

end

namespace Piece.Fits
variable {c : Char} {s t : Text} {p : Piece} (h : Fits (c :: s) p)
include h

theorem eq_lexeme {k : TokenKind} (longest : Longest (c :: s) t) (hk : IsLexeme k t)
    (lead : Text.lead? t ≠ some .quote) : p = .lexeme k t := by
  cases h with
  | blank hl hb => exact absurd (hl.unique longest ▸ hb) hk.not_isBlank
  | lexeme hl hk' =>
    obtain rfl := longest.unique hl
    rw [hk.kind_unique hk']
  | closed _ hl literal =>
    obtain rfl := longest.unique hl
    cases literal with
    | stringLiteral hs => exact absurd hs.lead? lead
  | unclosed _ none => exact absurd none longest.not_unmatched
  | stray none => exact absurd none longest.not_unmatched

theorem eq_stray (none : Unmatched (c :: s)) (hc : isQuote c = false) : p = .stray c := by
  cases h with
  | blank hl => exact absurd none hl.not_unmatched
  | lexeme hl => exact absurd none hl.not_unmatched
  | closed _ hl => exact absurd none hl.not_unmatched
  | unclosed _ _ hq =>
    rw [hc] at hq
    cases hq
  | stray => rfl

end Piece.Fits

theorem Quoted.readBody_append {q : Char} {skipping : Bool} {s : Text}
    (closed : (readBody q skipping s).2 = true) (r : Text) :
    readBody q skipping (s ++ r) = readBody q skipping s := by
  fun_induction readBody q skipping s with
  | case1 => cases closed
  | case2 => cases closed
  | case3 _ s ih => simpa [readBody] using congrArg (consBody .continuation) (ih closed)
  | case4 _ s ih => simpa [readBody] using congrArg (consBody .longContinuation) (ih closed)
  | case5 _ s ih => simpa [readBody] using congrArg (consBody .gap) (ih closed)
  | case6 _ c s noFeed noReturn noGap ih =>
    -- A closed body has a character after the escape, so that no line feed can be appended there.
    obtain ⟨d, s, rfl⟩ : ∃ d s', s = d :: s' := by
      cases s with
      | nil => cases closed
      | cons d s => exact ⟨d, s, rfl⟩
    rw [← ih closed, List.cons_append, List.cons_append, readBody]
    · exact noFeed
    · intro s' hc hs
      obtain ⟨rfl, -⟩ := List.cons.inj hs
      exact noReturn s hc rfl
    · exact noGap
  | case7 _ s lone _ _ _ pair =>
    rw [List.cons_append, readBody_plain (ne_backslash lone pair), if_pos rfl]
  | case8 _ c s lone _ _ _ pair hc blank ih =>
    rw [List.cons_append, readBody_plain (ne_backslash lone pair), if_neg hc, if_pos blank,
      ih closed]
  | case9 _ c s lone _ _ _ pair hc blank ih =>
    rw [List.cons_append, readBody_plain (ne_backslash lone pair), if_neg hc, if_neg blank,
      ih closed]

namespace Piece
variable {c u : Char} {s : Text} (hu : IsSeparator u) (r : Text)
include hu

/-- A piece other than a blank or an open literal is read the same before a separator. -/
theorem read_append_separator (noBlank : ∀ t, read c s ≠ .blank t)
    (closed : ∀ l, read c s = .quoted l → l.closed) :
    read c (s ++ u :: r) = read c s := by
  have fits := fits_read c (s ++ u :: r)
  by_cases hc : isQuote c
  · have piece := read_of_isQuote hc (s := s)
    rw [piece, read_of_isQuote hc, Quoted.read, Quoted.read,
      Quoted.readBody_append (closed _ piece)]
  · have lead := Text.lead?_ne_quote (Bool.eq_false_iff.mpr hc) s
    have alone := fits_read c s
    generalize read c s = p at alone noBlank ⊢
    cases alone with
    | blank => exact absurd rfl (noBlank _)
    | lexeme longest hk =>
      rw [← Text.lead?_of_prefix longest.isPrefix longest.ne_nil] at lead
      exact fits.eq_lexeme (longest.append_separator hu hk lead) hk lead
    | closed _ longest literal =>
      rw [← Text.lead?_of_prefix longest.isPrefix longest.ne_nil] at lead
      cases literal with
      | stringLiteral hs => exact absurd hs.lead? lead
    | unclosed _ _ hq => exact absurd hq hc
    | stray none hc =>
      exact fits.eq_stray (none.append_separator hu (List.cons_ne_nil c s) lead) hc

theorem read_separator (h : isWhitespace u = false) : read u r = .stray u := by
  have none : ∀ k : CharClass, k.has u = false := by
    rcases hu.isWhitespace_or_none with blank | none
    · rw [h] at blank
      cases blank
    · exact none
  have lead : Text.lead? (u :: r) = Option.none := by
    cases found : Text.lead? (u :: r) with
    | none => rfl
    | some k =>
      have has := CharClass.has_of_lead? found
      rw [none k] at has
      cases has
  apply (fits_read u r).eq_stray _ (none .quote)
  apply Unmatched.of_lead
  intro v hv hp
  rw [lead] at hv
  cases hv with
  | nil => rfl
  | whitespace hc =>
    obtain ⟨rfl, -⟩ := List.cons_prefix_cons.mp hp
    rw [h] at hc
    cases hc
  | continuation => exact absurd (List.cons_prefix_cons.mp hp).1.symm hu.ne.1
  | longContinuation => exact absurd (List.cons_prefix_cons.mp hp).1.symm hu.ne.1

end Piece

end Lexis
