import Lexis.Proofs.CleanStream
import Lexis.Proofs.Joining
import Lexis.Proofs.Scan
import Mathlib.Data.List.Chain

/-! Lexemes that are written down are read back. Blanks may stand anywhere between them, and one
is needed only where a lexeme joins with the first character of the next. -/

namespace Lexis
set_option autoImplicit false

/-- Lexemes that no error is found in. -/
inductive IsCleanLexeme : TokenKind → Text → Prop where
  | keyword (k : Keyword) : IsCleanLexeme (.keyword k) k.text
  | symbol (s : Symbol) : IsCleanLexeme (.symbol s) s.text
  | identifier {t : Text} : IsWord t → (∀ k : Keyword, k.text ≠ t) → IsCleanLexeme .identifier t
  | intLiteral {t : Text} : IsInteger t → IsCleanLexeme .intLiteral t
  | floatLiteral {t : Text} : IsFloat t → IsCleanLexeme .floatLiteral t
  | stringLiteral {q : Char} {b : Text} : isQuote q → IsCleanBody q b →
    IsCleanLexeme .stringLiteral (q :: (b ++ [q]))

theorem Keyword.isWord_text (k : Keyword) : IsWord k.text := by
  have table : all.all fun k => k.text.head?.any isWordStart && k.text.all isWordPart := by
    decide
  have entry := List.all_eq_true.mp table k k.mem_all
  cases ht : k.text with
  | nil => simp [ht] at entry
  | cons c s =>
    obtain ⟨hc, -, hs⟩ : isWordStart c ∧ isWordPart c ∧ ∀ d ∈ s, isWordPart d := by
      simpa [ht] using entry
    exact .intro hc hs

namespace IsCleanLexeme
variable {k : TokenKind} {t : Text} (h : IsCleanLexeme k t)
include h

theorem isLexeme : IsLexeme k t := by
  cases h with
  | keyword k => exact .keyword k k.isWord_text rfl
  | symbol s => exact .symbol s
  | identifier hw other => exact .identifier hw other
  | intLiteral hi => exact .intLiteral hi
  | floatLiteral hf => exact .floatLiteral hf
  | stringLiteral hq hb => exact .stringLiteral (.intro hq (hb.isBody hq))

theorem isCleanUnit : IsCleanUnit t := by
  cases h with
  | keyword k => exact .word k.isWord_text
  | symbol s => exact .symbol s
  | identifier hw => exact .word hw
  | intLiteral hi => exact .integer hi
  | floatLiteral hf => exact .float hf
  | stringLiteral hq hb => exact .literal hq hb

end IsCleanLexeme

theorem IsLexeme.read_eq_nil {k : TokenKind} {t : Text} (h : IsLexeme k t) (s : Text) :
    Blank.read (t ++ s) = [] := by
  by_contra ne
  have lead := Text.lead?_of_prefix (Blank.read_isPrefix (t ++ s)) ne
  rw [← Text.lead?_of_prefix (List.prefix_append t s) h.ne_nil] at lead
  have kind := h.kindOf?_eq
  rcases (Blank.isBlank_read (t ++ s)).lead? with blank | blank
  · simp [kindOf?, ← lead, blank] at kind
  · simp [kindOf?, ← lead, blank] at kind

theorem Blank.longest_append {t s : Text} (h : IsBlank t) (ne : t ≠ []) (last : read s = []) :
    Longest (t ++ s) t := by
  have whole : read (t ++ s) = t := by rw [read_append h, last, List.append_nil]
  have longest := longest_read (s := t ++ s) (by rwa [whole])
  rwa [whole] at longest

theorem Blank.IsBlank.not_joins {t : Text} (h : IsBlank t) {c : Char} (hc : t.head? = some c)
    (k : TokenKind) : k.joins c = false := by
  apply Bool.eq_false_iff.mpr
  intro joined
  cases (h.not_isLexemePart hc).symm.trans (TokenKind.isLexemePart_of_joins joined)

theorem Scan.blank_append {before t s : Text} {out : List (TokenKind × Text)}
    {errors : List LexicalError} (h : Blank.IsBlank t) (last : Blank.read s = [])
    (scan : ∀ b, Scan b s out errors) : Scan before (t ++ s) out errors := by
  cases t with
  | nil => exact scan before
  | cons x t => exact .blank rfl (Blank.longest_append h (List.cons_ne_nil x t) last) h (scan _)

/-- A lexeme to be written, and the blank before it. -/
structure Spaced where
  gap : Text
  kind : TokenKind
  text : Text
  isBlank : Blank.IsBlank gap
  isClean : IsCleanLexeme kind text

namespace Spaced

/-- The lexemes one after another, each behind its gap, and a blank at the end. -/
def print (last : Text) : List Spaced → Text
  | [] => last
  | l :: ls => l.gap ++ (l.text ++ print last ls)

/-- There is a gap before the second lexeme, or it needs none. -/
def Apart (l m : Spaced) : Prop := m.gap = [] → ¬ m.text.head?.any l.kind.joins

instance (l m : Spaced) : Decidable (Apart l m) :=
  inferInstanceAs (Decidable (m.gap = [] → ¬ m.text.head?.any l.kind.joins))

def emitted (ls : List Spaced) : List (TokenKind × Text) :=
  ls.map (fun l => (l.kind, l.text)) ++ [(.endOfInput, [])]

section
variable {last : Text} (blank : Blank.IsBlank last)
include blank

theorem not_joins_print {l : Spaced} {ls : List Spaced} (apart : (l :: ls).IsChain Apart) :
    ∀ c, (print last ls).head? = some c → l.kind.joins c = false := by
  intro c hc
  cases ls with
  | nil => exact blank.not_joins hc l.kind
  | cons m ls =>
    rw [print] at hc
    cases hg : m.gap with
    | nil =>
      have head : m.text.head? = some c := by
        rw [hg, List.nil_append, List.head?_append_of_ne_nil _ m.isClean.isLexeme.ne_nil] at hc
        exact hc
      simpa [head] using (List.isChain_cons_cons.mp apart).1 hg
    | cons x g =>
      have head : m.gap.head? = some c := by
        rw [hg] at hc ⊢
        exact hc
      exact m.isBlank.not_joins head l.kind

theorem decomposes_print (ls : List Spaced) : Decomposes (print last ls) := by
  induction ls with
  | nil => simpa [print] using Decomposes.nil.blank_append blank
  | cons l ls ih => exact (ih.unit_append l.isClean.isCleanUnit).blank_append l.isBlank

/-- The longest matches of the printed text are the gaps and the lexemes. -/
theorem scan_print {ls : List Spaced} (apart : ls.IsChain Apart) (before : Text) :
    Scan before (print last ls) (emitted ls) [] := by
  induction ls generalizing before with
  | nil =>
    rw [print, ← List.append_nil last]
    exact .blank_append blank rfl fun b => .finish b
  | cons l ls ih =>
    have lexeme := l.isClean.isLexeme
    have longest := lexeme.longest_append (not_joins_print blank apart)
    rw [print]
    apply Scan.blank_append l.isBlank (lexeme.read_eq_nil _)
    intro b
    exact .lexeme rfl longest lexeme (ih apart.tail _)

end

/-- Lexemes that are printed with gaps where they need them are read back, and without errors. -/
theorem tokenize_print {last : Text} (blank : Blank.IsBlank last) (ls : List Spaced)
    (apart : ls.IsChain Apart) :
    (tokenize (print last ls)).stream.tokens.map (fun t => (t.kind, t.text)) =
      ls.map (fun l => (l.kind, l.text)) ++ [(.endOfInput, [])] ∧
    (tokenize (print last ls)).isClean := by
  have clean := (clean_pieces_iff _).mpr (decomposes_print blank ls)
  have scan := scan_tokenize (print last ls)
  refine ⟨(scan.unique (scan_print blank apart [])).1, ?_⟩
  rw [isClean_tokenize_iff]
  exact errors_tokenize_eq_nil_iff.mpr clean

theorem tokenize_print_touching :
    let ls : List Spaced := [
      ⟨[], .symbol .dotDot, ['.', '.'], .nil, .symbol .dotDot⟩,
      ⟨[], .floatLiteral, ['.', '5'], .nil,
        .floatLiteral (.fraction (by simp) (List.forall_mem_singleton.mpr rfl))⟩,
      ⟨[], .identifier, ['x'], .nil, .identifier (.intro rfl (by simp)) fun k => by
        cases k <;> decide⟩,
      ⟨['\\', '\n'], .keyword .kwOr, ['o', 'r'], .continuation .nil, .keyword .kwOr⟩,
      ⟨[], .symbol .minus, ['-'], .nil, .symbol .minus⟩,
      ⟨[], .symbol .arrow, ['-', '>'], .nil, .symbol .arrow⟩]
    Blank.IsBlank [' '] ∧ ls.IsChain Apart ∧
      (tokenize (print [' '] ls)).stream.tokens.map (fun t => (t.kind, t.text)) =
        ls.map (fun l => (l.kind, l.text)) ++ [(.endOfInput, [])] ∧
      (tokenize (print [' '] ls)).isClean := by
  intro ls
  have blank : Blank.IsBlank [' '] := .whitespace rfl .nil
  have apart : ls.IsChain Apart := by decide
  exact ⟨blank, apart, tokenize_print blank ls apart⟩

end Spaced

end Lexis
