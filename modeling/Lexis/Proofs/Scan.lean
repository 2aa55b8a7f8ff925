import Lexis.Proofs.Findings
import Lexis.Proofs.Longest
import Lexis.Proofs.Place

/-! The longest-match scan of the lexical grammar as a relation, and the lexer as the one
function that it describes. -/

namespace Lexis
set_option autoImplicit false

/-- Scanning a text that comes after `before`: what is emitted, and the errors of what is
dropped. At each place the longest match is taken; where nothing matches, a quote drops all
that is left and any other character only itself. -/
inductive Scan : Text → Text → List (TokenKind × Text) → List LexicalError → Prop where
  | finish (before : Text) : Scan before [] [(.endOfInput, [])] []
  | blank {before s t rest : Text} {out : List (TokenKind × Text)} {errors : List LexicalError} :
    t ++ rest = s → Longest s t → Blank.IsBlank t →
    Scan (before ++ t) rest out errors → Scan before s out errors
  | lexeme {before s t rest : Text} {k : TokenKind} {out : List (TokenKind × Text)}
    {errors : List LexicalError} : t ++ rest = s → Longest s t → IsLexeme k t →
    Scan (before ++ t) rest out errors → Scan before s ((k, t) :: out) errors
  | unterminated {before s : Text} {q : Char} {out : List (TokenKind × Text)}
    {errors : List LexicalError} : Unmatched (q :: s) → isQuote q →
    Scan (before ++ q :: s) [] out errors →
    Scan before (q :: s) out (.unterminatedString (.between before (q :: s)) :: errors)
  | stray {before s : Text} {c : Char} {out : List (TokenKind × Text)}
    {errors : List LexicalError} : Unmatched (c :: s) → isQuote c = false →
    Scan (before ++ [c]) s out errors →
    Scan before (c :: s) out (.unrecognizedCharacter c (.between before (c :: s)) :: errors)

theorem not_longest_nil {t : Text} : ¬ Longest [] t :=
  fun h => h.ne_nil (List.prefix_nil.mp h.isPrefix)

theorem Longest.rest_unique {s t u rest later : Text} (ht : Longest s t) (hu : Longest s u)
    (h : t ++ rest = s) (h' : u ++ later = s) : u = t ∧ later = rest := by
  obtain rfl := ht.unique hu
  exact ⟨rfl, List.append_cancel_left (h'.trans h.symm)⟩

theorem Scan.unique {before s : Text} {out out' : List (TokenKind × Text)}
    {errors errors' : List LexicalError} (h : Scan before s out errors)
    (h' : Scan before s out' errors') : out = out' ∧ errors = errors' := by
  induction h generalizing out' errors' with
  | finish =>
    cases h' with
    | finish => exact ⟨rfl, rfl⟩
    | blank _ hl => exact absurd hl not_longest_nil
    | lexeme _ hl => exact absurd hl not_longest_nil
  | blank hs hl hb _ ih =>
    cases h' with
    | finish => exact absurd hl not_longest_nil
    | blank hs' hl' _ later =>
      obtain ⟨rfl, rfl⟩ := hl.rest_unique hl' hs hs'
      exact ih later
    | lexeme _ hl' hk => exact absurd (hl.unique hl' ▸ hb) hk.not_isBlank
    | unterminated hu => exact absurd hu hl.not_unmatched
    | stray hu => exact absurd hu hl.not_unmatched
  | lexeme hs hl hk _ ih =>
    cases h' with
    | finish => exact absurd hl not_longest_nil
    | blank _ hl' hb => exact absurd (hl'.unique hl ▸ hb) hk.not_isBlank
    | lexeme hs' hl' hk' later =>
      obtain ⟨rfl, rfl⟩ := hl.rest_unique hl' hs hs'
      obtain rfl := hk.kind_unique hk'
      obtain ⟨rfl, rfl⟩ := ih later
      exact ⟨rfl, rfl⟩
    | unterminated hu => exact absurd hu hl.not_unmatched
    | stray hu => exact absurd hu hl.not_unmatched
  | unterminated hu hq _ ih =>
    cases h' with
    | blank _ hl => exact absurd hu hl.not_unmatched
    | lexeme _ hl => exact absurd hu hl.not_unmatched
    | unterminated _ _ later =>
      obtain ⟨rfl, rfl⟩ := ih later
      exact ⟨rfl, rfl⟩
    | stray _ hq' => exact absurd hq (by simp [hq'])
  | stray hu hq _ ih =>
    cases h' with
    | blank _ hl => exact absurd hu hl.not_unmatched
    | lexeme _ hl => exact absurd hu hl.not_unmatched
    | unterminated _ hq' => exact absurd hq' (by simp [hq])
    | stray _ _ later =>
      obtain ⟨rfl, rfl⟩ := ih later
      exact ⟨rfl, rfl⟩

namespace Cursor

def emitted (c : Cursor) : List (TokenKind × Text) :=
  (c.placed.filterMap Placed.token?).map (fun t => (t.kind, t.text)) ++ [(.endOfInput, [])]

/-- The errors that are left, but for those within quoted literals. -/
def drops (c : Cursor) : List LexicalError :=
  (c.placed.flatMap Placed.errors).filter (·.kind ≠ .invalidEscapeSequence)

theorem drops_faults (c : Cursor) (as : List Atom) :
    (Quoted.faults c as).filter (·.kind ≠ .invalidEscapeSequence) = [] := by
  induction as generalizing c with
  | nil => rfl
  | cons a as ih =>
    rw [Quoted.faults, List.filter_append, ih]
    cases a.invalid? <;> simp [LexicalError.kind]

theorem emitted_of_rest_cons {c : Cursor} {x : Char} {s : Text} (hs : c.rest = x :: s) :
    c.emitted = ((Piece.read x s).lexeme?.map fun l => (l.kind, l.text)).toList ++
      (Placed.stop ⟨.read x s, c⟩).emitted := by
  rw [emitted, placed_of_rest_cons hs, List.filterMap_cons, emitted, Placed.token?]
  cases (Piece.read x s).lexeme? <;> rfl

theorem drops_of_rest_cons {c : Cursor} {x : Char} {s : Text} (hs : c.rest = x :: s) :
    c.drops = (Placed.errors ⟨.read x s, c⟩).filter (·.kind ≠ .invalidEscapeSequence) ++
      (Placed.stop ⟨.read x s, c⟩).drops := by
  rw [drops, placed_of_rest_cons hs, List.flatMap_cons, List.filter_append, drops]

theorem scan_of_after {before : Text} {c : Cursor} (h : c.After before) :
    Scan before c.rest c.emitted c.drops := by
  induction c using walk generalizing before with
  | atEnd c hs =>
    rw [emitted, drops, placed_of_rest_nil hs, hs]
    exact .finish before
  | onward c x s hs ih =>
    have later := ih (h.stop hs)
    have split := text_append_rest_stop hs
    have place : c.position = .between before (x :: s) := hs ▸ h
    rw [emitted_of_rest_cons hs, drops_of_rest_cons hs]
    rw [hs] at split ⊢
    have fits := Piece.fits_read x s
    generalize Piece.read x s = p at fits later split
    cases fits with
    | blank hl hb => exact .blank split hl hb later
    | lexeme hl hk => exact .lexeme split hl hk later
    | @closed _ l hc hl hk =>
      rw [Placed.errors_quoted, if_pos hc, List.append_nil, drops_faults, Piece.lexeme?, if_pos hc]
      exact .lexeme split hl hk later
    | @unclosed _ _ l hc hu hq whole =>
      rw [Placed.errors_quoted, hc, List.filter_append, drops_faults, Piece.lexeme?, hc, place]
      have rest : (Placed.stop ⟨.quoted l, c⟩).rest = [] := by
        simpa [Piece.text, whole] using split
      rw [Piece.text, whole, rest] at later
      exact .unterminated hu hq later
    | stray hu hq =>
      rw [Placed.errors_stray, place]
      have rest : (Placed.stop ⟨.stray x, c⟩).rest = s := by simpa [Piece.text] using split
      rw [rest] at later
      exact .stray hu hq later

end Cursor

theorem scan_tokenize (source : Text) : Scan [] source
    ((tokenize source).stream.tokens.map fun t => (t.kind, t.text))
    ((tokenize source).errors.filter (·.kind ≠ .invalidEscapeSequence)) := by
  have scan := Cursor.scan_of_after (Cursor.After.start source)
  have emitted : (Cursor.start source).emitted =
      (tokenize source).stream.tokens.map (fun t => (t.kind, t.text)) := by
    rw [tokenize, tokens_tokenizeWith, List.map_append]
    rfl
  have drops : (Cursor.start source).drops =
      (tokenize source).errors.filter (·.kind ≠ .invalidEscapeSequence) := by
    rw [errors_tokenize, Cursor.drops]
  rwa [emitted, drops] at scan

/-- Lexing a source is its longest-match scan: the same kinds and texts in order, and of the
errors those that are not escapes within a literal are what the scan drops, in order. -/
theorem scan_iff_tokenize (source : Text) (out : List (TokenKind × Text))
    (errors : List LexicalError) : Scan [] source out errors ↔
      out = (tokenize source).stream.tokens.map (fun t => (t.kind, t.text)) ∧
      errors = (tokenize source).errors.filter (·.kind ≠ .invalidEscapeSequence) := by
  have scan := scan_tokenize source
  constructor
  · intro h
    exact h.unique scan
  · rintro ⟨rfl, rfl⟩
    exact scan

end Lexis
