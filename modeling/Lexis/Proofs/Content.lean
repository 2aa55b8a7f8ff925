import Lexis.Proofs.Attribution
import Lexis.Proofs.Separator

/-! What a source gives apart from all places: lexemes, and errors by kind and character. Both come
from the pieces alone, and a piece that gives a lexeme is read from its own text as well. -/

namespace Lexis
set_option autoImplicit false

/-- The error without its place. -/
def LexicalError.fault (e : LexicalError) : LexicalError.Kind × Option Char :=
  (e.kind, e.character?)

namespace Atom

def fault? (a : Atom) : Option (LexicalError.Kind × Option Char) :=
  a.invalid?.map fun c => (.invalidEscapeSequence, some c)

end Atom

namespace Piece

def faults : Piece → List (LexicalError.Kind × Option Char)
  | blank _ => []
  | lexeme _ _ => []
  | quoted l => l.body.filterMap Atom.fault? ++
    if l.closed then [] else [(.unterminatedString, none)]
  | stray c => [(.unrecognizedCharacter, some c)]

end Piece

theorem Quoted.map_fault_faults (c : Cursor) (as : List Atom) :
    (faults c as).map LexicalError.fault = as.filterMap Atom.fault? := by
  induction as generalizing c with
  | nil => rfl
  | cons a as ih =>
    rw [faults, List.map_append, ih, List.filterMap_cons, Atom.fault?]
    cases a.invalid? <;> rfl

theorem Placed.map_fault_errors (p : Placed) :
    p.errors.map LexicalError.fault = p.piece.faults := by
  obtain ⟨piece, start⟩ := p
  cases piece with
  | blank t => rfl
  | lexeme k t => rfl
  | quoted l =>
    rw [errors_quoted, List.map_append, Quoted.map_fault_faults, Piece.faults]
    cases l.closed <;> rfl
  | stray c => rfl

namespace Cursor
variable (c : Cursor)

theorem map_fault_errors : (c.placed.flatMap Placed.errors).map LexicalError.fault =
    (pieces c.rest).flatMap Piece.faults := by
  rw [List.map_flatMap, ← c.map_piece_place (pieces c.rest), List.flatMap_map]
  simp only [Placed.map_fault_errors]
  rfl

theorem map_toLexeme_tokens : (c.placed.filterMap Placed.token?).map Token.toLexeme =
    lexemes c.rest := by
  rw [lexemes, ← c.map_piece_place (pieces c.rest), List.filterMap_map, List.map_filterMap]
  apply List.filterMap_congr
  intro p _
  simp [Placed.token?, Function.comp_def]

end Cursor

section
variable (config : Config) (source : Text)

theorem lexemes_tokenizeWith :
    (tokenizeWith config source).stream.tokens.map Token.toLexeme =
      lexemes source ++ [⟨.endOfInput, [], none⟩] := by
  rw [tokens_tokenizeWith, List.map_append, Cursor.map_toLexeme_tokens]
  rfl

theorem faults_tokenizeWith : (tokenizeWith config source).errors.map LexicalError.fault =
      ((pieces source).flatMap Piece.faults).take
        (config.recorded ((pieces source).flatMap Piece.faults).length) ∧
    (tokenizeWith config source).suppressed = ((pieces source).flatMap Piece.faults).length -
      config.recorded ((pieces source).flatMap Piece.faults).length := by
  have records := records_tokenizeWith config source
  have all := (Cursor.start source).map_fault_errors
  have count := congrArg List.length all
  rw [List.length_map] at count
  constructor
  · have errors := congrArg (List.map LexicalError.fault) records.errors
    rw [List.map_take, all, count] at errors
    exact errors
  · have suppressed := records.suppressed
    rw [count] at suppressed
    exact suppressed

theorem faults_tokenize : (tokenize source).errors.map LexicalError.fault =
    (pieces source).flatMap Piece.faults := by
  rw [tokenize, (faults_tokenizeWith {} source).1, Config.recorded_of_noLimit rfl, List.take_length]

end

theorem IsMatch.longest_self {t : Text} (h : IsMatch t) (ne : t ≠ []) : Longest t t :=
  ⟨h, ne, List.prefix_refl t, fun _ _ hp => hp.length_le⟩

/-- A closed literal is read the same from its own text. -/
theorem Quoted.read_text {q : Char} (hq : isQuote q) {s : Text} (closed : (read q s).closed) :
    ∃ t, (read q s).text = q :: t ∧ read q t = read q s := by
  have body := isBody_readBody hq false closed
  have own := readBody_of_isBody hq false body (List.prefix_refl _)
  obtain ⟨r, whole⟩ := read_text_isPrefix q s
  rw [text_read_of_closed closed, List.cons_append] at whole
  refine ⟨_, text_read_of_closed closed, ?_⟩
  rw [read, ← readBody_append own.1 r, (List.cons.inj whole).2, read]

namespace Piece

theorem closed_of_lexeme? {l : Quoted} (h : (quoted l).lexeme?.isSome) : l.closed := by
  by_contra unclosed
  simp [lexeme?, unclosed] at h

/-- A lexeme that is read on its own: the text of the piece gives the piece again. -/
def Stands (p : Piece) : Prop :=
  p.lexeme?.isSome ∧ ∃ c t, p.text = c :: t ∧ read c t = p

theorem Fits.cases_of_not_quote {c : Char} {s : Text} {p : Piece} (h : Fits (c :: s) p)
    (hc : isQuote c = false) : (∃ t, p = .blank t) ∨
      (∃ k t, p = .lexeme k t ∧ Longest (c :: s) t ∧ IsLexeme k t ∧
        Text.lead? t ≠ some .quote) ∨
      (p = .stray c ∧ Unmatched (c :: s)) := by
  have lead := Text.lead?_ne_quote hc s
  cases h with
  | blank => exact Or.inl ⟨_, rfl⟩
  | lexeme longest hk =>
    rw [← Text.lead?_of_prefix longest.isPrefix longest.ne_nil] at lead
    exact Or.inr (Or.inl ⟨_, _, rfl, longest, hk, lead⟩)
  | closed _ longest literal =>
    rw [← Text.lead?_of_prefix longest.isPrefix longest.ne_nil] at lead
    cases literal with
    | stringLiteral hs => exact absurd hs.lead? lead
  | unclosed _ _ hq => cases hc.symm.trans hq
  | stray unmatched => exact Or.inr (Or.inr ⟨rfl, unmatched⟩)

theorem stands_read {c : Char} {s : Text} (h : (read c s).lexeme?.isSome) :
    (read c s).Stands := by
  refine ⟨h, c, ?_⟩
  cases hc : isQuote c with
  | true =>
    rw [read_of_isQuote hc] at h ⊢
    obtain ⟨t, text, own⟩ := Quoted.read_text hc (closed_of_lexeme? h)
    exact ⟨t, text, by rw [read_of_isQuote hc, own]⟩
  | false =>
    rcases (fits_read c s).cases_of_not_quote hc with ⟨t, ht⟩ | ⟨k, t, ht, longest, hk, lead⟩ | hs
    · cases ht ▸ h
    · obtain ⟨d, t, rfl⟩ := List.exists_cons_of_ne_nil longest.ne_nil
      obtain ⟨rfl, -⟩ := List.cons_prefix_cons.mp longest.isPrefix
      have own := longest.isMatch.longest_self longest.ne_nil
      rw [ht]
      exact ⟨t, rfl, (fits_read d t).eq_lexeme own hk lead⟩
    · cases hs.1 ▸ h

end Piece

theorem forall_pieces {motive : Piece → Prop} (read : ∀ c s, motive (.read c s)) (s : Text) :
    ∀ p ∈ pieces s, motive p := by
  fun_induction pieces s with
  | case1 => simp
  | case2 c s ih => exact List.forall_mem_cons.mpr ⟨read c s, ih⟩

end Lexis
