import Lexis.Proofs.Content
import Lexis.Proofs.Printing
import Mathlib.Data.List.Nodup

/-! Tokens written out again. Whatever a source was like, its tokens in one line with single spaces
between them are read as the same tokens, and only the escapes within them are at fault again. -/

namespace Lexis
set_option autoImplicit false

/-- The fixed text of a keyword or a symbol, and the text of any other lexeme. -/
def Lexeme.rendered (l : Lexeme) : Text :=
  if l.kind.isKeyword || l.kind.isSymbol then l.kind.caption.toList else l.text

namespace Stream

/-- The tokens in one line, with a space between any two of them. -/
def rendered (s : Stream) : Text :=
  [' '].intercalate ((s.tokens.filter (·.kind ≠ .endOfInput)).map (·.rendered))

end Stream

namespace Output

/-- The escapes at fault that lie within a string literal. -/
def literalErrors (o : Output) : List LexicalError :=
  o.errors.filter fun e => e.kind = .invalidEscapeSequence ∧ ∃ t ∈ o.stream.tokens,
    t.kind = .stringLiteral ∧ t.span.start.offset < e.position.offset ∧
      e.position.offset < t.span.stop.offset

end Output

theorem IsLexeme.rendered {k : TokenKind} {t : Text} (h : IsLexeme k t) (value : Option Text) :
    Lexeme.rendered ⟨k, t, value⟩ = t := by
  cases h with
  | keyword w _ hw =>
    have fixed : (TokenKind.keyword w).isKeyword := TokenKind.isKeyword_iff.mpr ⟨w, rfl⟩
    rw [Lexeme.rendered, fixed, Bool.true_or, if_pos rfl, TokenKind.caption_keyword]
    exact hw
  | symbol s =>
    have fixed : (TokenKind.symbol s).isSymbol := TokenKind.isSymbol_iff.mpr ⟨s, rfl⟩
    rw [Lexeme.rendered, fixed, Bool.or_true, if_pos rfl, TokenKind.caption_symbol]
    rfl
  | _ => rfl

namespace Piece

theorem rendered_lexeme? {c : Char} {s : Text} {l : Lexeme} (h : (read c s).lexeme? = some l) :
    l.rendered = (read c s).text := by
  have fits := fits_read c s
  generalize read c s = p at fits h
  cases fits with
  | blank => cases h
  | lexeme _ hk =>
    obtain rfl := Option.some.inj h
    exact hk.rendered none
  | closed hc _ literal =>
    rw [lexeme?, if_pos hc] at h
    obtain rfl := Option.some.inj h
    exact literal.rendered _
  | unclosed hc => simp [lexeme?, hc] at h
  | stray => cases h

namespace Stands
variable {p : Piece} (h : p.Stands)
include h

theorem pieces_text : pieces p.text = [p] := by
  obtain ⟨-, c, t, text, own⟩ := h
  rw [text, pieces_cons, own, text, List.drop_length, pieces_nil]

theorem pieces_text_append {r : Text} (last : Blank.read r = []) :
    pieces (p.text ++ ' ' :: r) = p :: .blank [' '] :: pieces r := by
  obtain ⟨lexeme, c, t, text, rfl⟩ := h
  have noBlank : ∀ u, read c t ≠ .blank u := by
    intro u hu
    rw [hu] at lexeme
    cases lexeme
  have closed : ∀ l, read c t = .quoted l → l.closed :=
    fun l hl => closed_of_lexeme? (hl ▸ lexeme)
  have front := read_append_separator (u := ' ') (by decide) r noBlank closed
  have space : read ' ' r = .blank [' '] := by
    have blank : Blank.read (' ' :: r) = [' '] := by
      rw [Blank.read_whitespace (c := ' ') rfl, last]
    rw [read_of_blank_ne_nil (blank ▸ List.cons_ne_nil ' ' []), blank]
  rw [text, List.cons_append, pieces_cons, front, text, ← List.cons_append, List.drop_left,
    pieces_cons, space]
  rfl

theorem read_eq_nil (r : Text) : Blank.read (p.text ++ r) = [] := by
  obtain ⟨lexeme, c, t, text, own⟩ := h
  have fits := fits_read c t
  rw [own] at fits
  cases fits with
  | blank => cases lexeme
  | lexeme _ hk => exact hk.read_eq_nil r
  | closed _ _ literal => exact literal.read_eq_nil r
  | unclosed hc => simp [lexeme?, hc] at lexeme
  | stray => cases lexeme

end Stands

theorem pieces_intercalate {ps : List Piece} (stand : ∀ p ∈ ps, p.Stands) :
    pieces ([' '].intercalate (ps.map text)) = ps.intersperse (.blank [' ']) := by
  induction ps with
  | nil => simp
  | cons p ps ih =>
    obtain ⟨hp, later⟩ := List.forall_mem_cons.mp stand
    cases ps with
    | nil => simpa using hp.pieces_text
    | cons q ps =>
      have hq := later q List.mem_cons_self
      have last : Blank.read ([' '].intercalate ((q :: ps).map text)) = [] := by
        cases ps with
        | nil => simpa using hq.read_eq_nil []
        | cons r ps =>
          rw [List.map_cons, List.map_cons, List.intercalate_cons_cons, List.append_assoc]
          exact hq.read_eq_nil _
      have line : [' '].intercalate ((p :: q :: ps).map text) =
          p.text ++ ' ' :: [' '].intercalate ((q :: ps).map text) := by
        simp [List.intercalate_cons_cons]
      rw [line, hp.pieces_text_append last, ih later]
      rfl

end Piece

theorem flatMap_intersperse {α β : Type} {f : α → List β} {a : α} (none : f a = [])
    (l : List α) : (l.intersperse a).flatMap f = l.flatMap f := by
  induction l with
  | nil => rfl
  | cons b l ih =>
    cases l with
    | nil => rfl
    | cons c l => simpa [none] using ih

theorem filter_flatMap_of_mem {α β : Type} {f : α → List β} {p : β → Bool} {q : α → Bool}
    {l : List α} (same : ∀ a ∈ l, ∀ b ∈ f a, p b = q a) :
    (l.flatMap f).filter p = (l.filter q).flatMap f := by
  induction l with
  | nil => rfl
  | cons a l ih =>
    obtain ⟨first, later⟩ := List.forall_mem_cons.mp same
    rw [List.flatMap_cons, List.filter_append, ih later, List.filter_cons]
    cases hq : q a with
    | true =>
      have all : (f a).filter p = f a := List.filter_eq_self.mpr fun b hb => (first b hb).trans hq
      rw [all, if_pos rfl, List.flatMap_cons]
    | false =>
      have none : (f a).filter p = [] := by
        apply List.filter_eq_nil_iff.mpr
        intro b hb
        rw [first b hb, hq]
        exact Bool.false_ne_true
      rw [none, if_neg Bool.false_ne_true, List.nil_append]

theorem filterMap_lexeme?_intersperse (ps : List Piece) (t : Text) :
    (ps.intersperse (.blank t)).filterMap Piece.lexeme? = ps.filterMap Piece.lexeme? := by
  rw [List.filterMap_eq_flatMap_toList, List.filterMap_eq_flatMap_toList]
  exact flatMap_intersperse rfl ps

namespace Cursor
variable {before : Text} {c : Cursor} (h : c.After before)
include h

theorem After.eq_of_start {p q : Placed} (hp : p ∈ c.placed) (hq : q ∈ c.placed)
    (same : p.span.start.offset = q.span.start.offset) : p = q := by
  have apart : (c.placed.map fun p => p.span.start.offset).Nodup := by
    apply List.pairwise_map.mpr
    apply h.pairwise_placed.imp
    intro a b hab
    omega
  exact List.inj_on_of_nodup_map apart hp hq same

end Cursor

section
variable (source : Text)

def tokenPieces : List Piece := (pieces source).filter (·.lexeme?.isSome)

theorem stands_of_mem_tokenPieces : ∀ p ∈ tokenPieces source, p.Stands := by
  intro p hp
  obtain ⟨mem, lexeme⟩ := List.mem_filter.mp hp
  exact forall_pieces (motive := fun p => p.lexeme?.isSome → p.Stands)
    (fun _ _ => Piece.stands_read) source p mem lexeme

theorem filterMap_lexeme?_tokenPieces :
    (tokenPieces source).filterMap Piece.lexeme? = lexemes source := by
  rw [tokenPieces, List.filterMap_filter, lexemes]
  apply List.filterMap_congr
  intro p _
  cases p.lexeme? <;> rfl

theorem kind_ne_of_mem_lexemes : ∀ l ∈ lexemes source, l.kind ≠ .endOfInput := by
  intro l hl
  obtain ⟨p, hp, hpl⟩ := List.mem_filterMap.mp hl
  exact forall_pieces (motive := fun p => ∀ l, p.lexeme? = some l → l.kind ≠ .endOfInput)
    (fun _ _ _ => Piece.kind_ne_endOfInput) source p hp l hpl

theorem map_toLexeme_filter : ((tokenize source).stream.tokens.filter
    (·.kind ≠ .endOfInput)).map Token.toLexeme = lexemes source := by
  have kept : (lexemes source).filter (·.kind ≠ .endOfInput) = lexemes source := by
    apply List.filter_eq_self.mpr
    intro l hl
    exact decide_eq_true (kind_ne_of_mem_lexemes source l hl)
  have all := congrArg (List.filter (·.kind ≠ .endOfInput)) (lexemes_tokenizeWith {} source)
  rw [List.filter_map, List.filter_append, kept] at all
  exact all.trans (List.append_nil _)

theorem rendered_tokenize : (tokenize source).stream.rendered =
    [' '].intercalate ((tokenPieces source).map Piece.text) := by
  have each : ∀ p ∈ pieces source, ∀ l, p.lexeme? = some l → l.rendered = p.text :=
    forall_pieces (fun _ _ _ => Piece.rendered_lexeme?) source
  have texts : (lexemes source).map Lexeme.rendered = (tokenPieces source).map Piece.text := by
    rw [lexemes, tokenPieces]
    generalize pieces source = ps at each
    induction ps with
    | nil => rfl
    | cons p ps ih =>
      obtain ⟨first, later⟩ := List.forall_mem_cons.mp each
      cases hl : p.lexeme? with
      | none => simpa [hl] using ih later
      | some l => simpa [hl, first l hl] using ih later
  rw [Stream.rendered, ← texts, ← map_toLexeme_filter, List.map_map]
  rfl

theorem inLiteral_iff {p : Placed} (hp : p ∈ (Cursor.start source).placed) {e : LexicalError}
    (he : e ∈ p.errors) : (e.kind = .invalidEscapeSequence ∧
      ∃ t ∈ (tokenize source).stream.tokens, t.kind = .stringLiteral ∧
        t.span.start.offset < e.position.offset ∧ e.position.offset < t.span.stop.offset) ↔
      p.piece.lexeme?.isSome := by
  have h := Cursor.After.start source
  have blamed := h.blames p hp e he
  constructor
  · rintro ⟨kind, t, ht, literal, within⟩
    rcases List.mem_append.mp ht with ht | ht
    · obtain ⟨q, hq, hqt⟩ := List.mem_filterMap.mp ht
      rw [(Placed.token?_eq_some hqt).1] at within
      cases blamed with
      | escape _ _ low high =>
        have spans := h.tiles_placed.eq_of_mem (List.mem_map_of_mem hp) (List.mem_map_of_mem hq)
          ⟨low, high⟩ within
        obtain rfl := h.eq_of_start hp hq (congrArg (·.start.offset) spans)
        obtain ⟨l, hl, -⟩ := Option.map_eq_some_iff.mp hqt
        rw [hl]
        rfl
      | unclosed => cases kind
      | stray => cases kind
    · obtain rfl := List.mem_singleton.mp ht
      cases literal
  · intro lexeme
    obtain ⟨piece, start⟩ := p
    cases blamed with
    | @escape l _ _ hl _ low high =>
      obtain rfl : piece = .quoted l := hl
      have token : Placed.token? ⟨.quoted l, start⟩ =
          some (.string l.text l.value (Placed.span ⟨.quoted l, start⟩)) := by
        rw [Placed.token?, Piece.lexeme?, if_pos (Piece.closed_of_lexeme? lexeme)]
        rfl
      exact ⟨rfl, _, List.mem_append_left _ (List.mem_filterMap.mpr ⟨_, hp, token⟩), rfl, low, high⟩
    | unclosed isOpen =>
      obtain ⟨l, rfl, unclosed⟩ := isOpen
      rw [Piece.closed_of_lexeme? lexeme] at unclosed
      cases unclosed
    | stray hy =>
      rw [hy] at lexeme
      cases lexeme

/-- The escapes within string literals are what is at fault in the pieces that give tokens. -/
theorem literalErrors_eq : (tokenize source).literalErrors =
    ((Cursor.start source).placed.filter (·.piece.lexeme?.isSome)).flatMap Placed.errors := by
  rw [Output.literalErrors, errors_tokenize]
  apply filter_flatMap_of_mem
  intro p hp e he
  exact Bool.eq_iff_iff.mpr (decide_eq_true_iff.trans (inLiteral_iff source hp he))

theorem map_fault_literalErrors : (tokenize source).literalErrors.map LexicalError.fault =
    (tokenPieces source).flatMap Piece.faults := by
  rw [literalErrors_eq, List.map_flatMap, tokenPieces]
  simp only [Placed.map_fault_errors]
  have same := (Cursor.start source).map_piece_place (pieces source)
  rw [← same, List.filter_map, List.flatMap_map]
  rfl

/-- Reading the tokens of any source again, written in one line, gives the same tokens. The errors
are those within its string literals, in the same order. -/
theorem tokenize_rendered :
    (tokenize (tokenize source).stream.rendered).stream.tokens.map Token.toLexeme =
        ((tokenize source).stream.tokens.filter (·.kind ≠ .endOfInput)).map Token.toLexeme ++
          [⟨.endOfInput, [], none⟩] ∧
      (tokenize (tokenize source).stream.rendered).errors.map LexicalError.fault =
        (tokenize source).literalErrors.map LexicalError.fault := by
  have whole := Piece.pieces_intercalate (stands_of_mem_tokenPieces source)
  rw [← rendered_tokenize] at whole
  constructor
  · have lexed := lexemes_tokenizeWith {} (tokenize source).stream.rendered
    rw [lexemes, whole, filterMap_lexeme?_intersperse, filterMap_lexeme?_tokenPieces,
      ← map_toLexeme_filter] at lexed
    exact lexed
  · rw [faults_tokenize, whole, flatMap_intersperse rfl, map_fault_literalErrors]

end

end Lexis
