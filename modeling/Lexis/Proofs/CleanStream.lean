import Lexis.Proofs.Decomposition
import Lexis.Proofs.Findings

/-! Sources that give a stream without errors. Pieces are found faultless one by one, and each of
them can be taken off the front of a text without spoiling every other cut of it. -/

namespace Lexis
set_option autoImplicit false

theorem Escape.isSome_decode?_iff {c : Char} :
    (decode? c).isSome ↔ c ∈ table.map Prod.fst := by
  rw [decode?, List.lookup_isSome_iff, List.mem_map]
  constructor
  · rintro ⟨p, hp, hc⟩
    exact ⟨p, hp, (beq_iff_eq.mp hc).symm⟩
  · rintro ⟨p, hp, rfl⟩
    exact ⟨p, hp, beq_self_eq_true _⟩

theorem Atom.invalid?_escape {c : Char} :
    (escape c).invalid? = none ↔ c ∈ Escape.table.map Prod.fst := by
  rw [← Escape.isSome_decode?_iff, invalid?]
  cases Escape.decode? c <;> simp

namespace Piece

/-- A piece at which nothing is found but blanks. -/
def Clean : Piece → Prop
  | blank _ => True
  | lexeme _ _ => True
  | quoted l => l.closed ∧ ∀ a ∈ l.body, a.invalid? = none
  | stray _ => False

end Piece

theorem Quoted.faults_eq_nil_iff {c : Cursor} {as : List Atom} :
    faults c as = [] ↔ ∀ a ∈ as, a.invalid? = none := by
  induction as generalizing c with
  | nil => simp [faults]
  | cons a as ih => simp [faults, ih]

theorem Placed.errors_eq_nil_iff {p : Placed} : p.errors = [] ↔ p.piece.Clean := by
  obtain ⟨piece, start⟩ := p
  cases piece with
  | blank t => exact iff_of_true (errors_blank t start) trivial
  | lexeme k t => exact iff_of_true (errors_lexeme k t start) trivial
  | quoted l =>
    rw [errors_quoted, List.append_eq_nil_iff, Quoted.faults_eq_nil_iff]
    simp [Piece.Clean, and_comm]
  | stray x => exact iff_of_false (List.cons_ne_nil _ _) id

theorem Cursor.map_piece_place (c : Cursor) (ps : List Piece) :
    (c.place ps).map Placed.piece = ps := by
  induction ps generalizing c with
  | nil => rfl
  | cons p ps ih => rw [place, List.map_cons, ih]

theorem errors_tokenize_eq_nil_iff {source : Text} :
    (tokenize source).errors = [] ↔ ∀ p ∈ pieces source, p.Clean := by
  have same := (Cursor.start source).map_piece_place (pieces source)
  rw [errors_tokenize, List.flatMap_eq_nil_iff, ← same, List.forall_mem_map]
  simp only [Placed.errors_eq_nil_iff]
  rfl

theorem Rejection.ofList?_eq_none_iff {es : List LexicalError} : ofList? es = none ↔ es = [] := by
  cases es with
  | nil => exact iff_of_true rfl rfl
  | cons e es => exact iff_of_false (Option.some_ne_none _) (List.cons_ne_nil e es)

namespace Quoted
variable {q : Char}

theorem readBody_backslash {c : Char} {s : Text} (table : c ∈ Escape.table.map Prod.fst)
    (skipping : Bool) :
    readBody q skipping ('\\' :: c :: s) = consBody (.escape c) (readBody q false s) := by
  have others : '\n' ∉ Escape.table.map Prod.fst ∧ '\r' ∉ Escape.table.map Prod.fst ∧
      'z' ∉ Escape.table.map Prod.fst := by decide
  rw [readBody]
  · rintro rfl
    exact others.1 table
  · rintro r rfl
    exact absurd table others.2.1
  · rintro rfl
    exact others.2.2 table

theorem readBody_plain {c : Char} (hc : c ≠ '\\') (skipping : Bool) (s : Text) :
    readBody q skipping (c :: s) = if c = q then ([], true)
      else if skipping && isWhitespace c then consBody (.skipped c) (readBody q true s)
      else consBody (.plain c) (readBody q false s) := by
  rw [readBody] <;> simp [hc]

theorem invalid?_of_isCleanBody (hq : isQuote q) {b : Text} (h : IsCleanBody q b)
    (skipping : Bool) (r : Text) :
    ∀ a ∈ (readBody q skipping (b ++ q :: r)).1, a.invalid? = none := by
  induction h generalizing skipping with
  | nil =>
    rw [List.nil_append, readBody_plain (ne_of_isQuote hq).1, if_pos rfl]
    simp
  | plain hc hb _ ih =>
    rw [List.cons_append, readBody_plain hb, if_neg hc]
    split
    · exact List.forall_mem_cons.mpr ⟨rfl, ih true⟩
    · exact List.forall_mem_cons.mpr ⟨rfl, ih false⟩
  | escape table _ ih =>
    rw [List.cons_append, List.cons_append, readBody_backslash table]
    exact List.forall_mem_cons.mpr ⟨Atom.invalid?_escape.mpr table, ih false⟩
  | gap _ ih => exact List.forall_mem_cons.mpr ⟨rfl, ih true⟩
  | continuation _ ih => exact List.forall_mem_cons.mpr ⟨rfl, ih false⟩
  | longContinuation _ ih => exact List.forall_mem_cons.mpr ⟨rfl, ih false⟩

theorem isCleanBody_readBody (skipping : Bool) {s : Text}
    (closed : (readBody q skipping s).2 = true)
    (valid : ∀ a ∈ (readBody q skipping s).1, a.invalid? = none) :
    IsCleanBody q ((readBody q skipping s).1.flatMap Atom.text) := by
  fun_induction readBody q skipping s with
  | case1 => cases closed
  | case2 => cases closed
  | case3 _ s ih => exact .continuation (ih closed (List.forall_mem_cons.mp valid).2)
  | case4 _ s ih => exact .longContinuation (ih closed (List.forall_mem_cons.mp valid).2)
  | case5 _ s ih => exact .gap (ih closed (List.forall_mem_cons.mp valid).2)
  | case6 _ c s _ _ _ ih =>
    obtain ⟨known, later⟩ := List.forall_mem_cons.mp valid
    exact .escape (Atom.invalid?_escape.mp known) (ih closed later)
  | case7 => exact .nil
  | case8 _ c s lone _ _ _ pair hc _ ih =>
    exact .plain hc (ne_backslash lone pair) (ih closed (List.forall_mem_cons.mp valid).2)
  | case9 _ c s lone _ _ _ pair hc _ ih =>
    exact .plain hc (ne_backslash lone pair) (ih closed (List.forall_mem_cons.mp valid).2)

theorem isCleanUnit_read (hq : isQuote q) {s : Text} (clean : (Piece.quoted (read q s)).Clean) :
    IsCleanUnit (read q s).text := by
  obtain ⟨closed, valid⟩ := clean
  rw [text_read_of_closed closed]
  exact .literal hq (isCleanBody_readBody false closed valid)

theorem clean_read_of_isCleanBody (hq : isQuote q) {b r : Text} (h : IsCleanBody q b) :
    (Piece.quoted (read q (b ++ q :: r))).Clean ∧
      (read q (b ++ q :: r)).text = q :: (b ++ [q]) := by
  have front : q :: (b ++ [q]) <+: q :: (b ++ q :: r) := ⟨r, by simp⟩
  obtain ⟨closed, text⟩ := read_of_isLiteral (.intro hq (h.isBody hq)) front
  exact ⟨⟨closed, invalid?_of_isCleanBody hq h false r⟩, text⟩

end Quoted

namespace Piece
variable {c : Char} {s : Text}

theorem read_of_isQuote (hc : isQuote c) : read c s = .quoted (Quoted.read c s) := by
  have other {k : CharClass} (hk : k ≠ .quote) : ¬ k.has c := by
    intro h
    cases (CharClass.not_isQuote_of_has h hk).symm.trans hc
  have noBlank : ¬ Blank.startsAt (c :: s) := by
    intro blank
    have ne := Blank.startsAt_iff.mp blank
    have lead := (Blank.isBlank_read (c :: s)).lead?
    rw [Text.lead?_of_prefix (Blank.read_isPrefix _) ne,
      Text.lead?_cons s (k := .quote) hc] at lead
    simp at lead
  have noNumeral : ¬ Numeral.startsAt (c :: s) := by
    intro h
    rcases Numeral.startsAt_cons_iff.mp h with hd | ⟨rfl, -⟩
    · exact other (k := .digit) (by decide) hd
    · exact absurd hc (by decide)
  have noWord : ¬ isWordStart c := other (k := .wordStart) (by decide)
  rw [read, if_neg noBlank, if_neg noWord, if_neg noNumeral, if_pos hc]

theorem decomposes_iff_of_isQuote (hc : isQuote c) : Decomposes (c :: s) ↔
    (read c s).Clean ∧ Decomposes ((c :: s).drop (read c s).text.length) := by
  constructor
  · intro h
    obtain ⟨t, r, unit, rfl, hr⟩ := h.exists_unit
    obtain ⟨q, b, hb, ht⟩ := unit.exists_body (Text.lead?_cons t (k := .quote) hc)
    obtain ⟨rfl, rfl⟩ := List.cons.inj ht
    obtain ⟨clean, text⟩ := Quoted.clean_read_of_isCleanBody hc hb (r := r)
    rw [List.append_assoc, List.singleton_append, read_of_isQuote hc]
    refine ⟨clean, ?_⟩
    have whole : c :: (b ++ c :: r) = c :: (b ++ [c]) ++ r := by simp
    rw [Piece.text, text, whole, List.drop_left]
    exact hr
  · rintro ⟨clean, later⟩
    have whole := read_text_append_drop c s
    rw [read_of_isQuote hc] at clean later whole
    rw [← whole]
    exact later.unit_append (Quoted.isCleanUnit_read hc clean)

/-- Outside literals any cut goes on behind the longest match. -/
theorem decomposes_iff_of_not_isQuote (hc : isQuote c = false) : Decomposes (c :: s) ↔
    (read c s).Clean ∧ Decomposes ((c :: s).drop (read c s).text.length) := by
  have plain := Text.lead?_ne_quote hc s
  -- The first unit of a cut may be shorter than the match that is read.
  have dropped {t : Text} (h : Longest (c :: s) t) :
      Decomposes (c :: s) ↔ Decomposes ((c :: s).drop t.length) := by
    obtain ⟨r, hr⟩ := h.isPrefix
    have lead : Text.lead? t ≠ some .quote := by
      rw [Text.lead?_of_prefix h.isPrefix h.ne_nil]
      exact plain
    rw [← hr, List.drop_left, h.isMatch.decomposes_append_iff lead]
  have fits := fits_read c s
  generalize read c s = p at fits ⊢
  cases fits with
  | blank longest _ => exact (dropped longest).trans (and_iff_right trivial).symm
  | lexeme longest _ => exact (dropped longest).trans (and_iff_right trivial).symm
  | closed _ longest literal =>
    cases literal with
    | stringLiteral hs =>
      have lead := Text.lead?_of_prefix longest.isPrefix longest.ne_nil
      exact absurd (lead.symm.trans hs.lead?) plain
  | unclosed _ _ hq _ =>
    rw [hc] at hq
    cases hq
  | stray unmatched _ =>
    apply iff_of_false
    · intro h
      exact h.not_unmatched unmatched
    · exact And.left

theorem decomposes_iff : Decomposes (c :: s) ↔
    (read c s).Clean ∧ Decomposes ((c :: s).drop (read c s).text.length) := by
  cases hc : isQuote c with
  | true => exact decomposes_iff_of_isQuote hc
  | false => exact decomposes_iff_of_not_isQuote hc

end Piece

theorem clean_pieces_iff (s : Text) : (∀ p ∈ pieces s, p.Clean) ↔ Decomposes s := by
  fun_induction pieces s with
  | case1 => exact iff_of_true (by simp) .nil
  | case2 c s ih => rw [List.forall_mem_cons, ih, Piece.decomposes_iff]

/-- A source is accepted if and only if it can be cut into clean units in some way. -/
theorem cleanStream_ok_iff_decomposes (source : Text) :
    ((∃ stream, cleanStream source = .ok stream) ↔ Decomposes source) ∧
    (∀ stream, cleanStream source = .ok stream → stream = (tokenize source).stream) ∧
    (∀ r, cleanStream source = .error r →
      r.errors ≠ [] ∧ r.errors = (tokenize source).errors) := by
  have clean := errors_tokenize_eq_nil_iff.trans (clean_pieces_iff source)
  rw [← clean, cleanStream]
  cases h : Rejection.ofList? (tokenize source).errors with
  | none =>
    refine ⟨iff_of_true ⟨_, rfl⟩ (Rejection.ofList?_eq_none_iff.mp h), ?_, ?_⟩
    · intro stream hs
      exact (Except.ok.inj hs).symm
    · intro r hr
      cases hr
  | some r =>
    have errors := Rejection.errors_of_ofList? h
    refine ⟨iff_of_false ?_ ?_, ?_, ?_⟩
    · rintro ⟨stream, hs⟩
      cases hs
    · rw [← errors]
      exact List.cons_ne_nil _ _
    · intro stream hs
      cases hs
    · intro r' hr
      obtain rfl := Except.error.inj hr
      exact ⟨List.cons_ne_nil _ _, errors⟩

/-- A tilde is no unit, and with an equals sign it is one. -/
theorem cleanStream_tilde :
    (∃ stream, cleanStream ['~', '='] = .ok stream ∧ stream = (tokenize ['~', '=']).stream) ∧
    (∃ r, cleanStream ['~'] = .error r ∧ r.errors ≠ [] ∧ r.errors = (tokenize ['~']).errors) := by
  have clean : ∀ t ∈ [['~', '=']], IsCleanUnit t := by
    intro t ht
    obtain rfl := List.mem_singleton.mp ht
    exact .symbol .notEq
  have rejected : cleanStream ['~'] = .error ⟨.unrecognizedCharacter '~' .start, []⟩ := by
    decide +kernel
  constructor
  · obtain ⟨stream, accepted⟩ := (cleanStream_ok_iff_decomposes ['~', '=']).1.mpr ⟨_, rfl, clean⟩
    exact ⟨stream, accepted, (cleanStream_ok_iff_decomposes ['~', '=']).2.1 stream accepted⟩
  · exact ⟨_, rejected, (cleanStream_ok_iff_decomposes ['~']).2.2 _ rejected⟩

end Lexis
