import Lexis.Proofs.Rounds

/-! Symbols. The table, the characters that begin a symbol and the texts that are tried for numerals
first were drawn up apart from each other, and they agree on what becomes of a text. -/

namespace Lexis
set_option autoImplicit false

namespace Symbol

/-- The texts at which a lexer tries the symbols: the first character begins one, and nothing that
is tried before begins there. -/
def IsTried : Text → Prop
  | [] => False
  | c :: s => Blank.read (c :: s) = [] ∧ isWordStart c = false ∧
      Numeral.startsAt (c :: s) = false ∧ isQuote c = false ∧ isSymbolStart c

theorem text_of_head?_tilde {y : Symbol} (h : y.text.head? = some '~') : y.text = ['~', '='] := by
  have table : all.all fun y => y.text.head? != some '~' || y.text = ['~', '='] := by decide
  have row := List.all_eq_true.mp table y y.mem_all
  rw [h, bne_self_eq_false, Bool.false_or] at row
  exact of_decide_eq_true row

theorem byteLength_text (y : Symbol) : Text.byteLength y.text = y.text.length := by
  have table : all.all fun y => Text.byteLength y.text = y.text.length := by decide
  exact of_decide_eq_true (List.all_eq_true.mp table y y.mem_all)

theorem match?_eq_some_iff {rest : Text} {y : Symbol} : match? rest = some y ↔
    y.text <+: rest ∧ ∀ z : Symbol, z.text <+: rest → z.text.length ≤ y.text.length := by
  constructor
  · intro found
    exact ⟨match?_isPrefix found, fun z hz => length_le_of_match? found hz⟩
  · rintro ⟨begins, longest⟩
    cases found : match? rest with
    | none => exact absurd begins (match?_eq_none_iff.mp found y)
    | some z =>
      have short := longest z (match?_isPrefix found)
      have same := List.IsPrefix.eq_of_length
        (List.prefix_of_prefix_length_le (match?_isPrefix found) begins short)
        (Nat.le_antisymm short (length_le_of_match? found begins))
      rw [text_injective same]

theorem isTried_cons_iff {c : Char} {s : Text} :
    IsTried (c :: s) ↔ isSymbolStart c ∧ Numeral.startsAt (c :: s) = false := by
  constructor
  · rintro ⟨-, -, numeral, -, start⟩
    exact ⟨start, numeral⟩
  · rintro ⟨start, numeral⟩
    -- The leading classes have no character in common, so that only numerals compete.
    have other {k : CharClass} (ne : k ≠ .symbolStart) (leading : k ≠ .wordPart) :
        k.has c = false := by
      apply Bool.eq_false_iff.mpr
      intro has
      exact ne (CharClass.has_unique (l := .symbolStart) has start leading)
    refine ⟨?_, other (k := .wordStart) ?_ ?_, numeral, other (k := .quote) ?_ ?_, start⟩
    · by_contra blank
      have lead := Text.lead?_of_prefix (Blank.read_isPrefix _) blank
      rw [Text.lead?_cons (k := .symbolStart) s start] at lead
      rcases (Blank.isBlank_read (c :: s)).lead? with other | other
      · cases lead.symm.trans other
      · cases lead.symm.trans other
    all_goals decide

theorem match?_eq_none_iff_of_isTried {rest : Text} (tried : IsTried rest) :
    match? rest = none ↔ ∃ s, rest = '~' :: s ∧ s.head? ≠ some '=' := by
  obtain ⟨c, s, rfl⟩ : ∃ c s, rest = c :: s := by
    cases rest with
    | nil => exact tried.elim
    | cons c s => exact ⟨c, s, rfl⟩
  have start := (isTried_cons_iff.mp tried).1
  rw [match?_eq_none_iff]
  constructor
  · intro none
    by_cases tilde : c = '~'
    · subst tilde
      refine ⟨s, rfl, ?_⟩
      intro next
      obtain ⟨t, rfl⟩ : ∃ t, s = '=' :: t := List.head?_eq_some_iff.mp next
      exact none .notEq ⟨t, rfl⟩
    · obtain ⟨y, hy⟩ := text_singleton start tilde
      refine absurd ?_ (none y)
      rw [hy]
      exact ⟨s, rfl⟩
  · rintro ⟨t, same, next⟩ y begins
    rw [same] at begins
    rw [text_of_head?_tilde (head?_text_of_isPrefix begins)] at begins
    obtain ⟨r, hr⟩ := begins
    obtain rfl : '=' :: r = t := (List.cons.inj hr).2
    exact next rfl

end Symbol

theorem Piece.read_of_isTried {c : Char} {s : Text} (tried : Symbol.IsTried (c :: s)) :
    read c s = match Symbol.match? (c :: s) with
      | some y => lexeme (.symbol y) y.text
      | none => stray c := by
  obtain ⟨none, word, numeral, quote, start⟩ := tried
  have blank : ¬ Blank.startsAt (c :: s) := fun starts => Blank.startsAt_iff.mp starts none
  rw [read, if_neg blank, word, numeral, quote, if_pos start]
  rfl

namespace Lexer

/-- The lexer takes the symbol with its next step, and does nothing else. -/
structure TakesSymbol (l : Lexer) (y : Symbol) (later : Lexer) : Prop where
  step : l.nextToken = (.plain (.symbol y) (TokenKind.symbol y).caption.toList
    ⟨l.cursor.position, later.cursor.position⟩, later)
  rest : l.cursor.rest = (TokenKind.symbol y).caption.toList ++ later.cursor.rest
  advances : later = l.skip (Text.byteLength y.text)
  offset : later.cursor.position.offset = l.cursor.position.offset + Text.byteLength y.text

/-- The lexer passes over a character as unrecognized, and its next step goes on from there. -/
structure RejectsCharacter (l : Lexer) (c : Char) (later : Lexer) : Prop where
  step : l.nextToken = later.nextToken
  rest : l.cursor.rest = c :: later.cursor.rest
  cursor : later.cursor = l.cursor.advance
  errors : later.report.errors = if l.config.admits l.report.errors.size then
    l.report.errors.push (.unrecognizedCharacter c l.cursor.position) else l.report.errors
  suppressed : later.report.suppressed = if l.config.admits l.report.errors.size then
    l.report.suppressed else l.report.suppressed + 1
  trivia : later.report.trivia = if l.config.keepTrivia then
    l.report.trivia.push ⟨.skipped, ⟨l.cursor.position, later.cursor.position⟩⟩
    else l.report.trivia
  others : later.source = l.source ∧ later.config = l.config ∧ later.ended = l.ended

theorem takesSymbol {l : Lexer} {y : Symbol} (tried : Symbol.IsTried l.cursor.rest)
    (found : Symbol.match? l.cursor.rest = some y) :
    l.TakesSymbol y (l.skip y.text.length) := by
  have begins := Symbol.match?_isPrefix found
  have bytes := l.cursor.offset_skip y.text.length
  rw [← List.prefix_iff_eq_take.mp begins] at bytes
  refine ⟨?_, ?_, ?_, bytes⟩
  · rw [TokenKind.caption_symbol]
    cases hs : l.cursor.rest with
    | nil =>
      rw [hs] at tried
      exact tried.elim
    | cons x s =>
      rw [hs] at tried found
      have piece := Piece.read_of_isTried tried
      rw [found] at piece
      exact nextToken_of_read hs piece
  · rw [TokenKind.caption_symbol]
    exact (Cursor.append_rest_skip begins).symm
  · rw [y.byteLength_text]

theorem rejectsCharacter {l : Lexer} {x : Char} {s : Text} (hs : l.cursor.rest = x :: s)
    (stray : Piece.read x s = .stray x) : l.RejectsCharacter x (l.pass (.stray x)) := by
  have none : (Piece.read x s).lexeme? = none := by
    rw [stray]
    rfl
  have step := nextToken_of_no_lexeme hs none
  rw [stray] at step
  refine ⟨step, ?_, rfl, ?_, ?_, ?_, rfl, rfl, rfl⟩
  · show _ = x :: l.cursor.advance.rest
    rw [Cursor.advance_rest, hs, List.tail_cons]
  all_goals
    simp only [pass, Placed.findings, Report.addAll_cons, Report.addAll_nil, Report.add]
    split <;> split <;> rfl

end Lexer

/-- The first symbol of the table that begins a text is the longest one, and none is found only
where none begins the text. Symbols are tried at the characters that begin one. Whatever the state
of a lexer that tries them, it finds none only before a tilde that no equals sign follows, which it
reports and passes over, and else it takes the symbol and does nothing more. -/
theorem symbol_scanning :
    (∀ rest : Text, (Symbol.match? rest = none ↔ ∀ y : Symbol, ¬ y.text <+: rest) ∧
      ∀ y : Symbol, (Symbol.match? rest = some y ↔
          y.text <+: rest ∧ ∀ z : Symbol, z.text <+: rest → z.text.length ≤ y.text.length) ∧
        (Symbol.match? rest = some y → rest.takeBytes? (Text.byteLength y.text) =
          some (TokenKind.symbol y).caption.toList)) ∧
    (∀ c : Char, isSymbolStart c ↔ ∃ y : Symbol, y.text.head? = some c) ∧
    ∀ l : Lexer, Symbol.IsTried l.cursor.rest →
      (Symbol.match? l.cursor.rest = none ↔
        ∃ s, l.cursor.rest = '~' :: s ∧ s.head? ≠ some '=') ∧
      (Symbol.match? l.cursor.rest = none → ∃ later, l.RejectsCharacter '~' later) ∧
      ∀ y : Symbol, Symbol.match? l.cursor.rest = some y →
        Text.byteLength y.text = y.text.length ∧ ∃ later, l.TakesSymbol y later := by
  refine ⟨fun rest => ⟨Symbol.match?_eq_none_iff, fun y => ⟨Symbol.match?_eq_some_iff, ?_⟩⟩,
    fun c => Symbol.isSymbolStart_iff,
    fun l tried => ⟨Symbol.match?_eq_none_iff_of_isTried tried, ?_, ?_⟩⟩
  · intro found
    obtain ⟨s, rfl⟩ := Symbol.match?_isPrefix found
    rw [TokenKind.caption_symbol]
    exact Text.takeBytes?_append y.text s
  · intro none
    obtain ⟨s, hs, -⟩ := (Symbol.match?_eq_none_iff_of_isTried tried).mp none
    rw [hs] at tried none
    have stray := Piece.read_of_isTried tried
    rw [none] at stray
    exact ⟨_, Lexer.rejectsCharacter hs stray⟩
  · exact fun y found => ⟨y.byteLength_text, _, Lexer.takesSymbol tried found⟩

theorem symbol_scanning_tilde :
    let l := Lexer.start ⟨true, 0⟩ ['~', '.', '.', '5']
    ∃ between later, l.RejectsCharacter '~' between ∧ between.TakesSymbol .dotDot later ∧
      later.report.suppressed = 1 ∧ later.cursor.rest = ['5'] := by
  intro l
  have tried : Symbol.IsTried l.cursor.rest := Symbol.isTried_cons_iff.mpr (by decide)
  obtain ⟨-, none, -⟩ := symbol_scanning.2.2 l tried
  obtain ⟨between, rejects⟩ := none (by decide)
  have rest : ['.', '.', '5'] = between.cursor.rest := (List.cons.inj rejects.rest).2
  have triedNext : Symbol.IsTried between.cursor.rest :=
    rest ▸ Symbol.isTried_cons_iff.mpr (by decide)
  obtain ⟨-, -, some⟩ := symbol_scanning.2.2 between triedNext
  obtain ⟨-, later, takes⟩ := some .dotDot (rest ▸ by decide)
  refine ⟨between, later, rejects, takes, ?_, ?_⟩
  · rw [takes.advances]
    exact rejects.suppressed
  · exact ((List.append_right_inj ['.', '.']).mp (rest.trans takes.rest)).symm

end Lexis
