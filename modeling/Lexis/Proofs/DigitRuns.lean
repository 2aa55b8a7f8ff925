import Lexis.Proofs.Rounds
import Lexis.Proofs.Separator
import Lexis.Proofs.Stepwise
import Lexis.Proofs.Written

/-! Runs of digits. A dot after the run makes one float of all of it, however far away it is, and
else each leading zero is an integer by itself. -/

namespace Lexis
set_option autoImplicit false

theorem Piece.read_of_isDigit {c : Char} (hc : isDigit c) (s : Text) : read c s =
    .lexeme (Numeral.read (c :: s)).1 (Numeral.read (c :: s)).2 := by
  have starts : Numeral.startsAt (c :: s) := Numeral.startsAt_cons_iff.mpr (.inl hc)
  have longest := Numeral.longest_read starts
  apply (fits_read c s).eq_lexeme longest (Numeral.isLexeme_read starts)
  rw [Text.lead?_of_prefix longest.isPrefix longest.ne_nil,
    Text.lead?_cons (k := .digit) s hc]
  simp

namespace Numeral

theorem exists_zeros (r : Text) : ∃ zeros number, r = List.replicate zeros '0' ++ number ∧
    number.head? ≠ some '0' := by
  induction r with
  | nil => exact ⟨0, [], rfl, by simp⟩
  | cons c r ih =>
    by_cases zero : c = '0'
    · obtain ⟨zeros, number, rfl, first⟩ := ih
      exact ⟨zeros + 1, number, by simp [zero, List.replicate_succ], first⟩
    · exact ⟨0, c :: r, rfl, by simpa using zero⟩

section
variable {r rest : Text} (digits : ∀ d ∈ r, isDigit d)
  (maximal : ∀ d, rest.head? = some d → isDigit d = false)
include digits maximal

theorem read_run_of_dot {s : Text} (dot : rest = '.' :: s) :
    read (r ++ rest) = (.floatLiteral, r ++ '.' :: s.takeWhile isDigit) := by
  obtain ⟨run, after⟩ := span_append digits maximal
  rw [read_of_dot (after.trans dot), run]

theorem read_run (noDot : rest.head? ≠ some '.') : read (r ++ rest) =
    (.intLiteral, if (r ++ rest).head? = some '0' then ['0'] else r) := by
  obtain ⟨run, after⟩ := span_append digits maximal
  rw [read_of_no_dot, run]
  intro s dot
  rw [after.symm.trans dot] at noDot
  exact noDot rfl

end

end Numeral

namespace Session

/-- The next steps give the tokens, which lie one behind the other from the cursor on, and they do
nothing but move the cursor over these. -/
structure Takes (s : Session) (tokens : List Token) : Prop where
  answers : s.answers (List.replicate tokens.length .nextToken) = tokens.map .token
  texts : tokens.flatMap (·.text) <+: s.lexer.cursor.rest
  later : s.after (List.replicate tokens.length .nextToken) =
    { s with lexer := s.lexer.skip (tokens.flatMap (·.text)).length }
  tiles : Tiles s.lexer.cursor.position (tokens.map (·.span))
    (s.lexer.cursor.skip (tokens.flatMap (·.text)).length).position

theorem Takes.nil (s : Session) : s.Takes [] := ⟨rfl, List.nil_prefix, rfl, .nil _⟩

theorem Takes.cons {s : Session} {k : TokenKind} {t : Text} {tokens : List Token} {x : Char}
    {r : Text} (hs : s.lexer.cursor.rest = x :: r) (piece : Piece.read x r = .lexeme k t)
    (next : Takes { s with lexer := s.lexer.skip t.length } tokens) :
    s.Takes (.plain k t ⟨s.lexer.cursor.position, (s.lexer.cursor.skip t.length).position⟩ ::
      tokens) := by
  have step := Lexer.nextToken_of_read hs piece
  have text : (Piece.read x r).text = t := congrArg Piece.text piece
  have begins : t <+: s.lexer.cursor.rest := by
    rw [hs, ← text]
    exact Piece.read_isPrefix x r
  have filled : t ≠ [] := text ▸ Piece.read_text_ne_nil x r
  have forward : s.lexer.cursor.position.offset <
      (s.lexer.cursor.skip t.length).position.offset := by
    rw [Cursor.offset_skip, ← List.prefix_iff_eq_take.mp begins]
    exact Nat.lt_add_of_pos_right (Text.byteLength_pos filled)
  have run : s.run .nextToken = (.token (.plain k t ⟨s.lexer.cursor.position,
      (s.lexer.cursor.skip t.length).position⟩), { s with lexer := s.lexer.skip t.length }) := by
    rw [Session.run, step]
  have along : (s.lexer.cursor.skip t.length).skip (tokens.flatMap (·.text)).length =
      s.lexer.cursor.skip (t ++ tokens.flatMap (·.text)).length := by
    rw [Cursor.skip_skip, List.length_append]
  obtain ⟨answers, texts, later, tiles⟩ := next
  refine ⟨?_, ?_, ?_, ?_⟩
  · rw [List.length_cons, List.replicate_succ, answers_cons, run, answers, List.map_cons]
  · rw [← Cursor.append_rest_skip begins]
    exact (List.prefix_append_right_inj t).mpr texts
  · rw [List.length_cons, List.replicate_succ, after, List.foldl_cons, run]
    refine later.trans ?_
    exact congrArg (fun c => { s with lexer := { s.lexer with cursor := c } }) along
  · rw [List.flatMap_cons, List.map_cons]
    exact .cons forward (along ▸ tiles)

theorem Takes.slice? {source : Text} {s : Session} {tokens : List Token} (h : s.Takes tokens)
    (place : s.lexer.cursor.StandsIn source) :
    source.slice? s.lexer.cursor.position.offset
      (s.after (List.replicate tokens.length .nextToken)).lexer.cursor.position.offset =
        some (tokens.flatMap (·.text)) := by
  obtain ⟨before, rfl, stands⟩ := place
  have cut := stands.slice?_skip (Nat.zero_le (tokens.flatMap (·.text)).length)
  rw [List.drop_zero, ← List.prefix_iff_eq_take.mp h.texts] at cut
  rw [h.later]
  exact cut

/-- The lexemes of a run of digits that no dot follows, with `zeros` zeros before the number. -/
def runLexemes (zeros : Nat) (number : Text) : List Lexeme :=
  List.replicate zeros ⟨.intLiteral, ['0'], none⟩ ++
    if number = [] then [] else [⟨.intLiteral, number, none⟩]

section
variable {s : Session} {rest : Text} (maximal : ∀ d, rest.head? = some d → isDigit d = false)
include maximal

theorem takes_float {r t : Text} (hs : s.lexer.cursor.rest = r ++ rest) (filled : r ≠ [])
    (digits : ∀ d ∈ r, isDigit d) (dot : rest = '.' :: t) : ∃ token, s.Takes [token] ∧
      token.toLexeme = ⟨.floatLiteral, r ++ '.' :: t.takeWhile isDigit, none⟩ := by
  obtain ⟨c, w, rfl⟩ := List.exists_cons_of_ne_nil filled
  have piece := Piece.read_of_isDigit (digits c List.mem_cons_self) (w ++ rest)
  rw [← List.cons_append, Numeral.read_run_of_dot digits maximal dot] at piece
  exact ⟨_, .cons hs piece (.nil _), rfl⟩

theorem takes_integers (noDot : rest.head? ≠ some '.') {zeros : Nat} {number : Text}
    (hs : s.lexer.cursor.rest = List.replicate zeros '0' ++ number ++ rest)
    (digits : ∀ d ∈ number, isDigit d) (first : number.head? ≠ some '0') :
    ∃ tokens, s.Takes tokens ∧ tokens.map (·.toLexeme) = runLexemes zeros number := by
  -- Each step takes one zero off, and the run that is left is read anew.
  induction zeros generalizing s with
  | zero =>
    cases number with
    | nil => exact ⟨[], .nil s, rfl⟩
    | cons c w =>
      have piece := Piece.read_of_isDigit (digits c List.mem_cons_self) (w ++ rest)
      have other : (c :: w ++ rest).head? ≠ some '0' := first
      rw [← List.cons_append, Numeral.read_run digits maximal noDot, if_neg other] at piece
      exact ⟨_, .cons hs piece (.nil _), rfl⟩
  | succ zeros ih =>
    have all : ∀ d ∈ List.replicate (zeros + 1) '0' ++ number, isDigit d := by
      intro d hd
      rcases List.mem_append.mp hd with hd | hd
      · rw [List.eq_of_mem_replicate hd]
        rfl
      · exact digits d hd
    have read := Numeral.read_run all maximal noDot
    have piece := Piece.read_of_isDigit (c := '0') rfl (List.replicate zeros '0' ++ number ++ rest)
    rw [List.replicate_succ] at hs read
    rw [List.cons_append, List.cons_append] at read
    rw [read] at piece
    have left : (s.lexer.cursor.skip 1).rest = List.replicate zeros '0' ++ number ++ rest := by
      rw [Cursor.skip_rest, hs]
      rfl
    obtain ⟨tokens, takes, lexemes⟩ := ih (s := { s with lexer := s.lexer.skip 1 }) left
    refine ⟨_, .cons hs piece takes, ?_⟩
    rw [List.map_cons, lexemes]
    rfl

end

end Session

/-- From wherever the lexer stands before a run of digits, with no digit after it, its next steps
take the run and nothing else happens. With a dot after the run there is one step, which gives a
float; else there is one step for each leading zero and one for the number that is left. -/
theorem digit_runs (config : Config) (source : Text) (commands : List Command) (r rest : Text) :
    let session := (Session.start config source).after commands
    session.lexer.cursor.rest = r ++ rest → r ≠ [] → (∀ d ∈ r, isDigit d) →
    (∀ d, rest.head? = some d → isDigit d = false) →
    ∃ tokens, session.Takes tokens ∧
      source.slice? session.lexer.cursor.position.offset
        (session.after (List.replicate tokens.length .nextToken)).lexer.cursor.position.offset =
          some (tokens.flatMap (·.text)) ∧
      (∀ s, rest = '.' :: s → tokens.map (·.toLexeme) =
        [⟨.floatLiteral, r ++ '.' :: s.takeWhile isDigit, none⟩]) ∧
      (rest.head? ≠ some '.' → ∃ zeros number, r = List.replicate zeros '0' ++ number ∧
        number.head? ≠ some '0' ∧ tokens.map (·.toLexeme) = Session.runLexemes zeros number) := by
  intro session hs filled digits maximal
  have place : session.lexer.cursor.StandsIn source :=
    ((Session.OnSource.start config source).after commands).lexer.cursor
  by_cases dot : rest.head? = some '.'
  · obtain ⟨t, ht⟩ := List.head?_eq_some_iff.mp dot
    obtain ⟨token, takes, lexeme⟩ := Session.takes_float maximal hs filled digits ht
    refine ⟨[token], takes, takes.slice? place, ?_, absurd dot⟩
    intro s hs
    obtain rfl : t = s := (List.cons.inj (ht.symm.trans hs)).2
    exact congrArg (fun l => [l]) lexeme
  · obtain ⟨zeros, number, run, first⟩ := Numeral.exists_zeros r
    obtain ⟨tokens, takes, lexemes⟩ := Session.takes_integers maximal dot (run ▸ hs)
      (fun d hd => digits d (run ▸ List.mem_append_right _ hd)) first
    refine ⟨tokens, takes, takes.slice? place, ?_, fun _ => ⟨zeros, number, run, first, lexemes⟩⟩
    rintro s rfl
    exact absurd rfl dot

theorem digit_runs_zeros :
    let split := (Session.start ⟨true, 0⟩ ['a', '0', '0', '7', ' ']).after [.advance 1]
    let joined := Session.start ⟨true, 0⟩ ['0', '0', '7', '.', '5', 'e']
    (∃ tokens, split.Takes tokens ∧ tokens.map (·.toLexeme) =
      [⟨.intLiteral, ['0'], none⟩, ⟨.intLiteral, ['0'], none⟩, ⟨.intLiteral, ['7'], none⟩]) ∧
    ∃ tokens, joined.Takes tokens ∧ tokens.map (·.toLexeme) =
      [⟨.floatLiteral, ['0', '0', '7', '.', '5'], none⟩] := by
  intro split joined
  have digits : ∀ d ∈ ['0', '0', '7'], isDigit d := by simp [isDigit]
  constructor
  · obtain ⟨tokens, takes, -, -, integers⟩ := digit_runs ⟨true, 0⟩ ['a', '0', '0', '7', ' ']
      [.advance 1] ['0', '0', '7'] [' '] (by decide) (by simp) digits (by simp [isDigit])
    obtain ⟨zeros, number, run, first, lexemes⟩ := integers (by decide)
    refine ⟨tokens, takes, lexemes.trans ?_⟩
    rcases zeros with _ | _ | _ | zeros
    · obtain rfl : _ = number := run
      exact absurd rfl first
    · obtain rfl : _ = number := (List.cons.inj run).2
      exact absurd rfl first
    · obtain rfl : _ = number := (List.cons.inj (List.cons.inj run).2).2
      rfl
    · simp [List.replicate_succ] at run
  · obtain ⟨tokens, takes, -, float, -⟩ := digit_runs ⟨true, 0⟩ ['0', '0', '7', '.', '5', 'e'] []
      ['0', '0', '7'] ['.', '5', 'e'] (by decide) (by simp) digits (by simp [isDigit])
    exact ⟨tokens, takes, float _ rfl⟩

end Lexis
