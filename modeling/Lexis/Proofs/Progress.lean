import Lexis.Proofs.Limits
import Lexis.Proofs.Logging

/-! Every step takes the lexer forward or is at the end. The loops behind a step and behind a whole
run stop within as many rounds as there are characters, and no more is ever counted than those. -/

namespace Lexis
set_option autoImplicit false

namespace Cursor

/-- The next token in at most so many rounds, where a round passes over one piece. -/
def nextWithin : (rounds : Nat) → Cursor → Option Step
  | 0, _ => none
  | n + 1, c =>
    match c.rest with
    | [] => some ⟨.endOfInput c.position, [], c⟩
    | x :: s =>
      let p : Placed := ⟨.read x s, c⟩
      match p.token? with
      | some t => some ⟨t, p.findings, p.stop⟩
      | none => (nextWithin n p.stop).map fun later =>
          ⟨later.token, p.findings ++ later.findings, later.cursor⟩

/-- What a step from a cursor comes to: a token that lies behind the cursor, or the end. -/
inductive Progress (source : Text) (c : Cursor) (step : Step) : Prop where
  | token : step.token.kind ≠ .endOfInput → step.token.text ≠ [] →
    c.position.offset ≤ step.token.span.start.offset →
    step.token.span.start.offset < step.token.span.stop.offset →
    step.cursor.position = step.token.span.stop →
    step.token.span.slice? source = some step.token.text → Progress source c step
  | finish : step.token = .endOfInput step.cursor.position → step.cursor.isAtEnd →
    step.cursor.position.offset = Text.byteLength source → Progress source c step

end Cursor

namespace Lexer

/-- All tokens up to the end of the input in at most so many steps, each of at most so many
rounds. -/
def tokensWithin (rounds : Nat) : (steps : Nat) → Lexer → Option (List Token × Lexer)
  | 0, _ => none
  | n + 1, l =>
    match l.cursor.nextWithin rounds with
    | none => none
    | some step =>
      if step.token.kind = .endOfInput then some ([step.token], l.after step)
      else (tokensWithin rounds n (l.after step)).map fun later => (step.token :: later.1, later.2)

/-- What a lexer puts out when it has given the tokens. -/
def output (l : Lexer) (tokens : List Token) : Output :=
  ⟨⟨l.source, tokens, l.report.trivia.toList⟩, l.report.errors.toList, l.report.suppressed⟩

end Lexer

namespace Cursor

theorem nextWithin_eq {c : Cursor} {rounds : Nat} (enough : c.rest.length < rounds) :
    c.nextWithin rounds = some c.next := by
  -- Each round leaves less of the text, so that one round more than there are characters will do.
  induction c using walk generalizing rounds with
  | atEnd c hs =>
    obtain ⟨n, rfl⟩ : ∃ n, rounds = n + 1 := ⟨rounds - 1, by omega⟩
    rw [nextWithin, next_of_rest_nil hs]
    simp only [hs]
  | onward c x s hs ih =>
    obtain ⟨n, rfl⟩ : ∃ n, rounds = n + 1 := ⟨rounds - 1, by omega⟩
    have shorter := stop_rest_length_lt hs
    have later := ih (Nat.lt_of_lt_of_le shorter (Nat.le_of_lt_succ enough))
    rw [nextWithin]
    simp only [hs]
    cases ht : Placed.token? ⟨.read x s, c⟩ with
    | some t => rw [next_of_token hs ht]
    | none =>
      rw [next_of_no_token hs ht]
      simp only [later, Option.map_some]

theorem After.offset_le_skip {before : Text} {c : Cursor} (h : c.After before) (n : Nat) :
    c.position.offset ≤ (c.skip n).position.offset := by
  rw [h.offset, (h.skip n).offset, Text.byteLength_append]
  exact Nat.le_add_right _ _

theorem StandsIn.progress {source : Text} {c : Cursor} (h : c.StandsIn source) :
    c.Progress source c.next := by
  have cut := h.slice?_next
  obtain ⟨before, rfl, after⟩ := h
  obtain ⟨n, ⟨atEnd, token, cursor⟩ | ⟨x, s, t, hs, ht, token, cursor⟩⟩ := c.next_cases
  · have front := c.skip_rest n
    have place := after.skip n
    refine .finish (by rw [token, cursor]) ?_ ?_
    · rw [cursor, isAtEnd, atEnd]
      rfl
    · rw [cursor, place.offset]
      rw [atEnd] at front
      rw [List.take_of_length_le (List.drop_eq_nil_iff.mp front.symm)]
  · have place := after.skip n
    obtain ⟨span, text⟩ := Placed.token?_eq_some ht
    obtain ⟨l, hl, rfl⟩ := Option.map_eq_some_iff.mp ht
    have forward := after.offset_le_skip n
    have further := place.offset_lt_stop hs
    refine .token ?_ ?_ ?_ ?_ ?_ cut
    · rw [token]
      exact Piece.kind_ne_endOfInput hl
    · rw [token, text]
      exact Piece.read_text_ne_nil x s
    · rw [token]
      exact forward
    · rw [token]
      exact further
    · rw [token, cursor]
      rfl

end Cursor

namespace Lexer

theorem tokensWithin_eq {l : Lexer} (running : l.ended = false) {rounds steps : Nat}
    (roundsEnough : l.cursor.rest.length < rounds) (stepsEnough : l.cursor.rest.length < steps) :
    l.tokensWithin rounds steps = some l.drain := by
  -- So does each step but the last, and the lexer that is left still has not ended.
  induction steps generalizing l with
  | zero => omega
  | succ n ih =>
    have step := Cursor.nextWithin_eq roundsEnough
    have going : ¬ l.ended := by simp [running]
    rw [tokensWithin, drain, if_neg going]
    simp only [step]
    rcases l.cursor.next_progress with ⟨last, -⟩ | ⟨more, shorter⟩
    · have ended : (l.after l.cursor.next).ended := by simp [after, last]
      have none : (l.after l.cursor.next).drain = ([], l.after l.cursor.next) := by
        rw [drain, if_pos ended]
      rw [if_pos last, nextToken, none]
    · have running' : (l.after l.cursor.next).ended = false := by simp [after, running, more]
      have later := ih running' (Nat.lt_trans shorter roundsEnough)
        (Nat.lt_of_lt_of_le shorter (Nat.le_of_lt_succ stepsEnough))
      rw [if_neg more, later]
      rfl

end Lexer

namespace Placed

def blanks (p : Placed) : List Trivia := p.trivia?.toList.filter (·.kind = .whitespace)

theorem count_le {p : Placed} (filled : p.piece.text ≠ []) :
    p.token?.toList.length + p.errors.length + p.blanks.length ≤ p.piece.text.length := by
  have size := List.length_pos_iff.mpr filled
  obtain ⟨piece, start⟩ := p
  cases piece with
  | blank t => exact Nat.le_trans (Nat.le_of_eq rfl) size
  | lexeme k t => exact Nat.le_trans (Nat.le_of_eq rfl) size
  | stray x => exact Nat.le_refl 1
  | quoted l =>
    -- The token, or the fault of a literal that is not closed, is set against the first quote.
    have inside := Quoted.length_faults_le start.advance l.body
    have text : l.text.length = (l.body.flatMap Atom.text).length +
        (Quoted.ending l.quote l.closed).length + 1 := by
      rw [Quoted.text, List.length_cons, List.length_append, Quoted.bodyText]
    rw [errors_quoted, List.length_append, Piece.text, text]
    cases closed : l.closed with
    | true =>
      have token : (token? ⟨.quoted l, start⟩).toList.length = 1 := by
        simp [token?, Piece.lexeme?, closed]
      have blanks : (blanks ⟨.quoted l, start⟩).length = 0 := by simp [blanks, trivia?, closed]
      have ending : (Quoted.ending l.quote true).length = 1 := rfl
      rw [token, blanks, ending, if_pos rfl, List.length_nil]
      omega
    | false =>
      have token : (token? ⟨.quoted l, start⟩).toList.length = 0 := by
        simp [token?, Piece.lexeme?, closed]
      have blanks : (blanks ⟨.quoted l, start⟩).length = 0 := by simp [blanks, trivia?, closed]
      rw [token, blanks, if_neg Bool.false_ne_true, List.length_singleton]
      omega

end Placed

theorem Cursor.count_le (c : Cursor) :
    (c.placed.filterMap Placed.token?).length + (c.placed.flatMap Placed.errors).length +
      (c.placed.flatMap Placed.blanks).length ≤ c.rest.length := by
  induction c using walk with
  | atEnd c hs => simp [placed_of_rest_nil hs]
  | onward c x s hs ih =>
    have first := Placed.count_le (p := ⟨.read x s, c⟩) (Piece.read_text_ne_nil x s)
    have whole := congrArg List.length (text_append_rest_stop hs)
    rw [List.length_append] at whole
    rw [List.filterMap_eq_flatMap_toList] at ih ⊢
    rw [placed_of_rest_cons hs, List.flatMap_cons, List.flatMap_cons, List.flatMap_cons,
      List.length_append, List.length_append, List.length_append]
    simp only at first
    omega

section
variable (config : Config) (source : Text)

theorem length_tokens : ((tokenizeWith config source).stream.tokens.filter
    (·.kind ≠ .endOfInput)).length =
      ((Cursor.start source).placed.filterMap Placed.token?).length := by
  have h := Cursor.After.start source
  have proper : ((Cursor.start source).placed.filterMap Placed.token?).filter
      (·.kind ≠ .endOfInput) = (Cursor.start source).placed.filterMap Placed.token? := by
    apply List.filter_eq_self.mpr
    intro t ht
    exact decide_eq_true (h.covers_of_mem_tokens ht).1
  rw [tokens_tokenizeWith, List.filter_append, proper]
  exact congrArg List.length (List.append_nil _)

theorem length_blanks : ((tokenizeWith { config with keepTrivia := true }
    source).stream.trivia.filter (·.kind = .whitespace)).length =
      ((Cursor.start source).placed.flatMap Placed.blanks).length := by
  rw [trivia_of_keepTrivia _ source rfl, Cursor.trivia, List.filterMap_eq_flatMap_toList,
    List.filter_flatMap]
  rfl

theorem errorCount_le {found : List Finding}
    (sofar : found <+: (Lexer.start config source).remainingFindings) :
    (Report.addAll config {} found).errorCount ≤ source.length := by
  have records := (Report.Records.empty config).addAll found
  have all := (Cursor.start source).length_errors_le
  have part := (sofar.filterMap Finding.error?).length_le
  rw [Lexer.remainingFindings, List.filterMap_flatMap] at part
  rw [records.errorCount, List.nil_append]
  exact Nat.le_trans part all

/-- From wherever a lexer stands a step ends, with a token that lies behind or with the end of the
source, and so does a whole run. Tokens, errors and blanks are together no more than the characters
of the source, so that integers that hold its length hold every count of its errors. -/
theorem lexing_progresses :
    (∀ (commands : List Command) (rounds : Nat), source.length < rounds →
      let lexer := ((Session.start config source).after commands).lexer
      ∃ step, lexer.cursor.nextWithin rounds = some step ∧
        lexer.nextToken = (step.token, lexer.after step) ∧ lexer.cursor.Progress source step) ∧
    (∀ rounds steps : Nat, source.length < rounds → source.length < steps →
      ((Lexer.start config source).tokensWithin rounds steps).map
        (fun run => run.2.output run.1) = some (tokenizeWith config source)) ∧
    (let output := tokenizeWith config source
      let kept := tokenizeWith { config with keepTrivia := true } source
      (output.stream.tokens.filter (·.kind ≠ .endOfInput)).length +
          output.errors.length + output.suppressed +
          (kept.stream.trivia.filter (·.kind = .whitespace)).length ≤ source.length ∧
        (tokenizationLog config source).getLast? = some (.summary (Text.byteLength source)
          output.stream.tokens.length (output.errors.length + output.suppressed))) ∧
    (∀ found, found <+: (Lexer.start config source).remainingFindings →
      (Report.addAll config {} found).errorCount ≤ source.length ∧
        ∀ size, Text.byteLength source < size →
          (Report.addAll config {} found).errorCount < size) := by
  refine ⟨?_, ?_, ⟨?_, ?_⟩, ?_⟩
  · intro commands rounds enough lexer
    obtain ⟨⟨-, cursor⟩, -⟩ := (Session.OnSource.start config source).after commands
    have left : lexer.cursor.rest.length ≤ source.length := by
      obtain ⟨before, whole, -⟩ := cursor
      rw [← whole, List.length_append]
      exact Nat.le_add_left _ _
    exact ⟨_, Cursor.nextWithin_eq (Nat.lt_of_le_of_lt left enough), rfl, cursor.progress⟩
  · intro rounds steps roundsEnough stepsEnough
    have same : (Lexer.start config source).drain.2.source = source := by
      rw [(Lexer.drain_eq rfl).2]
      rfl
    rw [Lexer.tokensWithin_eq rfl roundsEnough stepsEnough, tokenizeWith,
      Lexer.tokenize_eq_drain rfl, Option.map_some, Lexer.output, same]
    rfl
  · have all := (Cursor.start source).count_le
    have tokens := length_tokens config source
    have blanks := length_blanks config source
    have counted := length_errors_tokenizeWith config source
    have length : (Cursor.start source).rest.length = source.length := rfl
    omega
  · rw [tokenizationLog_eq, List.getLast?_concat]
  · intro found sofar
    have le := errorCount_le config source sofar
    have bytes := Text.length_le_byteLength source
    exact ⟨le, fun size small => by omega⟩

end

theorem lexing_progresses_escapes :
    let source : Text := ['\'', '\\', 'q', '\\', 'q', '\'', ' ', '~']
    let config : Config := ⟨false, 1⟩
    (∃ step, ((Session.start config source).after [.advance 3]).lexer.cursor.nextWithin 9 =
        some step ∧ step.token.kind = .identifier) ∧
      ((Lexer.start config source).tokensWithin 9 9).map (fun run => run.2.output run.1) =
        some (tokenizeWith config source) ∧
      (tokenizeWith config source).suppressed = 2 ∧
      (Lexer.start config source).finalReport.errorCount < UInt32.size := by
  intro source config
  have room : source.length < 9 := by decide
  obtain ⟨step, run, -, counts⟩ := lexing_progresses config source
  obtain ⟨first, given, same, -⟩ := step [.advance 3] 9 room
  have named : ((Session.start config source).after [.advance 3]).lexer.nextToken.1.kind =
      .identifier := by decide +kernel
  have counted : (tokenizeWith config source).suppressed = 2 := by decide +kernel
  have small : Text.byteLength source < UInt32.size := by decide
  rw [same] at named
  exact ⟨⟨first, given, named⟩, run 9 9 room room, counted,
    (counts _ (List.prefix_refl _)).2 UInt32.size small⟩

end Lexis
