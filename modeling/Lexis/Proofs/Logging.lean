import Lexis.Log
import Lexis.Proofs.Attribution
import Lexis.Proofs.Stepwise

/-! The log of a run against its output. Every error is logged, whatever the limit, and every trivia
that is kept; what was skipped is logged directly behind the error that it was skipped for. -/

namespace Lexis
set_option autoImplicit false

namespace Event

def errorText? : Event → Option String
  | error e => some e.message
  | _ => none

def triviaText? : Event → Option (TriviaKind × String)
  | trivia t => some (t.kind, t.span.display)
  | _ => none

theorem isSome_errorText? (e : Event) : e.errorText?.isSome ↔ e.message = "lexical error" := by
  cases e <;> simp [errorText?, message]

/-- Events in which nothing skipped is logged but directly behind the error it is skipped for. -/
inductive Paired (source : Text) : List Event → Prop where
  | nil : Paired source []
  | plain {e : Event} {es : List Event} : (∀ t, e = .trivia t → t.kind = .whitespace) →
    Paired source es → Paired source (e :: es)
  | skipped {e : LexicalError} {t : Trivia} {es : List Event} : e.Skips source t →
    Paired source es → Paired source (.error e :: .trivia t :: es)

namespace Paired
variable {source : Text} {es fs : List Event}

theorem append (h : Paired source es) (h' : Paired source fs) : Paired source (es ++ fs) := by
  induction h with
  | nil => exact h'
  | plain blank _ ih => exact .plain blank ih
  | skipped skips _ ih => exact .skipped skips ih

theorem flatMap {α : Type} {l : List α} {f : α → List Event} (h : ∀ a ∈ l, Paired source (f a)) :
    Paired source (l.flatMap f) := by
  induction l with
  | nil => exact .nil
  | cons a l ih =>
    obtain ⟨first, later⟩ := List.forall_mem_cons.mp h
    exact first.append (ih later)

theorem errors (l : List LexicalError) : Paired source (l.map .error) := by
  induction l with
  | nil => exact .nil
  | cons e l ih => exact .plain (fun t ht => by cases ht) ih

theorem exists_error (h : Paired source es) {front back : List Event} {t : Trivia}
    (split : es = front ++ .trivia t :: back) (skipped : t.kind = .skipped) :
    ∃ before e, front = before ++ [.error e] ∧ e.Skips source t := by
  induction h generalizing front with
  | nil => simp at split
  | @plain e es blank _ ih =>
    cases front with
    | nil =>
      obtain ⟨rfl, -⟩ := List.cons.inj split
      cases (blank t rfl).symm.trans skipped
    | cons f front =>
      obtain ⟨rfl, later⟩ := List.cons.inj split
      obtain ⟨before, e', rfl, skips⟩ := ih later
      exact ⟨_ :: before, e', rfl, skips⟩
  | @skipped e v es skips _ ih =>
    -- The trivia is the one of the pair, or it stands behind both.
    match front with
    | [] => cases (List.cons.inj split).1
    | [f] =>
      obtain ⟨rfl, rest⟩ := List.cons.inj split
      obtain ⟨same, -⟩ := List.cons.inj rest
      obtain rfl := Event.trivia.inj same
      exact ⟨[], e, rfl, skips⟩
    | f :: g :: front =>
      obtain ⟨rfl, rest⟩ := List.cons.inj split
      obtain ⟨rfl, later⟩ := List.cons.inj rest
      obtain ⟨before, e', rfl, skips⟩ := ih later
      exact ⟨_ :: _ :: before, e', rfl, skips⟩

end Paired

end Event

namespace Config
variable (config : Config) (fs : List Finding)

theorem errorTexts_events : (fs.filterMap config.event?).filterMap Event.errorText? =
    (fs.filterMap Finding.error?).map LexicalError.message := by
  rw [List.filterMap_filterMap, List.map_filterMap]
  apply List.filterMap_congr
  intro f _
  cases f with
  | fault e => rfl
  | passed t =>
    rw [event?]
    split <;> rfl

theorem triviaTexts_events : (fs.filterMap config.event?).filterMap Event.triviaText? =
    if config.keepTrivia then
      (fs.filterMap Finding.trivia?).map fun t => (t.kind, t.span.display) else [] := by
  rw [List.filterMap_filterMap]
  split
  · rename_i kept
    rw [List.map_filterMap]
    apply List.filterMap_congr
    intro f _
    cases f with
    | fault e => rfl
    | passed t =>
      rw [event?, if_pos kept]
      rfl
  · rename_i dropped
    apply List.filterMap_eq_nil_iff.mpr
    intro f _
    cases f with
    | fault e => rfl
    | passed t =>
      rw [event?, if_neg dropped]
      rfl

theorem filter_events : (fs.filterMap { config with keepTrivia := true }.event?).filter
    (·.message ≠ "trivia") = fs.filterMap { config with keepTrivia := false }.event? := by
  rw [List.filter_filterMap]
  apply List.filterMap_congr
  intro f _
  cases f <;> rfl

theorem message_ne_of_event? {config : Config} {f : Finding} {e : Event}
    (h : config.event? f = some e) : e.message ≠ "tokenized source" := by
  cases f with
  | fault _ =>
    obtain rfl := Option.some.inj h
    simp [Event.message]
  | passed _ =>
    simp only [event?, Option.ite_none_right_eq_some] at h
    obtain ⟨-, h⟩ := h
    obtain rfl := Option.some.inj h
    simp [Event.message]

theorem events_faults (es : List LexicalError) :
    (es.map Finding.fault).filterMap config.event? = es.map Event.error := by
  rw [List.filterMap_map, ← List.filterMap_eq_map]
  rfl

end Config

theorem Placed.paired_events (config : Config) {front : Text} {c : Cursor} {x : Char} {s : Text}
    (h : c.After front) (hs : c.rest = x :: s) :
    Event.Paired (front ++ c.rest) ((findings ⟨.read x s, c⟩).filterMap config.event?) := by
  have skips := forall₂_skips h hs
  -- Where no trivia are kept, only the error of the pair is logged.
  have pair {e : LexicalError} {t : Trivia} (skips : e.Skips (front ++ c.rest) t) :
      Event.Paired (front ++ c.rest)
        ([Finding.fault e, Finding.passed t].filterMap config.event?) := by
    cases kept : config.keepTrivia with
    | true => simpa [Config.event?, kept] using Event.Paired.skipped skips .nil
    | false => simpa [Config.event?, kept] using Event.Paired.errors [e]
  cases hp : Piece.read x s with
  | blank t =>
    cases kept : config.keepTrivia with
    | true =>
      simpa [findings, Config.event?, kept] using Event.Paired.plain (by simp) .nil
    | false => simpa [findings, Config.event?, kept] using Event.Paired.nil
  | lexeme k t => exact .nil
  | stray y =>
    rw [hp] at skips
    cases skips with
    | cons first _ => exact pair first
  | quoted l =>
    rw [findings, List.filterMap_append, Config.events_faults]
    refine (Event.Paired.errors _).append ?_
    cases hc : l.closed with
    | true => exact .nil
    | false =>
      rw [hp, trivia?_of_not_closed hc, errors_quoted, List.filter_append, Cursor.drops_faults,
        List.nil_append, hc] at skips
      cases skips with
      | cons first _ => exact pair first

namespace Lexer

/-- The events of the findings that are left, whichever step comes upon them. -/
theorem drainEvents_eq {l : Lexer} (running : l.ended = false) :
    l.drainEvents = l.remainingFindings.filterMap l.config.event? := by
  fun_induction drainEvents l with
  | case1 l ended => cases running.symm.trans ended
  | case2 l _ ih =>
    have found : l.remainingFindings =
        l.cursor.next.findings ++ l.nextToken.2.remainingFindings := l.cursor.findings_next
    have events : l.nextToken.2.drainEvents =
        l.nextToken.2.remainingFindings.filterMap l.config.event? := by
      rcases l.nextToken_cases with ⟨-, same, -⟩ | ⟨-, ended, -, finish⟩
      · exact ih (same.trans running)
      · -- The last step leaves nothing to be found.
        have atEnd : l.nextToken.2.cursor.rest = [] :=
          (congrArg Cursor.rest finish).trans l.cursor.finish_rest
        rw [drainEvents, if_pos ended, remainingFindings, Cursor.placed_of_rest_nil atEnd]
        rfl
    rw [found, List.filterMap_append, nextEvents, events]

theorem log_eq (l : Lexer) : l.log = l.remainingFindings.filterMap l.config.event? ++
    [.summary (Text.byteLength l.source) l.remainingTokens.length l.finalReport.errorCount] := by
  obtain ⟨tokens, reached⟩ := drain_eq (l := { l with ended := false }) rfl
  rw [log, drainEvents_eq rfl, tokens, reached]
  rfl

end Lexer

section
variable (config : Config) (source : Text)

theorem tokenizationLog_eq :
    let output := tokenizeWith config source
    tokenizationLog config source =
      ((Cursor.start source).placed.flatMap Placed.findings).filterMap config.event? ++
        [.summary (Text.byteLength source) output.stream.tokens.length
          (output.errors.length + output.suppressed)] := by
  intro output
  rw [← errorCount_tokenizeWith, tokenizationLog, Lexer.log_eq]
  rfl

theorem errorTexts_tokenizationLog : (tokenizationLog config source).filterMap Event.errorText? =
    ((Cursor.start source).placed.flatMap Placed.errors).map LexicalError.message := by
  rw [tokenizationLog_eq, List.filterMap_append, Config.errorTexts_events, List.filterMap_flatMap]
  exact List.append_nil _

theorem triviaTexts_tokenizationLog : (tokenizationLog config source).filterMap Event.triviaText? =
    (tokenizeWith config source).stream.trivia.map fun t => (t.kind, t.span.display) := by
  rw [tokenizationLog_eq, List.filterMap_append, Config.triviaTexts_events,
    Cursor.filterMap_trivia?_findings, trivia_tokenizeWith]
  split
  · exact List.append_nil _
  · rfl

theorem countP_tokenizationLog :
    (tokenizationLog config source).countP (·.message = "lexical error") =
      ((Cursor.start source).placed.flatMap Placed.errors).length := by
  rw [← List.length_map LexicalError.message, ← errorTexts_tokenizationLog config source,
    List.length_filterMap_eq_countP]
  exact List.countP_congr fun e _ => decide_eq_true_iff.trans e.isSome_errorText?.symm

theorem paired_tokenizationLog : Event.Paired source (tokenizationLog config source) := by
  rw [tokenizationLog_eq, List.filterMap_flatMap]
  refine Event.Paired.append (.flatMap ?_) (.plain (fun t ht => by cases ht) .nil)
  refine (Cursor.After.start source).forall_placed ?_
  intro front d x s after hs whole
  have paired := Placed.paired_events config after hs
  rwa [whole] at paired

end

/-- The log tells of the run what the output tells, and of every error. The errors logged are those
of a run without limit, the trivia those of the stream, and the summary comes last and counts what
was logged. -/
theorem tokenizationLog_tells (config : Config) (source : Text) :
    let log := tokenizationLog config source
    let output := tokenizeWith config source
    log.filterMap Event.errorText? =
        (tokenizeWith { config with maxErrors := Config.noLimit } source).errors.map
          LexicalError.message ∧
      log.filterMap Event.triviaText? =
        output.stream.trivia.map (fun t => (t.kind, t.span.display)) ∧
      (tokenizationLog { config with keepTrivia := false } source).filterMap Event.triviaText? =
        [] ∧
      (∀ front t back, log = front ++ .trivia t :: back → t.kind = .skipped →
        ∃ before e, front = before ++ [.error e] ∧ e.Skips source t) ∧
      (∃ events, log = events ++ [.summary (Text.byteLength source) output.stream.tokens.length
          (output.errors.length + output.suppressed)] ∧
        ∀ e ∈ events, e.message ≠ "tokenized source") ∧
      output.errors.length + output.suppressed = log.countP (·.message = "lexical error") ∧
      (tokenizationLog { config with keepTrivia := true } source).filter (·.message ≠ "trivia") =
        tokenizationLog { config with keepTrivia := false } source := by
  intro log output
  refine ⟨?_, triviaTexts_tokenizationLog config source, ?_, ?_, ?_, ?_, ?_⟩
  · rw [errors_tokenizeWith _ source rfl]
    exact errorTexts_tokenizationLog config source
  · rw [triviaTexts_tokenizationLog, trivia_tokenizeWith]
    rfl
  · exact fun front t back split skipped =>
      (paired_tokenizationLog config source).exists_error split skipped
  · refine ⟨_, tokenizationLog_eq config source, ?_⟩
    intro e he
    obtain ⟨f, -, event⟩ := List.mem_filterMap.mp he
    exact Config.message_ne_of_event? event
  · exact (length_errors_tokenizeWith config source).trans
      (countP_tokenizationLog config source).symm
  · rw [tokenizationLog_eq, tokenizationLog_eq, List.filter_append, Config.filter_events,
      length_errors_tokenizeWith, length_errors_tokenizeWith]
    rfl

/-- Of three errors one is recorded and all are logged. The escape in the literal comes first, and
the rest of the source directly behind the error of the quote. -/
theorem tokenizationLog_tells_open_literal :
    let source : Text := ['~', '\'', '\\', 'q']
    let front : List Event := [.error (.unrecognizedCharacter '~' .start),
      .trivia ⟨.skipped, ⟨.start, ⟨1, 1, 1⟩⟩⟩, .error (.invalidEscapeSequence 'q' ⟨1, 3, 3⟩),
      .error (.unterminatedString ⟨1, 1, 1⟩)]
    let rest : Trivia := ⟨.skipped, ⟨⟨1, 1, 1⟩, ⟨1, 4, 4⟩⟩⟩
    tokenizationLog ⟨true, 1⟩ source = front ++ .trivia rest :: [.summary 4 1 3] ∧
      rest.kind = .skipped ∧
      (∃ before e, front = before ++ [.error e] ∧ e.Skips source rest) ∧
      (tokenizeWith ⟨true, 1⟩ source).errors.length +
        (tokenizeWith ⟨true, 1⟩ source).suppressed = 3 := by
  intro source front rest
  obtain ⟨-, -, -, behind, -, counted, -⟩ := tokenizationLog_tells ⟨true, 1⟩ source
  have whole : tokenizationLog ⟨true, 1⟩ source =
      front ++ .trivia rest :: [.summary 4 1 3] := by decide +kernel
  refine ⟨whole, rfl, behind front rest _ whole rfl, ?_⟩
  rw [counted, whole]
  rfl

end Lexis
