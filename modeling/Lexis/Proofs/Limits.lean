import Lexis.Proofs.Stepwise

/-! What the settings keep of a run. The errors recorded under a limit are the first ones of all
that are found, the others are counted, and neither tokens nor trivia know of the limit. -/

namespace Lexis
set_option autoImplicit false

theorem Config.recorded_eq_min (config : Config) {n : Nat} (small : n < UInt64.size) :
    config.recorded n = min config.maxErrors.toNat n := by
  unfold recorded
  split
  · rename_i free
    have greatest : config.maxErrors.toNat = UInt64.size - 1 := by rw [free]; rfl
    rw [greatest]
    omega
  · rfl

namespace Report

theorem trivia_isPrefix_addAll (config : Config) (r : Report) (fs : List Finding) :
    r.trivia.toList <+: (r.addAll config fs).trivia.toList := by
  rw [trivia_addAll]
  exact List.prefix_append _ _

theorem errors_isPrefix_addAll (config : Config) (r : Report) (fs : List Finding) :
    r.errors.toList <+: (r.addAll config fs).errors.toList := by
  induction fs generalizing r with
  | nil => exact List.prefix_rfl
  | cons f fs ih =>
    refine List.IsPrefix.trans ?_ (ih (r.add config f))
    cases f with
    | passed t =>
      simp only [add]
      split <;> exact List.prefix_rfl
    | fault e =>
      simp only [add]
      split
      · rw [Array.toList_push]
        exact List.prefix_append _ _
      · exact List.prefix_rfl

end Report

theorem Quoted.length_faults_le (c : Cursor) (as : List Atom) :
    (faults c as).length ≤ (as.flatMap Atom.text).length := by
  induction as generalizing c with
  | nil => exact Nat.le_refl 0
  | cons a as ih =>
    have filled := List.length_pos_iff.mpr a.text_ne_nil
    have first : (a.invalid?.map fun e => LexicalError.invalidEscapeSequence e
        c.advance.position).toList.length ≤ 1 := by
      cases a.invalid? <;> simp
    have later := ih (c.skip a.text.length)
    rw [faults, List.length_append, List.flatMap_cons, List.length_append]
    omega

theorem Placed.length_errors_le (p : Placed) : p.errors.length ≤ p.piece.text.length := by
  obtain ⟨piece, start⟩ := p
  cases piece with
  | blank t => exact Nat.zero_le _
  | lexeme k t => exact Nat.zero_le _
  | stray x => exact Nat.le_refl 1
  | quoted l =>
    have inside := Quoted.length_faults_le start.advance l.body
    have ending : (if l.closed then [] else
        [LexicalError.unterminatedString start.position]).length ≤ 1 := by
      split <;> simp
    rw [errors_quoted, List.length_append]
    simp only [Piece.text, Quoted.text, Quoted.bodyText, List.length_cons, List.length_append]
    omega

theorem Cursor.length_errors_le (c : Cursor) :
    (c.placed.flatMap Placed.errors).length ≤ c.rest.length := by
  induction c using walk with
  | atEnd c hs => simp [placed_of_rest_nil hs]
  | onward c x s hs ih =>
    have first := Placed.length_errors_le ⟨.read x s, c⟩
    have whole := congrArg List.length (text_append_rest_stop hs)
    rw [List.length_append] at whole
    rw [placed_of_rest_cons hs, List.flatMap_cons, List.length_append]
    simp only at first
    omega

/-- The settings decide only what is kept of a run. Tokens are the same under all of them, the
recorded errors are the first ones of all, and the trivia are all or none. The greatest limit
differs from none only for a source that is longer than it. -/
theorem tokenizeWith_keeps (config other : Config) (source : Text) :
    let found := (tokenizeWith { other with maxErrors := Config.noLimit } source).errors
    let output := tokenizeWith config source
    output.stream.tokens = (tokenizeWith other source).stream.tokens ∧
      output.stream.tokens = (Lexer.start other source).drain.1 ∧
      output.errors = found.take (config.recorded found.length) ∧
      output.suppressed = found.length - config.recorded found.length ∧
      (source.length < UInt64.size →
        config.recorded found.length = min config.maxErrors.toNat found.length) ∧
      (output.isClean ↔ found = []) ∧
      output.stream.trivia = if config.keepTrivia then
        (tokenizeWith { other with keepTrivia := true } source).stream.trivia else [] := by
  intro found output
  have all : found = (Cursor.start source).placed.flatMap Placed.errors :=
    errors_tokenizeWith _ source rfl
  have records := records_tokenizeWith config source
  rw [← all] at records
  have drained : (Lexer.start other source).drain.1 = (Cursor.start source).tokens :=
    (Lexer.drain_eq rfl).1
  refine ⟨rfl, drained.symm, records.errors, records.suppressed, ?_, ?_, ?_⟩
  · intro small
    apply config.recorded_eq_min
    rw [all]
    exact Nat.lt_of_le_of_lt (Cursor.start source).length_errors_le small
  · rw [all]
    exact isClean_tokenizeWith_iff config source
  · show (tokenizeWith config source).stream.trivia = _
    rw [trivia_tokenizeWith, trivia_tokenizeWith]
    rfl

/-- Of three errors, one of them within a literal, a limit keeps the first. -/
theorem tokenizeWith_keeps_first :
    let source : Text := ['~', '\'', '\\', 'q', '\'', '~']
    source.length < UInt64.size ∧
      (tokenizeWith ⟨true, 1⟩ source).errors = [.unrecognizedCharacter '~' .start] ∧
      (tokenizeWith ⟨true, 1⟩ source).suppressed = 2 := by
  intro source
  have small : source.length < UInt64.size := by decide
  obtain ⟨-, -, errors, suppressed, recorded, -⟩ := tokenizeWith_keeps ⟨true, 1⟩ {} source
  have found : (tokenizeWith {} source).errors = [.unrecognizedCharacter '~' .start,
      .invalidEscapeSequence 'q' ⟨1, 3, 3⟩, .unrecognizedCharacter '~' ⟨1, 5, 5⟩] := by
    decide +kernel
  have all : (tokenizeWith { ({} : Config) with maxErrors := Config.noLimit } source).errors =
      (tokenizeWith {} source).errors := rfl
  rw [all, found] at errors suppressed recorded
  rw [recorded small] at errors suppressed
  exact ⟨small, errors, suppressed⟩

end Lexis
