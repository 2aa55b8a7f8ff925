import Lexis.Lexer
import Mathlib.Data.List.Basic

/-! What the findings of a source turn into: the trivia of a stream and its errors, each in the
order of the findings, with the errors beyond the limit counted only. -/

namespace Lexis
set_option autoImplicit false

namespace Finding

def error? : Finding → Option LexicalError
  | fault e => some e
  | passed _ => none

def trivia? : Finding → Option Trivia
  | fault _ => none
  | passed t => some t

end Finding

namespace Config

/-- How many of `n` errors are recorded. -/
def recorded (config : Config) (n : Nat) : Nat :=
  if config.maxErrors = noLimit then n else min config.maxErrors.toNat n

variable (config : Config)

theorem recorded_of_noLimit {config : Config} (free : config.maxErrors = noLimit) (n : Nat) :
    config.recorded n = n := if_pos free

theorem recorded_le (n : Nat) : config.recorded n ≤ n := by
  unfold recorded
  split
  · exact Nat.le_refl n
  · exact Nat.min_le_right _ n

theorem recorded_of_admits {n : Nat} (room : config.admits (config.recorded n)) :
    config.recorded n = n ∧ config.recorded (n + 1) = n + 1 := by
  unfold recorded admits at *
  by_cases free : config.maxErrors = noLimit
  · simp [free]
  · simp only [free, decide_false, Bool.false_or, decide_eq_true_eq, if_false] at room ⊢
    omega

theorem recorded_of_not_admits {n : Nat} (full : ¬ config.admits (config.recorded n)) :
    config.recorded (n + 1) = config.recorded n := by
  unfold recorded admits at *
  by_cases free : config.maxErrors = noLimit
  · simp [free] at full
  · simp only [free, decide_false, Bool.false_or, decide_eq_true_eq, if_false] at full ⊢
    omega

end Config

namespace Report

theorem trivia_addAll (config : Config) (r : Report) (fs : List Finding) :
    (r.addAll config fs).trivia.toList =
      r.trivia.toList ++ if config.keepTrivia then fs.filterMap Finding.trivia? else [] := by
  induction fs generalizing r with
  | nil => simp
  | cons f fs ih =>
    rw [addAll_cons, ih]
    cases f with
    | fault e =>
      have same : (r.add config (.fault e)).trivia = r.trivia := by
        simp only [add]
        split <;> rfl
      rw [same]
      rfl
    | passed t =>
      by_cases hk : config.keepTrivia
      · simp [add, hk, Finding.trivia?]
      · simp [add, hk]

/-- The report is what the limit keeps of the errors in `found`. -/
structure Records (config : Config) (found : List LexicalError) (r : Report) : Prop where
  errors : r.errors.toList = found.take (config.recorded found.length)
  suppressed : r.suppressed = found.length - config.recorded found.length

namespace Records
variable {config : Config} {found : List LexicalError} {r : Report}

theorem empty (config : Config) : Records config [] {} := ⟨by simp, by simp⟩

theorem size_errors (h : Records config found r) :
    r.errors.size = config.recorded found.length := by
  rw [← Array.length_toList, h.errors, List.length_take]
  exact Nat.min_eq_left (config.recorded_le _)

theorem fault (h : Records config found r) (e : LexicalError) :
    Records config (found ++ [e]) (r.add config (.fault e)) := by
  have length : (found ++ [e]).length = found.length + 1 := List.length_append
  have le := config.recorded_le found.length
  have errors := h.errors
  have suppressed := h.suppressed
  -- While there is room all errors are recorded, and from then on no more of them.
  by_cases room : config.admits (config.recorded found.length)
  · obtain ⟨all, next⟩ := config.recorded_of_admits room
    rw [← h.size_errors] at room
    rw [all, List.take_length] at errors
    rw [add, if_pos room]
    refine ⟨?_, ?_⟩
    · rw [Array.toList_push, errors, length, next, ← length, List.take_length]
    · rw [length, next, suppressed, all, Nat.sub_self, Nat.sub_self]
  · have next := config.recorded_of_not_admits room
    rw [← h.size_errors] at room
    rw [add, if_neg room]
    refine ⟨?_, ?_⟩
    · rw [errors, length, next, List.take_append_of_le_length le]
    · show r.suppressed + 1 = _
      rw [suppressed, length, next]
      omega

theorem passed (h : Records config found r) (t : Trivia) :
    Records config found (r.add config (.passed t)) := by
  rw [add]
  split
  · exact ⟨h.errors, h.suppressed⟩
  · exact h

theorem addAll (h : Records config found r) (fs : List Finding) :
    Records config (found ++ fs.filterMap Finding.error?) (r.addAll config fs) := by
  induction fs generalizing found r with
  | nil => simpa using h
  | cons f fs ih =>
    rw [addAll_cons]
    cases f with
    | fault e =>
      have later := ih (h.fault e)
      rwa [List.append_assoc] at later
    | passed t => exact ih (h.passed t)

theorem errorCount (h : Records config found r) : r.errorCount = found.length := by
  have le := config.recorded_le found.length
  rw [Report.errorCount, h.size_errors, h.suppressed]
  omega

theorem isEmpty_iff (h : Records config found r) :
    (r.errors.toList = [] ∧ r.suppressed = 0) ↔ found = [] := by
  constructor
  · rintro ⟨none, uncounted⟩
    have size : r.errors.size = 0 := by rw [← Array.length_toList, none]; rfl
    have recorded := h.size_errors
    have counted := h.suppressed
    apply List.length_eq_zero_iff.mp
    omega
  · rintro rfl
    exact ⟨by simp [h.errors], by simp [h.suppressed]⟩

end Records

end Report

namespace Placed

def errors (p : Placed) : List LexicalError := p.findings.filterMap Finding.error?

/-- The trivia of a piece that gives no token. -/
def trivia? (p : Placed) : Option Trivia :=
  match p.piece with
  | .blank _ => some ⟨.whitespace, p.span⟩
  | .lexeme _ _ => none
  | .quoted l => if l.closed then none else some ⟨.skipped, p.span⟩
  | .stray _ => some ⟨.skipped, p.span⟩

theorem filterMap_trivia?_findings (p : Placed) :
    p.findings.filterMap Finding.trivia? = p.trivia?.toList := by
  obtain ⟨piece, start⟩ := p
  cases piece with
  | blank t => rfl
  | lexeme k t => rfl
  | quoted l =>
    have none (es : List LexicalError) : (es.map Finding.fault).filterMap Finding.trivia? = [] := by
      simp [List.filterMap_map, Finding.trivia?, Function.comp_def]
    by_cases hc : l.closed
    · simp [findings, trivia?, hc, none]
    · simp [findings, trivia?, hc, none, List.filterMap_cons, Finding.trivia?]
  | stray c => rfl

theorem trivia?_of_not_closed {l : Quoted} (h : l.closed = false) (c : Cursor) :
    trivia? ⟨.quoted l, c⟩ = some ⟨.skipped, span ⟨.quoted l, c⟩⟩ := by
  simp [trivia?, h]

theorem findings_quoted (l : Quoted) (c : Cursor) : findings ⟨.quoted l, c⟩ =
    (Quoted.faults c.advance l.body).map .fault ++
      if l.closed then [] else [.fault (.unterminatedString c.position),
        .passed ⟨.skipped, span ⟨.quoted l, c⟩⟩] := rfl

theorem errors_blank (t : Text) (c : Cursor) : errors ⟨.blank t, c⟩ = [] := rfl

theorem errors_lexeme (k : TokenKind) (t : Text) (c : Cursor) : errors ⟨.lexeme k t, c⟩ = [] := rfl

theorem errors_stray (x : Char) (c : Cursor) :
    errors ⟨.stray x, c⟩ = [.unrecognizedCharacter x c.position] := rfl

theorem errors_quoted (l : Quoted) (c : Cursor) : errors ⟨.quoted l, c⟩ =
    Quoted.faults c.advance l.body ++
      if l.closed then [] else [.unterminatedString c.position] := by
  have all (es : List LexicalError) : (es.map Finding.fault).filterMap Finding.error? = es := by
    simp [List.filterMap_map, Finding.error?, Function.comp_def]
  by_cases hc : l.closed
  · simp [errors, findings, hc, all]
  · simp [errors, findings, hc, all, Finding.error?]

end Placed

theorem Cursor.filterMap_trivia?_findings (c : Cursor) :
    (c.placed.flatMap Placed.findings).filterMap Finding.trivia? =
      c.placed.filterMap Placed.trivia? := by
  rw [List.filterMap_flatMap, List.filterMap_eq_flatMap_toList]
  exact List.flatMap_congr fun p _ => p.filterMap_trivia?_findings

section Output
variable (config : Config) (source : Text)

theorem tokens_tokenizeWith : (tokenizeWith config source).stream.tokens =
    (Cursor.start source).placed.filterMap Placed.token? ++
      [.endOfInput (Cursor.start source).finish.position] := rfl

theorem trivia_tokenizeWith : (tokenizeWith config source).stream.trivia =
    if config.keepTrivia then (Cursor.start source).placed.filterMap Placed.trivia? else [] := by
  have kept := Report.trivia_addAll config {} (Lexer.start config source).remainingFindings
  rw [Lexer.remainingFindings, Cursor.filterMap_trivia?_findings] at kept
  exact kept

theorem records_tokenizeWith : Report.Records config
    ((Cursor.start source).placed.flatMap Placed.errors)
    (Lexer.start config source).finalReport := by
  have kept := (Report.Records.empty config).addAll (Lexer.start config source).remainingFindings
  rwa [Lexer.remainingFindings, List.filterMap_flatMap] at kept

theorem errorCount_tokenizeWith : (Lexer.start config source).finalReport.errorCount =
    (tokenizeWith config source).errors.length + (tokenizeWith config source).suppressed :=
  congrArg (· + (tokenizeWith config source).suppressed) Array.length_toList.symm

/-- Recorded or not, every error is counted. -/
theorem length_errors_tokenizeWith :
    (tokenizeWith config source).errors.length + (tokenizeWith config source).suppressed =
      ((Cursor.start source).placed.flatMap Placed.errors).length := by
  rw [← (records_tokenizeWith config source).errorCount, errorCount_tokenizeWith]

theorem errors_tokenizeWith (free : config.maxErrors = Config.noLimit) :
    (tokenizeWith config source).errors =
      (Cursor.start source).placed.flatMap Placed.errors := by
  have kept := (records_tokenizeWith config source).errors
  rwa [Config.recorded_of_noLimit free, List.take_length] at kept

theorem isClean_tokenizeWith_iff : (tokenizeWith config source).isClean ↔
    (Cursor.start source).placed.flatMap Placed.errors = [] := by
  rw [← (records_tokenizeWith config source).isEmpty_iff]
  simp [Output.isClean, tokenizeWith, Lexer.tokenize]

theorem errors_tokenize :
    (tokenize source).errors = (Cursor.start source).placed.flatMap Placed.errors :=
  errors_tokenizeWith {} source rfl

theorem isClean_tokenize_iff : (tokenize source).isClean ↔ (tokenize source).errors = [] := by
  rw [errors_tokenize]
  exact isClean_tokenizeWith_iff {} source

end Output

end Lexis
