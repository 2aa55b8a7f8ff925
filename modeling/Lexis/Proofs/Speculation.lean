import Lexis.Proofs.Limits

/-! Going back to a marked place. Tokens and characters come from the cursor alone, so they come
again as if nothing had happened in between, while the report and the end of the input stay as they
are. -/

namespace Lexis
set_option autoImplicit false

namespace Command

/-- Commands whose answers come from the cursor alone. -/
def readsCursor : Command → Bool
  | nextToken | advance _ | lookAhead _ => true
  | _ => false

/-- Commands that change no more of the lexer than its cursor. -/
def movesOnly : Command → Bool
  | advance _ | lookAhead _ | mark _ | returnTo _ => true
  | _ => false

end Command

def Answer.endsInput : Answer → Bool
  | token t => t.kind = .endOfInput
  | nextOne t? => t?.any (·.kind = .endOfInput)
  | tokens ts => ts.any (·.kind = .endOfInput)
  | _ => false

namespace Session

/-- What the lexer comes upon while a command is run. -/
def found (s : Session) : Command → List Finding
  | .nextToken => s.lexer.cursor.next.findings
  | .next => if s.lexer.ended then [] else s.lexer.cursor.next.findings
  | .drain => if s.lexer.ended then [] else s.lexer.remainingFindings
  | _ => []

def foundAll (s : Session) : List Command → List Finding
  | [] => []
  | c :: commands => s.found c ++ (s.run c).2.foundAll commands

theorem config_run (s : Session) (c : Command) : (s.run c).2.lexer.config = s.lexer.config := by
  cases c with
  | next =>
    show s.lexer.next?.2.config = _
    unfold Lexer.next?
    split <;> rfl
  | drain =>
    show s.lexer.drain.2.config = _
    cases running : s.lexer.ended with
    | true => rw [Lexer.drain, if_pos running]
    | false => rw [(Lexer.drain_eq running).2]
  | returnTo label =>
    simp only [run]
    split <;> rfl
  | _ => rfl

theorem report_run (s : Session) (c : Command) : (s.run c).2.lexer.report =
    s.lexer.report.addAll s.lexer.config (s.found c) := by
  cases c with
  | next =>
    show s.lexer.next?.2.report = _
    unfold Lexer.next? found
    split <;> rfl
  | drain =>
    show s.lexer.drain.2.report = _
    cases running : s.lexer.ended with
    | true =>
      rw [Lexer.drain, if_pos running, found, if_pos running]
      rfl
    | false =>
      rw [(Lexer.drain_eq running).2, found, running]
      rfl
  | returnTo label =>
    simp only [run]
    split <;> rfl
  | _ => rfl

theorem ended_run (s : Session) (c : Command) : (s.run c).2.lexer.ended =
    (s.lexer.ended || (s.run c).1.endsInput) := by
  have none (b : Bool) : b = (b || false) := (Bool.or_false b).symm
  cases c with
  | nextToken => rfl
  | next =>
    show s.lexer.next?.2.ended = (s.lexer.ended || (Answer.nextOne s.lexer.next?.1).endsInput)
    unfold Lexer.next?
    split
    · exact none _
    · rfl
  | drain =>
    show s.lexer.drain.2.ended = (s.lexer.ended || (Answer.tokens s.lexer.drain.1).endsInput)
    cases running : s.lexer.ended with
    | true => rw [Lexer.drain, if_pos running, running, Bool.true_or]
    | false =>
      rw [(Lexer.drain_eq running).1, (Lexer.drain_eq running).2]
      simp [Answer.endsInput, Lexer.remainingTokens, Token.endOfInput, Token.plain]
  | returnTo label =>
    simp only [run]
    split <;> exact none _
  | _ => exact none _

theorem config_after (s : Session) (commands : List Command) :
    (s.after commands).lexer.config = s.lexer.config := by
  induction commands generalizing s with
  | nil => rfl
  | cons c commands ih => exact (ih (s.run c).2).trans (s.config_run c)

theorem report_after (s : Session) (commands : List Command) : (s.after commands).lexer.report =
    s.lexer.report.addAll s.lexer.config (s.foundAll commands) := by
  induction commands generalizing s with
  | nil => rfl
  | cons c commands ih =>
    have later := ih (s.run c).2
    rw [s.config_run c, s.report_run c, ← Report.addAll_append] at later
    exact later

theorem ended_after (s : Session) (commands : List Command) : (s.after commands).lexer.ended =
    (s.lexer.ended || (s.answers commands).any Answer.endsInput) := by
  induction commands generalizing s with
  | nil => exact (Bool.or_false _).symm
  | cons c commands ih =>
    have later := ih (s.run c).2
    rw [s.ended_run c, Bool.or_assoc] at later
    exact later

theorem reads_congr {s t : Session} (same : s.lexer.cursor = t.lexer.cursor)
    {later : List Command} (reads : later.all Command.readsCursor) :
    s.answers later = t.answers later ∧ s.foundAll later = t.foundAll later := by
  -- The reports of the two may differ, and the cursors never do.
  induction later generalizing s t with
  | nil => exact ⟨rfl, rfl⟩
  | cons c later ih =>
    rw [List.all_cons, Bool.and_eq_true] at reads
    have step : (s.run c).1 = (t.run c).1 ∧ s.found c = t.found c ∧
        (s.run c).2.lexer.cursor = (t.run c).2.lexer.cursor := by
      cases c with
      | nextToken => simp [run, found, Lexer.nextToken, Lexer.after, same]
      | advance n => simp [run, found, Lexer.skip, same]
      | lookAhead n => simp [run, found, same]
      | _ => cases reads.1
    obtain ⟨answer, findings, cursor⟩ := step
    obtain ⟨answers, found⟩ := ih cursor reads.2
    rw [answers_cons, answers_cons, foundAll, foundAll, answer, answers, findings, found]
    exact ⟨rfl, rfl⟩

theorem movesOnly_after (s : Session) {commands : List Command}
    (moves : commands.all Command.movesOnly) :
    ∃ mark, (s.after commands).lexer = s.lexer.returnTo mark := by
  induction commands generalizing s with
  | nil => exact ⟨s.lexer.mark, rfl⟩
  | cons c commands ih =>
    rw [List.all_cons, Bool.and_eq_true] at moves
    have step : ∃ mark, (s.run c).2.lexer = s.lexer.returnTo mark := by
      cases c with
      | advance n => exact ⟨s.lexer.cursor.skip n, rfl⟩
      | lookAhead n => exact ⟨s.lexer.mark, rfl⟩
      | mark label => exact ⟨s.lexer.mark, rfl⟩
      | returnTo label =>
        simp only [run]
        cases s.marks.lookup label with
        | some mark => exact ⟨mark, rfl⟩
        | none => exact ⟨s.lexer.mark, rfl⟩
      | _ => cases moves.1
    obtain ⟨first, hfirst⟩ := step
    obtain ⟨last, hlast⟩ := ih (s.run c).2 moves.2
    refine ⟨last, hlast.trans ?_⟩
    rw [hfirst]
    rfl

theorem lookup_after {s : Session} {label : String} {place : Cursor}
    (marked : s.marks.lookup label = some place) {commands : List Command}
    (others : ∀ c ∈ commands, c ≠ .mark label) :
    (s.after commands).marks.lookup label = some place := by
  induction commands generalizing s with
  | nil => exact marked
  | cons c commands ih =>
    obtain ⟨differs, others⟩ := List.forall_mem_cons.mp others
    refine ih ?_ others
    cases c with
    | mark other =>
      have apart : (label == other) = false := by
        apply beq_false_of_ne
        rintro rfl
        exact differs rfl
      simp only [run, List.lookup_cons, apart]
      exact marked
    | returnTo other =>
      simp only [run]
      split <;> exact marked
    | _ => exact marked

end Session

/-- What holds when the lexer of `s` is put back to its place after the commands `spec`, `past`
being what was found before. -/
structure Session.Undone (past : List Finding) (s : Session) (spec : List Command) (r : Session) :
    Prop where
  cursor : r.lexer.cursor = s.lexer.cursor
  answers : ∀ later : List Command, later.all Command.readsCursor →
    r.answers later = s.answers later
  errors_isPrefix : s.lexer.report.errors.toList <+: r.lexer.report.errors.toList
  trivia_isPrefix : s.lexer.report.trivia.toList <+: r.lexer.report.trivia.toList
  /-- What the commands come upon is reported in their order, and then once more what is read
  again, with one limit for all of it. -/
  errors : ∀ later : List Command, later.all Command.readsCursor →
    Report.Records s.lexer.config
      ((past ++ s.foundAll spec ++ s.foundAll later).filterMap Finding.error?)
      (r.after later).lexer.report
  trivia : ∀ later : List Command, later.all Command.readsCursor →
    (r.after later).lexer.report.trivia.toList = if s.lexer.config.keepTrivia then
      (past ++ s.foundAll spec ++ s.foundAll later).filterMap Finding.trivia? else []
  ended : r.lexer.ended = (s.lexer.ended || (s.answers spec).any Answer.endsInput)
  unchanged : spec.all Command.movesOnly → r.lexer = s.lexer

theorem Session.undone {past : List Finding} {s : Session}
    (reported : s.lexer.report = Report.addAll s.lexer.config {} past) (spec : List Command) :
    Undone past s spec
      { s.after spec with lexer := (s.after spec).lexer.returnTo s.lexer.mark } := by
  generalize hr : { s.after spec with
    lexer := (s.after spec).lexer.returnTo s.lexer.mark } = r
  have cursor : r.lexer.cursor = s.lexer.cursor := by rw [← hr]; rfl
  have config : r.lexer.config = s.lexer.config := by
    rw [← hr]
    exact s.config_after spec
  have report : r.lexer.report = s.lexer.report.addAll s.lexer.config (s.foundAll spec) := by
    rw [← hr]
    exact s.report_after spec
  have whole (later : List Command) (reads : later.all Command.readsCursor) :
      (r.after later).lexer.report =
        Report.addAll s.lexer.config {} (past ++ s.foundAll spec ++ s.foundAll later) := by
    rw [r.report_after later, config, report, reported, (reads_congr cursor reads).2,
      Report.addAll_append, Report.addAll_append]
  refine ⟨cursor, ?_, ?_, ?_, ?_, ?_, ?_, ?_⟩
  · exact fun later reads => (reads_congr cursor reads).1
  · rw [report]
    exact Report.errors_isPrefix_addAll _ _ _
  · rw [report]
    exact Report.trivia_isPrefix_addAll _ _ _
  · intro later reads
    rw [whole later reads]
    exact (Report.Records.empty s.lexer.config).addAll _
  · intro later reads
    rw [whole later reads, Report.trivia_addAll]
    rfl
  · rw [← hr]
    exact s.ended_after spec
  · intro moves
    obtain ⟨mark, hmark⟩ := s.movesOnly_after moves
    rw [← hr]
    show (s.after spec).lexer.returnTo s.lexer.mark = s.lexer
    rw [hmark]
    rfl

/-- A place is marked anywhere in a session, any commands follow, and the lexer goes back to it. The
cursor is there again, and only the report and the end of the input tell of the commands. The label
of the place leads back to it as long as no other place gets the label. -/
theorem speculation_undone (config : Config) (source : Text) (commands spec : List Command)
    (label : String) :
    let start := Session.start config source
    let marked := ((start.after commands).run (.mark label)).2
    let back := { marked.after spec with
      lexer := (marked.after spec).lexer.returnTo (start.after commands).lexer.mark }
    marked.lexer = (start.after commands).lexer ∧ marked.lexer.config = config ∧
      (marked.lexer.ended ↔ ∃ a ∈ start.answers commands, a.endsInput) ∧
      Session.Undone (start.foundAll commands) marked spec back ∧
      ((∀ c ∈ spec, c ≠ .mark label) →
        (marked.after spec).run (.returnTo label) = (.done, back)) := by
  intro start marked back
  have same : marked.lexer = (start.after commands).lexer := rfl
  have settings : marked.lexer.config = config := start.config_after commands
  refine ⟨rfl, settings, ?_, ?_, ?_⟩
  · rw [same, start.ended_after]
    simp [start, Session.start, Lexer.start]
  · apply Session.undone (s := marked)
    rw [settings]
    exact start.report_after commands
  · intro others
    have place : marked.marks.lookup label = some (start.after commands).lexer.mark := by
      simp [marked, Session.run]
    simp only [Session.run, Session.lookup_after place others, back]

theorem speculation_undone_stray :
    let start := Session.start ⟨true, 1⟩ ['~', 'a']
    let marked := (start.run (.mark "here")).2
    let spec : List Command := [.nextToken, .mark "there", .returnTo "here", .advance 3]
    let back := { marked.after spec with
      lexer := (marked.after spec).lexer.returnTo start.lexer.mark }
    back.answers [.nextToken] = marked.answers [.nextToken] ∧
      (marked.after spec).run (.returnTo "here") = (.done, back) := by
  intro start marked spec back
  obtain ⟨-, -, -, undone, label⟩ := speculation_undone ⟨true, 1⟩ ['~', 'a'] [] spec "here"
  exact ⟨undone.answers [.nextToken] rfl, label (by decide)⟩

end Lexis
