import Lexis.Proofs.Lossless
import Lexis.Proofs.Refill
import Lexis.Proofs.Steps

/-! Tokens taken one by one are those of the whole stream. Wherever the taking stops, lexing the
rest at once gives the tokens that are left and the report of the whole run. -/

namespace Lexis
set_option autoImplicit false

namespace Cursor

def findings (c : Cursor) : List Finding := c.placed.flatMap Placed.findings

theorem findings_of_rest_cons {c : Cursor} {x : Char} {s : Text} (hs : c.rest = x :: s) :
    c.findings = Placed.findings ⟨.read x s, c⟩ ++ (Placed.stop ⟨.read x s, c⟩).findings := by
  rw [findings, placed_of_rest_cons hs, List.flatMap_cons, findings]

theorem findings_next (c : Cursor) : c.findings = c.next.findings ++ c.next.cursor.findings := by
  induction c using walk with
  | atEnd c hs =>
    rw [next_of_rest_nil hs]
    rfl
  | onward c x s hs ih =>
    rw [findings_of_rest_cons hs]
    cases ht : Placed.token? ⟨.read x s, c⟩ with
    | some t => rw [next_of_token hs ht]
    | none => rw [next_of_no_token hs ht, List.append_assoc, ← ih]

theorem next_eq (c : Cursor) :
    (c.rest ≠ [] ∧ c.next.token.kind ≠ .endOfInput ∧
      c.tokens = c.next.token :: c.next.cursor.tokens ∧ c.next.cursor.finish = c.finish) ∨
    (c.next.token = .endOfInput c.finish.position ∧ c.tokens = [c.next.token] ∧
      c.next.cursor = c.finish) := by
  induction c using walk with
  | atEnd c hs =>
    right
    rw [next_of_rest_nil hs, tokens_of_rest_nil hs, finish_of_rest_nil hs]
    exact ⟨rfl, rfl, rfl⟩
  | onward c x s hs ih =>
    have more : c.rest ≠ [] := by simp [hs]
    rw [← finish_stop hs]
    cases ht : Placed.token? ⟨.read x s, c⟩ with
    | some t =>
      obtain ⟨l, hl, rfl⟩ := Option.map_eq_some_iff.mp ht
      rw [next_of_token hs ht]
      exact Or.inl ⟨more, Piece.kind_ne_endOfInput hl, (tokens_trivia_of_token hs ht).1, rfl⟩
    | none =>
      rw [next_of_no_token hs ht, (tokens_trivia_of_no_token hs ht).1]
      exact ih.imp (fun h => ⟨more, h.2⟩) id

end Cursor

namespace Lexer

theorem finalReport_nextToken (l : Lexer) : l.nextToken.2.finalReport = l.finalReport := by
  have found : l.remainingFindings = l.cursor.next.findings ++ l.cursor.next.cursor.findings :=
    l.cursor.findings_next
  rw [finalReport, finalReport, found, Report.addAll_append]
  rfl

theorem finalReport_of_rest_nil {l : Lexer} (h : l.cursor.rest = []) :
    l.finalReport = l.report := by
  rw [finalReport, remainingFindings, Cursor.placed_of_rest_nil h]
  rfl

/-- A step gives the first of the tokens that are left. The lexer ends with the last one only. -/
theorem nextToken_cases (l : Lexer) :
    (l.cursor.rest ≠ [] ∧ l.nextToken.2.ended = l.ended ∧
      l.remainingTokens = l.nextToken.1 :: l.nextToken.2.remainingTokens ∧
      l.nextToken.2.cursor.finish = l.cursor.finish) ∨
    (l.nextToken.1 = .endOfInput l.cursor.finish.position ∧ l.nextToken.2.ended = true ∧
      l.remainingTokens = [l.nextToken.1] ∧ l.nextToken.2.cursor = l.cursor.finish) := by
  rcases l.cursor.next_eq with ⟨more, kind, tokens, finish⟩ | ⟨token, tokens, finish⟩
  · have ended : l.nextToken.2.ended = l.ended := by simp [nextToken, after, kind]
    exact Or.inl ⟨more, ended, tokens, finish⟩
  · have ended : l.nextToken.2.ended = true := by
      simp [nextToken, after, token, Token.endOfInput, Token.plain]
    exact Or.inr ⟨token, ended, tokens, finish⟩

/-- Taking tokens until there are no more is lexing all that is left at once. -/
theorem drain_eq {l : Lexer} (running : l.ended = false) : l.drain.1 = l.remainingTokens ∧
    l.drain.2 = ⟨l.source, l.config, l.cursor.finish, l.finalReport, true⟩ := by
  fun_induction drain l with
  | case1 l ended => cases running.symm.trans ended
  | case2 l _ step later ih =>
    have report : step.2.finalReport = l.finalReport := l.finalReport_nextToken
    rcases l.nextToken_cases with ⟨-, same, tokens, finish⟩ | ⟨-, ended, tokens, finish⟩
    · obtain ⟨given, reached⟩ := ih (same.trans running)
      refine ⟨(congrArg (step.1 :: ·) given).trans tokens.symm, reached.trans ?_⟩
      rw [report]
      exact congrArg (Lexer.mk l.source l.config · l.finalReport true) finish
    · have none : later = ([], step.2) := by
        show step.2.drain = _
        rw [drain, if_pos ended]
      have atEnd : step.2.cursor.rest = [] :=
        (congrArg Cursor.rest finish).trans l.cursor.finish_rest
      rw [none]
      refine ⟨tokens.symm, ?_⟩
      rw [← report, finalReport_of_rest_nil atEnd, ← finish, ← ended]
      rfl

theorem tokenize_eq_drain {l : Lexer} (running : l.ended = false) : l.tokenize =
    ⟨⟨l.source, l.drain.1, l.drain.2.report.trivia.toList⟩, l.drain.2.report.errors.toList,
      l.drain.2.report.suppressed⟩ := by
  obtain ⟨tokens, reached⟩ := drain_eq running
  rw [tokens, reached]
  rfl

/-- The lexer still has the tokens `left` to give once, and `last` again and again. -/
structure Gives (l : Lexer) (left : List Token) (last : Token) : Prop where
  left_eq : left = if l.ended then [] else l.remainingTokens
  last_eq : last = .endOfInput l.cursor.finish.position
  atEnd : l.ended → l.cursor.rest = []

theorem Gives.start (config : Config) (source : Text) : (Lexer.start config source).Gives
    (Cursor.start source).tokens (.endOfInput (Cursor.start source).finish.position) :=
  ⟨rfl, rfl, fun ended => absurd ended Bool.false_ne_true⟩

namespace Gives
variable {l : Lexer} {left : List Token} {last : Token} (h : l.Gives left last)
include h

theorem remainingTokens_eq : l.remainingTokens = if left = [] then [last] else left := by
  obtain ⟨rfl, rfl, atEnd⟩ := h
  by_cases ended : l.ended
  · rw [if_pos ended, if_pos rfl]
    exact Cursor.tokens_of_rest_nil (atEnd ended)
  · simp [ended, remainingTokens]

theorem finalReport_of_nil (none : left = []) : l.finalReport = l.report := by
  obtain ⟨rfl, -, atEnd⟩ := h
  apply finalReport_of_rest_nil
  by_contra rest
  have running : l.ended = false := Bool.eq_false_iff.mpr fun ended => rest (atEnd ended)
  simp [running, remainingTokens] at none

theorem nextToken : l.nextToken.1 = left.head?.getD last ∧ l.nextToken.2.Gives left.tail last := by
  obtain ⟨rfl, rfl, atEnd⟩ := h
  rcases l.nextToken_cases with ⟨more, same, left, finish⟩ | ⟨token, ended, left, finish⟩
  · have running : l.ended = false := Bool.eq_false_iff.mpr fun ended => more (atEnd ended)
    rw [running] at same
    rw [running, if_neg Bool.false_ne_true, left]
    refine ⟨rfl, ?_, ?_, ?_⟩
    · rw [same, if_neg Bool.false_ne_true]
      rfl
    · exact congrArg (Token.endOfInput ·.position) finish.symm
    · intro h
      cases same.symm.trans h
  · have rest : l.nextToken.2.cursor.rest = [] :=
      (congrArg Cursor.rest finish).trans l.cursor.finish_rest
    rw [left]
    refine ⟨?_, ?_, ?_, fun _ => rest⟩
    · split
      · exact token
      · rfl
    · rw [ended]
      split <;> rfl
    · rw [Cursor.finish_of_rest_nil rest]
      exact congrArg (Token.endOfInput ·.position) finish.symm

theorem next? : l.next?.1 = left.head? ∧ l.next?.2.Gives left.tail last := by
  have token := h.nextToken
  obtain ⟨left_eq, last_eq, atEnd⟩ := h
  by_cases ended : l.ended
  · rw [if_pos ended] at left_eq
    rw [left_eq, Lexer.next?, if_pos ended]
    refine ⟨rfl, ?_, last_eq, atEnd⟩
    rw [if_pos ended]
    rfl
  · obtain ⟨first, rest, hfirst⟩ : ∃ t ts, left = t :: ts := by
      apply List.exists_cons_of_ne_nil
      rw [left_eq, if_neg ended]
      simp [remainingTokens]
    rw [Lexer.next?, if_neg ended]
    rw [hfirst] at token ⊢
    exact ⟨congrArg some token.1, token.2⟩

end Gives

theorem Gives.remainingTokens_of_drop {l : Lexer} {tokens : List Token} {last : Token} {k : Nat}
    (h : l.Gives ((tokens ++ [last]).drop k) last) :
    l.remainingTokens = (tokens ++ [last]).drop (min k tokens.length) := by
  rw [h.remainingTokens_eq]
  -- The last token stays to be lexed when more were taken than there are.
  rcases Nat.lt_or_ge tokens.length k with past | within
  · have none : (tokens ++ [last]).drop k = [] := by
      rw [List.drop_eq_nil_iff, List.length_append]
      exact past
    rw [if_pos none, Nat.min_eq_right (Nat.le_of_lt past), List.drop_left]
  · have some : (tokens ++ [last]).drop k ≠ [] := by
      rw [Ne, List.drop_eq_nil_iff, List.length_append]
      exact Nat.not_le_of_lt (Nat.lt_succ_of_le within)
    rw [if_neg some, Nat.min_eq_left within]

theorem finalReport_next? (l : Lexer) : l.next?.2.finalReport = l.finalReport := by
  unfold next?
  split
  · rfl
  · exact l.finalReport_nextToken

end Lexer

inductive Pull where
  | nextToken
  | next

namespace Pull

def command : Pull → Command
  | nextToken => .nextToken
  | next => .next

/-- What is answered when `token?` is the next token that is left and `last` ends the stream. -/
def answer (last : Token) (token? : Option Token) : Pull → Answer
  | nextToken => .token (token?.getD last)
  | next => .nextOne token?

end Pull

namespace Session

def answers (s : Session) (commands : List Command) : List Answer :=
  (s.runAll commands).map Prod.fst

theorem answers_cons (s : Session) (c : Command) (commands : List Command) :
    s.answers (c :: commands) = (s.run c).1 :: (s.run c).2.answers commands := rfl

theorem run_pull {s : Session} {left : List Token} {last : Token} (h : s.lexer.Gives left last)
    (pull : Pull) : (s.run pull.command).1 = pull.answer last left.head? ∧
      (s.run pull.command).2.lexer.Gives left.tail last ∧
      (s.run pull.command).2.lexer.source = s.lexer.source ∧
      (s.run pull.command).2.lexer.finalReport = s.lexer.finalReport := by
  cases pull with
  | nextToken =>
    obtain ⟨token, later⟩ := h.nextToken
    exact ⟨congrArg Answer.token token, later, rfl, s.lexer.finalReport_nextToken⟩
  | next =>
    obtain ⟨token?, later⟩ := h.next?
    refine ⟨congrArg Answer.nextOne token?, later, ?_, s.lexer.finalReport_next?⟩
    show s.lexer.next?.2.source = s.lexer.source
    unfold Lexer.next?
    split <;> rfl

theorem run_pulls {s : Session} {left : List Token} {last : Token} (h : s.lexer.Gives left last)
    (pulls : List Pull) :
    s.answers (pulls.map Pull.command) =
        pulls.mapIdx (fun i pull => pull.answer last left[i]?) ∧
      (s.after (pulls.map Pull.command)).lexer.Gives (left.drop pulls.length) last ∧
      (s.after (pulls.map Pull.command)).lexer.source = s.lexer.source ∧
      (s.after (pulls.map Pull.command)).lexer.finalReport = s.lexer.finalReport := by
  -- The tokens that are left shrink with each pull, so the answers are indexed anew from there.
  induction pulls generalizing s left with
  | nil => exact ⟨rfl, h, rfl, rfl⟩
  | cons pull pulls ih =>
    obtain ⟨answer, later, source, report⟩ := run_pull h pull
    obtain ⟨answers, reached, source', report'⟩ := ih later
    have others : ∀ i, left.tail[i]? = left[i + 1]? := by simp
    simp only [others] at answers
    rw [List.drop_tail] at reached
    refine ⟨?_, reached, source'.trans source, report'.trans report⟩
    rw [List.map_cons, answers_cons, List.mapIdx_cons, answers, answer, List.head?_eq_getElem?]

end Session

namespace Text

/-- The characters from the offset `n` on that stand within none of the spans. -/
def outsideFrom (spans : List Span) : (n : Nat) → Text → Text
  | _, [] => []
  | n, c :: s =>
    if spans.any fun v => v.start.offset ≤ n && n < v.stop.offset then
      outsideFrom spans (n + c.utf8Size) s
    else c :: outsideFrom spans (n + c.utf8Size) s

/-- A source without what the spans cover. -/
def outside (spans : List Span) (source : Text) : Text := outsideFrom spans 0 source

variable {spans : List Span} {n : Nat}

theorem outsideFrom_eq_refillFrom (s : Text) :
    outsideFrom spans n s = refillFrom spans (fun _ => []) n s := by
  induction s generalizing n with
  | nil => rfl
  | cons c s ih =>
    have covered : spans.any (fun v => v.start.offset ≤ n && n < v.stop.offset) =
        (spans.find? (·.covers n)).isSome := List.isSome_find?.symm
    rw [outsideFrom, refillFrom, ih, covered]
    cases spans.find? (·.covers n) <;> simp

end Text

namespace Cursor

theorem le_start_of_mem_take {before : Text} {c : Cursor} (h : c.After before) {k : Nat} {v : Span}
    (hv : v ∈ (c.tokens.take k).map (·.span)) : c.position.offset ≤ v.start.offset := by
  obtain ⟨t, ht, rfl⟩ := List.mem_map.mp hv
  exact h.le_start_of_mem_tokens (List.mem_of_mem_take ht)

theorem tokens_drop_ne_nil (c : Cursor) (k : Nat) :
    c.tokens.drop (min k (c.tokens.length - 1)) ≠ [] := by
  have last : 0 < c.tokens.length := by simp [tokens]
  rw [Ne, List.drop_eq_nil_iff]
  omega

/-- The tokens from some place on, woven with all the trivia, leave out what the earlier tokens
cover. At least the end of the input is left. -/
theorem After.weave_drop {before : Text} {c : Cursor} (h : c.After before) (k : Nat) :
    Stream.weave (before ++ c.rest) (c.tokens.drop (min k (c.tokens.length - 1))) c.trivia =
      Text.outsideFrom ((c.tokens.take k).map (·.span)) c.position.offset c.rest := by
  induction c using walk generalizing before k with
  | atEnd c hs =>
    rw [tokens_of_rest_nil hs, trivia, placed_of_rest_nil hs, hs]
    simp [Text.outsideFrom, Stream.weave, Stream.triviaText, Token.endOfInput, Token.plain]
  | onward c x s hs ih =>
    have place := h.stop hs
    have split := text_append_rest_stop hs
    have stop := h.offset_stop hs
    have later (k : Nat) := ih place k
    rw [List.append_assoc, split] at later
    cases ht : Placed.token? ⟨.read x s, c⟩ with
    | some t =>
      cases k with
      | zero =>
        simpa [Text.outsideFrom_eq_refillFrom, Text.refillFrom_eq_self]
          using h.weave_tokens_trivia
      | succ k =>
        have start : t.span.start.offset = c.position.offset := by
          rw [(Placed.token?_eq_some ht).1]
          rfl
        have covered : t.span.stop.offset = (Placed.stop ⟨.read x s, c⟩).position.offset := by
          rw [(Placed.token?_eq_some ht).1]
          rfl
        have more : (Placed.stop ⟨.read x s, c⟩).tokens.length =
            (Placed.stop ⟨.read x s, c⟩).tokens.length - 1 + 1 := by simp [tokens]
        obtain ⟨tokens, trivia⟩ := tokens_trivia_of_token hs ht
        rw [tokens, trivia, List.length_cons, Nat.add_sub_cancel, more, Nat.succ_min_succ,
          List.drop_succ_cons, later, List.take_succ_cons, List.map_cons, ← split, stop,
          Text.outsideFrom_eq_refillFrom, Text.outsideFrom_eq_refillFrom]
        -- The token covers its own text and nothing after it.
        rw [Text.refillFrom_span_append (Piece.read_text_ne_nil x s) start (covered.trans stop),
          List.nil_append]
    | none =>
      obtain ⟨t, ts, hts⟩ := List.exists_cons_of_ne_nil
        (tokens_drop_ne_nil (Placed.stop ⟨.read x s, c⟩) k)
      have mem : t ∈ (Placed.stop ⟨.read x s, c⟩).tokens :=
        List.mem_of_mem_drop (hts ▸ List.mem_cons_self)
      have early := Nat.lt_of_lt_of_le (h.offset_lt_stop hs) (place.le_start_of_mem_tokens mem)
      have cut : (Placed.passed ⟨.read x s, c⟩).span.slice? (before ++ c.rest) =
          some (Piece.read x s).text := h.slice?_span hs
      have uncovered : ∀ v ∈ ((Placed.stop ⟨.read x s, c⟩).tokens.take k).map (·.span),
          c.position.offset + Text.byteLength (Piece.read x s).text ≤ v.start.offset := by
        intro v hv
        rw [← stop]
        exact le_start_of_mem_take place hv
      obtain ⟨tokens, trivia⟩ := tokens_trivia_of_no_token hs ht
      rw [tokens, trivia, hts, Stream.weave_trivia early, ← hts, later, cut, Option.getD_some,
        ← split, Text.outsideFrom_eq_refillFrom, Text.outsideFrom_eq_refillFrom,
        Text.refillFrom_append, Text.refillFrom_eq_self uncovered, stop]

end Cursor

/-- After any number of tokens were taken, one way or the other, they are the first ones of the
stream of the whole source, and lexing the rest gives the others with the report of the whole
source. Past the end nothing more is found, `nextToken` stays at the end of the input and `next`
gives nothing. -/
theorem pulls_agree_with_tokenizeWith (config : Config) (source : Text) (pulls : List Pull) :
    let whole := tokenizeWith config source
    let session := Session.start config source
    let lexer := (session.after (pulls.map Pull.command)).lexer
    ∃ tokens p, whole.stream.tokens = tokens ++ [.endOfInput p] ∧
      session.answers (pulls.map Pull.command) =
        pulls.mapIdx (fun i pull => pull.answer (.endOfInput p) whole.stream.tokens[i]?) ∧
      lexer.tokenize = ⟨⟨source, whole.stream.tokens.drop (min pulls.length tokens.length),
        whole.stream.trivia⟩, whole.errors, whole.suppressed⟩ ∧
      (tokens.length < pulls.length → lexer.report.errors.toList = whole.errors ∧
        lexer.report.suppressed = whole.suppressed ∧
        lexer.report.trivia.toList = whole.stream.trivia) ∧
      (config.keepTrivia → lexer.tokenize.stream.text =
        source.outside ((whole.stream.tokens.take pulls.length).map (·.span))) := by
  intro whole session lexer
  obtain ⟨answers, gives, same, report⟩ :=
    Session.run_pulls (s := session) (.start config source) pulls
  have length : (Cursor.start source).tokens.length =
      ((Cursor.start source).placed.filterMap Placed.token?).length + 1 := List.length_append
  have remaining : lexer.remainingTokens = whole.stream.tokens.drop (min pulls.length
      ((Cursor.start source).placed.filterMap Placed.token?).length) :=
    gives.remainingTokens_of_drop
  have tokenize : lexer.tokenize = ⟨⟨source, lexer.remainingTokens, whole.stream.trivia⟩,
      whole.errors, whole.suppressed⟩ := by
    rw [Lexer.tokenize, report, same]
    rfl
  rw [remaining] at tokenize
  refine ⟨_, _, tokens_tokenizeWith config source, answers, tokenize, ?_, ?_⟩
  · intro past
    have none : (Cursor.start source).tokens.drop pulls.length = [] := by
      rw [List.drop_eq_nil_iff, length]
      exact past
    rw [← gives.finalReport_of_nil none, report]
    exact ⟨rfl, rfl, rfl⟩
  · intro kept
    have woven := (Cursor.After.start source).weave_drop pulls.length
    rw [length, Nat.add_sub_cancel] at woven
    rw [tokenize, Stream.text, trivia_of_keepTrivia config source kept]
    exact woven

theorem pulls_agree_past_end :
    let source : Text := ['~', 'a', ' ']
    let commands := [Pull.nextToken, .next, .nextToken].map Pull.command
    let lexer := ((Session.start ⟨true, 0⟩ source).after commands).lexer
    lexer.report.suppressed = 1 ∧ lexer.tokenize.stream.text = ['~', ' '] := by
  intro source commands lexer
  obtain ⟨tokens, p, whole, -, -, past, kept⟩ :=
    pulls_agree_with_tokenizeWith ⟨true, 0⟩ source [.nextToken, .next, .nextToken]
  have run : (tokenizeWith ⟨true, 0⟩ source).stream.tokens =
      [.plain .identifier ['a'] ⟨⟨1, 1, 1⟩, ⟨1, 2, 2⟩⟩, .endOfInput ⟨1, 3, 3⟩] ∧
      (tokenizeWith ⟨true, 0⟩ source).suppressed = 1 := by decide +kernel
  have one : tokens.length < 3 := by
    have length := congrArg List.length (run.1.symm.trans whole)
    simp only [List.length_append, List.length_cons, List.length_nil] at length
    omega
  refine ⟨(past one).2.1.trans run.2, (kept rfl).trans ?_⟩
  rw [run.1]
  decide

end Lexis
