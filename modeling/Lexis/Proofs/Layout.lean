import Lexis.Proofs.Refill
import Lexis.Proofs.Relaid
import Mathlib.Data.List.Nodup

/-! Layout means nothing. Whatever blanks stand in place of the blanks of a source, its tokens and
errors stay the same but for their places. -/

namespace Lexis
set_option autoImplicit false

namespace Stream

def blankSpans (s : Stream) : List Span := (s.trivia.filter (·.kind = .whitespace)).map (·.span)

/-- What may stand in place of a blank: not a line break where a stray backslash stands directly
before, which would be a continuation then. -/
def Allows (s : Stream) (v : Span) (t : Text) : Prop :=
  ∀ w ∈ s.trivia, w.kind = .skipped → w.span.slice? s.source = some ['\\'] →
    w.span.stop = v.start → ¬ t.StartsWithBreak

instance (s : Stream) (v : Span) (t : Text) : Decidable (s.Allows v t) :=
  inferInstanceAs (Decidable (∀ w ∈ s.trivia, _ → _ → _ → _))

/-- Blanks to stand in place of blanks of a stream. -/
structure Fills (s : Stream) (spans : List Span) (fill : Span → Text) : Prop where
  isBlank : ∀ v ∈ spans, Blank.IsBlank (fill v)
  ne_nil : ∀ v ∈ spans, fill v ≠ []
  allowed : ∀ v ∈ spans, s.Allows v (fill v)

/-- The blank `t` of a stream, with the parts of the source before and behind it. -/
structure HasBlank (s : Stream) (a t b : Text) (v : Span) : Prop where
  source_eq : s.source = a ++ t ++ b
  mem : v ∈ s.blankSpans
  start : v.start.offset = Text.byteLength a
  stop : v.stop.offset = Text.byteLength (a ++ t)

end Stream

/-- The outputs differ in places only. -/
structure Output.SameReading (o o' : Output) : Prop where
  lexemes : o'.stream.tokens.map Token.toLexeme = o.stream.tokens.map Token.toLexeme
  faults : o'.errors.map LexicalError.fault = o.errors.map LexicalError.fault
  suppressed : o'.suppressed = o.suppressed

namespace Placed

/-- The piece, filled anew if it is a blank that is not kept. -/
def refill (anew : Span → Bool) (fill : Span → Text) (p : Placed) : Piece :=
  match p.piece with
  | .blank t => .blank (if anew p.span then fill p.span else t)
  | q => q

variable {anew : Span → Bool} {fill : Span → Text} {p : Placed}

theorem refill_of_blank {t : Text} (h : p.piece = .blank t) :
    p.refill anew fill = .blank (if anew p.span then fill p.span else t) := by
  rw [refill, h]

theorem refill_of_other (h : ∀ t, p.piece ≠ .blank t) : p.refill anew fill = p.piece := by
  unfold refill
  split
  · rename_i t ht
    exact absurd ht (h t)
  · rfl

/-- Blanks that may stand in place of the blanks among placed pieces. -/
structure Fills (ps : List Placed) (anew : Span → Bool) (fill : Span → Text) : Prop where
  isBlank : ∀ p ∈ ps, anew p.span → ∀ t, p.piece = .blank t → Blank.IsBlank (fill p.span)
  ne_nil : ∀ p ∈ ps, anew p.span → ∀ t, p.piece = .blank t → fill p.span ≠ []
  allowed : ∀ w ∈ ps, w.piece = .stray '\\' → ∀ p ∈ ps, anew p.span → ∀ t, p.piece = .blank t →
    w.span.stop = p.span.start → ¬ (fill p.span).StartsWithBreak

theorem Fills.of_cons {ps : List Placed} (h : Fills (p :: ps) anew fill) : Fills ps anew fill where
  isBlank q hq := h.isBlank q (List.mem_cons_of_mem p hq)
  ne_nil q hq := h.ne_nil q (List.mem_cons_of_mem p hq)
  allowed w hw stray q hq :=
    h.allowed w (List.mem_cons_of_mem p hw) stray q (List.mem_cons_of_mem p hq)

end Placed

namespace Cursor

theorem pieces_of_rest_cons {c : Cursor} {x : Char} {s : Text} (hs : c.rest = x :: s) :
    pieces c.rest = .read x s :: pieces (Placed.stop ⟨.read x s, c⟩).rest := by
  rw [hs, pieces_cons, Placed.stop, skip_rest, hs]

variable {anew : Span → Bool} {fill : Span → Text}

theorem not_startsWithBreak_refill {c : Cursor}
    (relaid : Relaid (pieces c.rest) (c.placed.map (Placed.refill anew fill)))
    (first : ∀ p ∈ c.placed.head?, ∀ t, p.refill anew fill = .blank t → ¬ t.StartsWithBreak) :
    ¬ Text.StartsWithBreak ((c.placed.map (Placed.refill anew fill)).flatMap Piece.text) := by
  by_cases blank : ∃ x s t, c.rest = x :: s ∧ Piece.read x s = .blank t
  · obtain ⟨x, s, t, hs, ht⟩ := blank
    have split := text_append_rest_stop hs
    rw [placed_of_rest_cons hs] at first relaid ⊢
    rw [pieces_of_rest_cons hs, List.map_cons] at relaid
    rw [List.map_cons, List.flatMap_cons]
    obtain ⟨u, hu⟩ : ∃ u, Placed.refill anew fill ⟨.read x s, c⟩ = .blank u :=
      ⟨_, Placed.refill_of_blank ht⟩
    have allowed := first _ rfl u hu
    rw [hu] at relaid ⊢
    generalize Placed.stop ⟨.read x s, c⟩ = d at split relaid ⊢
    rw [ht] at split relaid
    cases relaid with
    | other noBlank => exact absurd rfl (noBlank _)
    | blank _ ne later =>
      have last := later.read_eq_nil fun y u v hr => by
        rw [hr, hs] at split
        exact Piece.not_blank_after_blank ht split
      exact fun starts => allowed (starts.of_append ne last)
  · apply Text.not_startsWithBreak_of_read
    apply relaid.read_eq_nil
    exact fun y u t hs ht => blank ⟨y, u, t, hs, ht⟩

theorem relaid_refill (c : Cursor) (fills : Placed.Fills c.placed anew fill) :
    Relaid (pieces c.rest) (c.placed.map (Placed.refill anew fill)) := by
  induction c using walk with
  | atEnd c hs =>
    rw [placed_of_rest_nil hs, hs, pieces_nil]
    exact .nil
  | onward c x s hs ih =>
    rw [placed_of_rest_cons hs] at fills ⊢
    have later := ih fills.of_cons
    rw [pieces_of_rest_cons hs, List.map_cons]
    by_cases blank : ∃ t, Piece.read x s = .blank t
    · obtain ⟨t, ht⟩ := blank
      have own := Piece.isBlank_of_read ht
      have isBlank := fills.isBlank _ List.mem_cons_self
      have ne := fills.ne_nil _ List.mem_cons_self
      rw [Placed.refill_of_blank ht]
      generalize Placed.span ⟨.read x s, c⟩ = v at isBlank ne ⊢
      generalize Placed.stop ⟨.read x s, c⟩ = d at later ⊢
      rw [ht]
      split
      · rename_i fresh
        exact .blank (isBlank fresh t ht) (ne fresh t ht) later
      · exact .blank own.2 own.1.ne_nil later
    · have other : ∀ t, Piece.read x s ≠ .blank t := fun t ht => blank ⟨t, ht⟩
      rw [Placed.refill_of_other other]
      refine .other other ?_ later
      intro stray
      apply not_startsWithBreak_refill later
      -- The next piece begins where the backslash ends.
      cases hr : (Placed.stop ⟨.read x s, c⟩).rest with
      | nil => simp [placed_of_rest_nil hr]
      | cons y r =>
        rw [placed_of_rest_cons hr] at fills ⊢
        rintro p hp t ht
        obtain rfl := Option.some.inj hp
        by_cases gap : ∃ u, Piece.read y r = .blank u
        · obtain ⟨u, hu⟩ := gap
          rw [Placed.refill_of_blank hu] at ht
          obtain rfl := Piece.blank.inj ht
          split
          · rename_i fresh
            refine fills.allowed _ List.mem_cons_self stray _ ?_ fresh u hu rfl
            exact List.mem_cons_of_mem _ List.mem_cons_self
          · have split := text_append_rest_stop hs
            have next := Piece.read_text_append_drop y r
            rw [hr, hs, show Piece.read x s = _ from stray] at split
            rw [hu] at next
            exact Piece.not_startsWithBreak_of_stray stray (next.trans (List.cons.inj split).2)
        · rw [Placed.refill_of_other fun u hu => gap ⟨u, hu⟩] at ht
          exact absurd ⟨t, ht⟩ gap

def blankSpans (c : Cursor) : List Span :=
  (c.trivia.filter (·.kind = .whitespace)).map (·.span)

theorem mem_blankSpans_iff {c : Cursor} {v : Span} :
    v ∈ c.blankSpans ↔ ∃ p ∈ c.placed, ∃ t, p.piece = .blank t ∧ p.span = v := by
  simp only [blankSpans, trivia, List.mem_map, List.mem_filter, List.mem_filterMap,
    decide_eq_true_eq]
  constructor
  · rintro ⟨w, ⟨⟨p, hp, hpw⟩, kind⟩, rfl⟩
    obtain rfl := Placed.eq_passed_of_trivia? hpw
    obtain ⟨t, ht⟩ := Placed.eq_blank_of_passed kind
    exact ⟨p, hp, t, ht, rfl⟩
  · rintro ⟨p, hp, t, ht, rfl⟩
    refine ⟨⟨.whitespace, p.span⟩, ⟨⟨p, hp, ?_⟩, rfl⟩, rfl⟩
    rw [Placed.trivia?, ht]

theorem blankSpans_of_blank {c : Cursor} {x : Char} {s t : Text} (hs : c.rest = x :: s)
    (ht : Piece.read x s = .blank t) : c.blankSpans =
      Placed.span ⟨.read x s, c⟩ :: (Placed.stop ⟨.read x s, c⟩).blankSpans := by
  have passed : Placed.passed ⟨.read x s, c⟩ = ⟨.whitespace, Placed.span ⟨.read x s, c⟩⟩ := by
    simp [Placed.passed, ht]
  have none : Placed.token? ⟨.read x s, c⟩ = none := by simp [Placed.token?, ht, Piece.lexeme?]
  rw [blankSpans, (tokens_trivia_of_no_token hs none).2, passed, blankSpans]
  rfl

theorem blankSpans_of_other {c : Cursor} {x : Char} {s : Text} (hs : c.rest = x :: s)
    (other : ∀ t, Piece.read x s ≠ .blank t) :
    c.blankSpans = (Placed.stop ⟨.read x s, c⟩).blankSpans := by
  cases ht : Placed.token? ⟨.read x s, c⟩ with
  | some t => rw [blankSpans, (tokens_trivia_of_token hs ht).2, blankSpans]
  | none =>
    have kind : (Placed.passed ⟨.read x s, c⟩).kind ≠ .whitespace := by
      intro kind
      obtain ⟨t, ht⟩ := Placed.eq_blank_of_passed kind
      exact other t ht
    rw [blankSpans, (tokens_trivia_of_no_token hs ht).2,
      List.filter_cons_of_neg (by simpa using kind), blankSpans]

theorem After.nodup_blankSpans {before : Text} {c : Cursor} (h : c.After before) :
    c.blankSpans.Nodup := by
  apply List.pairwise_map.mpr
  apply List.Pairwise.filter
  apply List.pairwise_filterMap.mpr
  apply h.pairwise_placed.imp
  intro p q apart v hv w hw same
  rw [Placed.eq_passed_of_trivia? hv, Placed.eq_passed_of_trivia? hw] at same
  have spans : p.span = q.span := same
  rw [spans] at apart
  omega

theorem After.refillFrom_eq {before : Text} {c : Cursor} (h : c.After before)
    (anew : Span → Bool) (fill : Span → Text) :
    Text.refillFrom (c.blankSpans.filter anew) fill c.position.offset c.rest =
      (c.placed.map (Placed.refill anew fill)).flatMap Piece.text := by
  induction c using walk generalizing before with
  | atEnd c hs =>
    rw [placed_of_rest_nil hs, hs]
    rfl
  | onward c x s hs ih =>
    have place := h.stop hs
    have later := ih place
    have split := text_append_rest_stop hs
    have stop := h.offset_stop hs
    have behind : ∀ v ∈ (Placed.stop ⟨.read x s, c⟩).blankSpans.filter anew,
        c.position.offset + Text.byteLength (Piece.read x s).text ≤ v.start.offset := by
      intro v hv
      obtain ⟨p, hp, -, -, rfl⟩ := mem_blankSpans_iff.mp (List.mem_of_mem_filter hv)
      exact stop ▸ (place.bounds_of_mem hp).1
    rw [placed_of_rest_cons hs, List.map_cons, List.flatMap_cons, ← later, stop, ← split]
    by_cases blank : ∃ t, Piece.read x s = .blank t
    · obtain ⟨t, ht⟩ := blank
      have ne := Piece.read_text_ne_nil x s
      rw [blankSpans_of_blank hs ht, List.filter_cons, Placed.refill_of_blank ht, Piece.text]
      split
      · exact Text.refillFrom_span_append ne rfl stop
      · rw [Text.refillFrom_append, Text.refillFrom_eq_self behind, ht]
        rfl
    · have other : ∀ t, Piece.read x s ≠ .blank t := fun t ht => blank ⟨t, ht⟩
      rw [blankSpans_of_other hs other, Placed.refill_of_other other, Text.refillFrom_append,
        Text.refillFrom_eq_self behind]

end Cursor

section
variable (config : Config) (source : Text)

theorem blankSpans_fullRun :
    (fullRun source).stream.blankSpans = (Cursor.start source).blankSpans := by
  rw [Stream.blankSpans, trivia_fullRun]
  rfl

theorem placedFills {anew : Span → Bool} {fill : Span → Text} (fills : (fullRun source).stream.Fills
    ((fullRun source).stream.blankSpans.filter anew) fill) :
    Placed.Fills (Cursor.start source).placed anew fill := by
  have mem : ∀ p ∈ (Cursor.start source).placed, anew p.span → ∀ t, p.piece = .blank t →
      p.span ∈ (fullRun source).stream.blankSpans.filter anew := by
    intro p hp fresh t ht
    rw [blankSpans_fullRun]
    exact List.mem_filter.mpr ⟨Cursor.mem_blankSpans_iff.mpr ⟨p, hp, t, ht, rfl⟩, fresh⟩
  refine ⟨fun p hp fresh t ht => fills.isBlank _ (mem p hp fresh t ht),
    fun p hp fresh t ht => fills.ne_nil _ (mem p hp fresh t ht), ?_⟩
  intro w hw stray p hp fresh t ht
  refine fills.allowed _ (mem p hp fresh t ht) ⟨.skipped, w.span⟩ ?_ rfl ?_
  · rw [trivia_fullRun]
    refine List.mem_filterMap.mpr ⟨w, hw, ?_⟩
    rw [Placed.trivia?, stray]
  · have cut := ((Cursor.After.start source).onSource w hw).slice?_span
    rw [stray] at cut
    exact cut

variable {source}

theorem Relaid.sameReading {other : Text} (h : Relaid (pieces source) (pieces other)) :
    Output.SameReading (tokenizeWith config source) (tokenizeWith config other) := by
  have lexed : lexemes other = lexemes source := by
    rw [lexemes, lexemes, List.filterMap_eq_flatMap_toList, List.filterMap_eq_flatMap_toList]
    exact h.flatMap_eq fun _ => rfl
  have faults : (pieces other).flatMap Piece.faults = (pieces source).flatMap Piece.faults :=
    h.flatMap_eq fun _ => rfl
  refine ⟨?_, ?_, ?_⟩
  · rw [lexemes_tokenizeWith, lexemes_tokenizeWith, lexed]
  · rw [(faults_tokenizeWith config other).1, (faults_tokenizeWith config source).1, faults]
  · rw [(faults_tokenizeWith config other).2, (faults_tokenizeWith config source).2, faults]

theorem sameReading_refill {anew : Span → Bool} {fill : Span → Text}
    (fills : (fullRun source).stream.Fills ((fullRun source).stream.blankSpans.filter anew) fill) :
    Output.SameReading (tokenizeWith config source) (tokenizeWith config
      (source.refill ((fullRun source).stream.blankSpans.filter anew) fill)) := by
  have relaid := (Cursor.start source).relaid_refill (placedFills source fills)
  have text := (Cursor.After.start source).refillFrom_eq anew fill
  rw [← blankSpans_fullRun] at text
  have whole := relaid.pieces_eq
  rw [← text] at whole
  rw [← whole] at relaid
  exact relaid.sameReading config

theorem filter_eq_blankSpan {v : Span} (hv : v ∈ (fullRun source).stream.blankSpans) :
    (fullRun source).stream.blankSpans.filter (· = v) = [v] := by
  have once : (fullRun source).stream.blankSpans.Nodup := by
    rw [blankSpans_fullRun]
    exact (Cursor.After.start source).nodup_blankSpans
  rw [List.filter_eq, List.count_eq_one_of_mem once hv, List.replicate_one]

theorem Stream.HasBlank.ne_nil {a t b : Text} {v : Span}
    (h : (fullRun source).stream.HasBlank a t b v) : t ≠ [] := by
  have mem := h.mem
  rw [blankSpans_fullRun] at mem
  obtain ⟨p, hp, -, -, rfl⟩ := Cursor.mem_blankSpans_iff.mp mem
  have filled := ((Cursor.After.start source).bounds_of_mem hp).2.1
  rw [h.start, h.stop, Text.byteLength_append] at filled
  rintro rfl
  exact Nat.lt_irrefl _ filled

theorem Stream.HasBlank.refill_eq {a t b : Text} {v : Span}
    (h : (fullRun source).stream.HasBlank a t b v) (u : Text) :
    source.refill [v] (fun _ => u) = a ++ u ++ b := by
  have whole : source = a ++ (t ++ b) := h.source_eq.trans (List.append_assoc a t b)
  have start : v.start.offset = 0 + Text.byteLength a := by rw [h.start, Nat.zero_add]
  have stop : v.stop.offset = 0 + Text.byteLength a + Text.byteLength t := by
    rw [h.stop, Text.byteLength_append, Nat.zero_add]
  have front : ∀ w ∈ [v], 0 + Text.byteLength a ≤ w.start.offset := by
    intro w hw
    rw [List.mem_singleton.mp hw, start]
  rw [whole, Text.refill, Text.refillFrom_append, Text.refillFrom_eq_self front,
    Text.refillFrom_span_append h.ne_nil start stop, Text.refillFrom_eq_self (by simp),
    List.append_assoc]

theorem sameReading_replace {a t b u : Text} {v : Span}
    (h : (fullRun source).stream.HasBlank a t b v) (blank : Blank.IsBlank u) (ne : u ≠ [])
    (allowed : (fullRun source).stream.Allows v u) :
    Output.SameReading (tokenizeWith config source) (tokenizeWith config (a ++ u ++ b)) := by
  have single := filter_eq_blankSpan h.mem
  have fills : (fullRun source).stream.Fills
      ((fullRun source).stream.blankSpans.filter (· = v)) fun _ => u := by
    rw [single]
    refine ⟨fun _ _ => blank, fun _ _ => ne, ?_⟩
    intro w hw
    rwa [List.mem_singleton.mp hw]
  have same := sameReading_refill config fills
  rwa [single, h.refill_eq u] at same

end

def Blank.units : List Text := [[' '], ['\n'], ['\r', '\n'], ['\\', '\n'], ['\\', '\r', '\n']]

theorem Blank.isBlank_of_mem_units : ∀ u ∈ units, IsBlank u ∧ u ≠ [] := by
  simp only [units, List.forall_mem_cons]
  refine ⟨⟨.whitespace rfl .nil, by simp⟩, ⟨.whitespace rfl .nil, by simp⟩,
    ⟨.whitespace rfl (.whitespace rfl .nil), by simp⟩, ⟨.continuation .nil, by simp⟩,
    ⟨.longContinuation .nil, by simp⟩, by simp⟩

/-- Reading does not tell the layout of a source: other blanks in place of all its blanks leave
tokens and errors as they are but for their places. Within one blank a space, a line break and a
line continuation may stand for one another, but for a line break directly behind a stray
backslash. -/
theorem layout_unread (config : Config) (source : Text) :
    let stream := (fullRun source).stream
    (∀ fill : Span → Text, stream.Fills stream.blankSpans fill →
      Output.SameReading (tokenizeWith config source)
        (tokenizeWith config (source.refill stream.blankSpans fill))) ∧
    (∀ (a x u y b : Text) (v : Span), stream.HasBlank a (x ++ u ++ y) b v →
      Blank.IsBlank x → u ∈ Blank.units → Blank.IsBlank y →
      ∀ w ∈ Blank.units, stream.Allows v (x ++ w ++ y) →
        Output.SameReading (tokenizeWith config source)
          (tokenizeWith config (a ++ (x ++ w ++ y) ++ b))) := by
  intro stream
  constructor
  · intro fill fills
    have all : stream.blankSpans.filter (fun _ => true) = stream.blankSpans := by simp
    rw [← all] at fills ⊢
    exact sameReading_refill config fills
  · intro a x u y b v h hx _ hy w hw allowed
    obtain ⟨isBlank, ne⟩ := Blank.isBlank_of_mem_units w hw
    exact sameReading_replace config h ((hx.append isBlank).append hy) (by simp [ne]) allowed

/-- A tab and a space are put in place of a space behind a stray backslash and of a continuation,
and then a line break in place of the continuation alone. -/
theorem layout_unread_backslash :
    let source : Text := ['\\', ' ', 'a', '\\', '\n', 'b']
    Output.SameReading (tokenizeWith {} source)
        (tokenizeWith {} ['\\', '\t', 'a', ' ', 'b']) ∧
      Output.SameReading (tokenizeWith {} source)
        (tokenizeWith {} ['\\', ' ', 'a', '\n', 'b']) := by
  intro source
  obtain ⟨every, one⟩ := layout_unread {} source
  constructor
  · let fill : Span → Text := fun v => if v.start.offset = 1 then ['\t'] else [' ']
    have isBlank : ∀ v, Blank.IsBlank (fill v) := by
      intro v
      simp only [fill]
      split
      · exact .whitespace rfl .nil
      · exact .whitespace rfl .nil
    have ne : ∀ v, fill v ≠ [] := by
      intro v
      simp only [fill]
      split <;> simp
    have allowed : ∀ v ∈ (fullRun source).stream.blankSpans,
        (fullRun source).stream.Allows v (fill v) := by decide +kernel
    have text : source.refill (fullRun source).stream.blankSpans fill =
        ['\\', '\t', 'a', ' ', 'b'] := by decide +kernel
    exact text ▸ every fill ⟨fun v _ => isBlank v, fun v _ => ne v, allowed⟩
  · have blank : (fullRun source).stream.HasBlank ['\\', ' ', 'a'] ['\\', '\n'] ['b']
        ⟨⟨1, 3, 3⟩, ⟨2, 0, 5⟩⟩ := ⟨rfl, by decide +kernel, rfl, rfl⟩
    have allowed : (fullRun source).stream.Allows ⟨⟨1, 3, 3⟩, ⟨2, 0, 5⟩⟩ ['\n'] := by decide +kernel
    exact one ['\\', ' ', 'a'] [] ['\\', '\n'] [] ['b'] _ blank .nil (by decide) .nil ['\n']
      (by decide) allowed

end Lexis
