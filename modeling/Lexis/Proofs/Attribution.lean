import Lexis.Proofs.CleanStream
import Lexis.Proofs.Lossless
import Lexis.Proofs.Scan

/-! Errors and the stretches of the source they are about. What is skipped is skipped for an error
that is found at its start, and the escapes at fault lie within the literals. -/

namespace Lexis
set_option autoImplicit false

namespace LexicalError

/-- The trivia is what was skipped for the error. -/
def Skips (source : Text) (v : Trivia) : LexicalError → Prop
  | unrecognizedCharacter c p => v.span.start = p ∧ v.span.slice? source = some [c]
  | unterminatedString p => v.span.start = p ∧ v.span.stop.offset = Text.byteLength source ∧
    ∃ q s, isQuote q ∧ v.span.slice? source = some (q :: s)
  | invalidEscapeSequence _ _ => False

/-- The character stands in the source at the place, and a backslash directly before it. -/
def Escapes (source : Text) (x : Char) (p : Position) : Prop :=
  ∃ before after, before ++ '\\' :: x :: after = source ∧
    p.offset = Text.byteLength (before ++ ['\\'])

/-- Errors are found from the front to the back, but for a quote left open: the escapes after it
are found first. -/
def Precedes (a b : LexicalError) : Prop :=
  a.position.offset < b.position.offset ∨
    a.kind = .invalidEscapeSequence ∧ b.kind = .unterminatedString ∧
      b.position.offset < a.position.offset

theorem Precedes.offset_ne {a b : LexicalError} (h : a.Precedes b) :
    a.position.offset ≠ b.position.offset := by
  rcases h with h | ⟨-, -, h⟩
  · exact Nat.ne_of_lt h
  · exact Nat.ne_of_gt h

end LexicalError

theorem Atom.eq_escape_of_invalid? {a : Atom} {x : Char} (h : a.invalid? = some x) :
    a = .escape x := by
  cases a with
  | escape c =>
    simp only [invalid?, Option.ite_none_right_eq_some, Option.some.injEq] at h
    rw [h.2]
  | _ => cases h

namespace Quoted

/-- A fault of a body is an escape that stands in the body, and it is found behind the backslash. -/
theorem exists_of_mem_faults {c : Cursor} {as : List Atom} : ∀ e ∈ faults c as, ∃ u x v,
    as.flatMap Atom.text = u ++ ['\\'] ++ x :: v ∧
      e = .invalidEscapeSequence x (c.skip (u ++ ['\\']).length).position := by
  induction as generalizing c with
  | nil => simp [faults]
  | cons a as ih =>
    intro e he
    rw [List.flatMap_cons]
    rcases List.mem_append.mp he with he | he
    · obtain ⟨x, hx, rfl⟩ := Option.map_eq_some_iff.mp (Option.mem_toList.mp he)
      obtain rfl := Atom.eq_escape_of_invalid? hx
      exact ⟨[], x, as.flatMap Atom.text, rfl, rfl⟩
    · obtain ⟨u, x, v, body, rfl⟩ := ih e he
      refine ⟨a.text ++ u, x, v, ?_, ?_⟩
      · rw [body]
        simp
      · rw [Cursor.skip_skip, ← List.length_append, List.append_assoc]

variable {before : Text} {c : Cursor} {as : List Atom} (h : c.After before)
  (front : as.flatMap Atom.text <+: c.rest)
include h front

theorem exists_escape_of_mem_faults : ∀ e ∈ faults c as, ∃ x p, e = .invalidEscapeSequence x p ∧
    LexicalError.Escapes (before ++ c.rest) x p ∧ Text.byteLength before < p.offset ∧
    p.offset < Text.byteLength (before ++ as.flatMap Atom.text) := by
  intro e he
  obtain ⟨u, x, v, body, rfl⟩ := exists_of_mem_faults e he
  obtain ⟨r, hr⟩ := front
  rw [body] at hr
  have place := h.skip_prefix ((List.prefix_append (u ++ ['\\']) (x :: v)).trans ⟨r, hr⟩)
  have escaped := x.utf8Size_pos
  have backslash := Char.utf8Size_pos '\\'
  refine ⟨x, _, rfl, ⟨before ++ u, v ++ r, ?_, ?_⟩, ?_, ?_⟩
  · rw [← hr]
    simp
  · rw [place.offset, List.append_assoc]
  · rw [place.offset]
    simp only [Text.byteLength_append, Text.byteLength_cons]
    omega
  · rw [place.offset, body]
    simp only [Text.byteLength_append, Text.byteLength_cons]
    omega

theorem pairwise_faults : (faults c as).Pairwise fun a b =>
    a.position.offset < b.position.offset := by
  induction as generalizing before c with
  | nil => exact .nil
  | cons a as ih =>
    have here : a.text <+: c.rest := (List.prefix_append _ _).trans front
    have first : [a].flatMap Atom.text <+: c.rest := by simpa using here
    have later := front
    rw [← Cursor.append_rest_skip here, List.flatMap_cons, List.prefix_append_right_inj] at later
    apply List.pairwise_append.mpr
    refine ⟨?_, ih (h.skip_prefix here) later, ?_⟩
    · cases a.invalid? with
      | none => exact .nil
      | some x => exact List.pairwise_singleton _ _
    · intro e he f hf
      have within : e ∈ faults c [a] := by simpa [faults] using he
      obtain ⟨x, p, rfl, -, -, high⟩ := exists_escape_of_mem_faults h first e within
      obtain ⟨y, q, rfl, -, low, -⟩ :=
        exists_escape_of_mem_faults (h.skip_prefix here) later f hf
      rw [List.flatMap_singleton] at high
      exact Nat.lt_trans high low

end Quoted

theorem Piece.eq_read_of_quoted {x : Char} {s : Text} {l : Quoted} (h : read x s = .quoted l) :
    isQuote x ∧ l = Quoted.read x s := by
  have quote : isQuote x := by
    have fits := fits_read x s
    rw [h] at fits
    cases fits with
    | closed _ longest literal =>
      cases literal with
      | stringLiteral hs =>
        have lead := Text.lead?_of_prefix longest.isPrefix longest.ne_nil
        exact CharClass.has_of_lead? (lead.symm.trans hs.lead?)
    | unclosed _ _ hq _ => exact hq
  rw [read_of_isQuote quote] at h
  exact ⟨quote, (Piece.quoted.inj h).symm⟩

namespace Placed

/-- The piece is a literal that nothing closes. -/
def IsOpen (p : Placed) : Prop := ∃ l, p.piece = .quoted l ∧ l.closed = false

variable {front : Text} {c : Cursor} {x : Char} {s : Text} (h : c.After front)
  (hs : c.rest = x :: s)

inductive Blames (source : Text) (p : Placed) : LexicalError → Prop where
  | escape {l : Quoted} {y : Char} {q : Position} : p.piece = .quoted l →
    LexicalError.Escapes source y q → p.span.start.offset < q.offset →
    q.offset < p.span.stop.offset → Blames source p (.invalidEscapeSequence y q)
  | unclosed : p.IsOpen → Blames source p (.unterminatedString p.start.position)
  | stray {y : Char} : p.piece = .stray y →
    Blames source p (.unrecognizedCharacter y p.start.position)

include h hs

theorem after_quote : c.advance.After (front ++ [x]) ∧
    (Quoted.read x s).body.flatMap Atom.text <+: c.advance.rest ∧
    front ++ [x] ++ c.advance.rest = front ++ c.rest ∧
    c.position.offset ≤ Text.byteLength (front ++ [x]) := by
  have first : [x] <+: c.rest := hs ▸ List.prefix_append [x] s
  have split : [x] ++ c.advance.rest = c.rest := Cursor.append_rest_skip first
  refine ⟨h.skip_prefix first, ?_, ?_, ?_⟩
  · rw [Cursor.advance_rest, hs]
    exact (List.prefix_append _ _).trans (Quoted.readBody_isPrefix x false s)
  · rw [List.append_assoc, split]
  · rw [h.offset, Text.byteLength_append]
    exact Nat.le_add_right _ _

theorem blames_of_mem_errors : ∀ e ∈ errors ⟨.read x s, c⟩,
    Blames (front ++ c.rest) ⟨.read x s, c⟩ e := by
  intro e he
  have stop := (h.stop hs).offset
  cases hp : Piece.read x s with
  | blank t =>
    rw [hp, errors_blank] at he
    cases he
  | lexeme k t =>
    rw [hp, errors_lexeme] at he
    cases he
  | stray y =>
    rw [hp, errors_stray] at he
    obtain rfl := List.mem_singleton.mp he
    exact .stray rfl
  | quoted l =>
    rw [hp] at stop
    rw [hp, errors_quoted] at he
    obtain ⟨hq, rfl⟩ := Piece.eq_read_of_quoted hp
    obtain ⟨place, inside, whole, behind⟩ := after_quote h hs
    rcases List.mem_append.mp he with he | he
    · obtain ⟨y, q, rfl, escapes, low, high⟩ :=
        Quoted.exists_escape_of_mem_faults place inside e he
      rw [whole] at escapes
      refine .escape rfl escapes (Nat.lt_of_le_of_lt behind low) ?_
      show q.offset < (Placed.stop ⟨.quoted (Quoted.read x s), c⟩).position.offset
      have text : (Piece.quoted (Quoted.read x s)).text =
          [x] ++ ((Quoted.read x s).body.flatMap Atom.text ++
            Quoted.ending x (Quoted.read x s).closed) := rfl
      simp only [text, Text.byteLength_append] at stop high
      omega
    · cases hc : (Quoted.read x s).closed with
      | true => simp [hc] at he
      | false =>
        rw [hc] at he
        obtain rfl := List.mem_singleton.mp he
        exact .unclosed ⟨_, rfl, hc⟩

theorem pairwise_errors : (errors ⟨.read x s, c⟩).Pairwise LexicalError.Precedes := by
  cases hp : Piece.read x s with
  | blank t => exact .nil
  | lexeme k t => exact .nil
  | stray y => exact List.pairwise_singleton _ _
  | quoted l =>
    obtain ⟨hq, rfl⟩ := Piece.eq_read_of_quoted hp
    obtain ⟨place, inside, -, behind⟩ := after_quote h hs
    rw [errors_quoted]
    apply List.pairwise_append.mpr
    refine ⟨(Quoted.pairwise_faults place inside).imp Or.inl, ?_, ?_⟩
    · split
      · exact .nil
      · exact List.pairwise_singleton _ _
    · intro a ha b hb
      obtain ⟨y, q, rfl, -, low, -⟩ := Quoted.exists_escape_of_mem_faults place inside a ha
      cases hc : (Quoted.read x s).closed with
      | true => simp [hc] at hb
      | false =>
        rw [hc] at hb
        obtain rfl := List.mem_singleton.mp hb
        -- The quote that is left open comes before the escapes after it.
        exact Or.inr ⟨rfl, rfl, Nat.lt_of_le_of_lt behind low⟩

theorem bounds_of_mem_errors : ∀ e ∈ errors ⟨.read x s, c⟩, c.position.offset ≤ e.position.offset ∧
    e.position.offset < (Placed.stop ⟨.read x s, c⟩).position.offset := by
  intro e he
  have further := h.offset_lt_stop hs
  cases blames_of_mem_errors h hs e he with
  | escape _ _ low high => exact ⟨Nat.le_of_lt low, high⟩
  | unclosed _ => exact ⟨Nat.le_refl _, further⟩
  | stray _ => exact ⟨Nat.le_refl _, further⟩

theorem stop_of_isOpen (isOpen : IsOpen ⟨.read x s, c⟩) :
    (Placed.stop ⟨.read x s, c⟩).rest = [] ∧
      (Placed.stop ⟨.read x s, c⟩).position.offset = Text.byteLength (front ++ c.rest) := by
  obtain ⟨l, hl, unclosed⟩ := isOpen
  obtain ⟨-, rfl⟩ := Piece.eq_read_of_quoted hl
  have text : (Piece.read x s).text = c.rest := by
    rw [hs, show Piece.read x s = .quoted (Quoted.read x s) from hl]
    exact Quoted.read_text_of_not_closed unclosed
  have split := Cursor.text_append_rest_stop hs
  have offset := (h.stop hs).offset
  rw [text] at split offset
  exact ⟨by simpa using split, offset⟩

/-- A piece is skipped for the one error that is not an escape, or there is neither. -/
theorem forall₂_skips : List.Forall₂ (LexicalError.Skips (front ++ c.rest))
    ((trivia? ⟨.read x s, c⟩).toList.filter (·.kind = .skipped))
    ((errors ⟨.read x s, c⟩).filter (·.kind ≠ .invalidEscapeSequence)) := by
  have cut := h.slice?_span hs
  cases hp : Piece.read x s with
  | blank t => exact .nil
  | lexeme k t => exact .nil
  | stray y =>
    rw [hp] at cut
    exact .cons ⟨rfl, cut⟩ .nil
  | quoted l =>
    obtain ⟨hq, rfl⟩ := Piece.eq_read_of_quoted hp
    rw [errors_quoted, List.filter_append, Cursor.drops_faults, List.nil_append]
    cases hc : (Quoted.read x s).closed with
    | true => simp [trivia?, hc]
    | false =>
      rw [trivia?_of_not_closed hc]
      have offset := (stop_of_isOpen h hs ⟨_, hp, hc⟩).2
      rw [hp] at cut offset
      rw [Piece.text, Quoted.read_text_of_not_closed hc] at cut
      exact .cons ⟨rfl, offset, x, s, hq, cut⟩ .nil

end Placed

theorem forall₂_flatMap {α β γ : Type} {R : β → γ → Prop} {f : α → List β} {g : α → List γ}
    {l : List α} (h : ∀ a ∈ l, List.Forall₂ R (f a) (g a)) :
    List.Forall₂ R (l.flatMap f) (l.flatMap g) := by
  induction l with
  | nil => exact .nil
  | cons a l ih =>
    obtain ⟨first, later⟩ := List.forall_mem_cons.mp h
    exact List.rel_append first (ih later)

namespace Cursor

theorem After.placed_cases {before : Text} {c : Cursor} (h : c.After before) :
    (∀ p ∈ c.placed, ¬ p.IsOpen) ∨
      ∃ ps p, c.placed = ps ++ [p] ∧ p.IsOpen ∧ ∀ q ∈ ps, ¬ q.IsOpen := by
  induction c using walk generalizing before with
  | atEnd c hs => simp [placed_of_rest_nil hs]
  | onward c x s hs ih =>
    rw [placed_of_rest_cons hs]
    by_cases isOpen : Placed.IsOpen ⟨.read x s, c⟩
    · have last := (Placed.stop_of_isOpen h hs isOpen).1
      rw [placed_of_rest_nil last]
      exact Or.inr ⟨[], _, rfl, isOpen, by simp⟩
    · rcases ih (h.stop hs) with closed | ⟨ps, p, hp, last, closed⟩
      · exact Or.inl (List.forall_mem_cons.mpr ⟨isOpen, closed⟩)
      · rw [hp]
        exact Or.inr ⟨_ :: ps, p, rfl, last, List.forall_mem_cons.mpr ⟨isOpen, closed⟩⟩

variable {before : Text} {c : Cursor} (h : c.After before)
include h

theorem After.blames : ∀ p ∈ c.placed, ∀ e ∈ p.errors, p.Blames (before ++ c.rest) e := by
  refine h.forall_placed ?_
  intro front d x s after hs whole
  rw [← whole]
  exact Placed.blames_of_mem_errors after hs

theorem After.pairwise_errors :
    (c.placed.flatMap Placed.errors).Pairwise LexicalError.Precedes := by
  have bounds : ∀ p ∈ c.placed, ∀ e ∈ p.errors,
      p.span.start.offset ≤ e.position.offset ∧ e.position.offset < p.span.stop.offset :=
    h.forall_placed fun _ _ _ _ after hs _ => Placed.bounds_of_mem_errors after hs
  apply List.pairwise_flatMap.mpr
  refine ⟨h.forall_placed fun _ _ _ _ after hs _ => Placed.pairwise_errors after hs, ?_⟩
  apply h.pairwise_placed.imp_of_mem
  intro p q hp hq apart a ha b hb
  have := (bounds p hp a ha).2
  have := (bounds q hq b hb).1
  exact Or.inl (by omega)

theorem After.forall₂_skips : List.Forall₂ (LexicalError.Skips (before ++ c.rest))
    (c.trivia.filter (·.kind = .skipped))
    ((c.placed.flatMap Placed.errors).filter (·.kind ≠ .invalidEscapeSequence)) := by
  rw [trivia, List.filterMap_eq_flatMap_toList, List.filter_flatMap, List.filter_flatMap]
  apply forall₂_flatMap
  refine h.forall_placed ?_
  intro front d x s after hs whole
  rw [← whole]
  exact Placed.forall₂_skips after hs

theorem After.offset_stop_of_isOpen : ∀ p ∈ c.placed, p.IsOpen →
    p.stop.position.offset = Text.byteLength (before ++ c.rest) := by
  refine h.forall_placed ?_
  intro front d x s after hs whole isOpen
  rw [(Placed.stop_of_isOpen after hs isOpen).2, whole]

/-- Where a quote is left open nothing is found or skipped after it. -/
theorem After.exists_last {p : Position}
    (hp : .unterminatedString p ∈ c.placed.flatMap Placed.errors) :
    ∃ es vs stop, c.placed.flatMap Placed.errors = es ++ [.unterminatedString p] ∧
      (∀ e ∈ es, e.kind ≠ .unterminatedString) ∧ c.trivia = vs ++ [⟨.skipped, ⟨p, stop⟩⟩] ∧
      stop.offset = Text.byteLength (before ++ c.rest) := by
  obtain ⟨q, hq, hpq⟩ := List.mem_flatMap.mp hp
  obtain ⟨isOpen, rfl⟩ : q.IsOpen ∧ p = q.start.position := by
    cases h.blames q hq _ hpq with
    | unclosed isOpen => exact ⟨isOpen, rfl⟩
  rcases h.placed_cases with closed | ⟨ps, r, whole, -, closed⟩
  · exact absurd isOpen (closed q hq)
  · obtain rfl : q = r := by
      rw [whole] at hq
      rcases List.mem_append.mp hq with hq | hq
      · exact absurd isOpen (closed q hq)
      · exact List.mem_singleton.mp hq
    have offset := h.offset_stop_of_isOpen q hq isOpen
    obtain ⟨piece, start⟩ := q
    obtain ⟨l, rfl, unclosed⟩ := isOpen
    refine ⟨ps.flatMap Placed.errors ++ Quoted.faults start.advance l.body,
      ps.filterMap Placed.trivia?, (Placed.stop ⟨.quoted l, start⟩).position, ?_, ?_, ?_, ?_⟩
    · simp [whole, Placed.errors_quoted, unclosed]
    · intro e he hk
      rcases List.mem_append.mp he with he | he
      · obtain ⟨q, hq, hqe⟩ := List.mem_flatMap.mp he
        have placed : q ∈ c.placed := whole ▸ List.mem_append_left _ hq
        cases h.blames q placed e hqe with
        | escape => cases hk
        | unclosed isOpen => exact closed q hq isOpen
        | stray => cases hk
      · have kept : e ∈ (Quoted.faults start.advance l.body).filter
            (·.kind ≠ .invalidEscapeSequence) := by simp [he, hk]
        rw [Cursor.drops_faults] at kept
        cases kept
    · simp [trivia, whole, Placed.trivia?, unclosed]
      rfl
    · exact offset

end Cursor

namespace Output

def literalSpans (o : Output) : List Span :=
  (o.stream.tokens.filter (·.kind = .stringLiteral)).map (·.span) ++
    (o.stream.trivia.filter fun v =>
      v.kind = .skipped ∧ .unterminatedString v.span.start ∈ o.errors).map (·.span)

/-- Every error tells what it is about, and whatever was skipped has an error. -/
structure Attributed (o : Output) : Prop where
  skips : List.Forall₂ (LexicalError.Skips o.stream.source)
    (o.stream.trivia.filter (·.kind = .skipped))
    (o.errors.filter (·.kind ≠ .invalidEscapeSequence))
  unterminated_last : ∀ p, .unterminatedString p ∈ o.errors → ∃ es vs stop,
    o.errors = es ++ [.unterminatedString p] ∧ (∀ e ∈ es, e.kind ≠ .unterminatedString) ∧
      o.stream.trivia = vs ++ [⟨.skipped, ⟨p, stop⟩⟩] ∧
      stop.offset = Text.byteLength o.stream.source
  escapes : ∀ x p, .invalidEscapeSequence x p ∈ o.errors →
    LexicalError.Escapes o.stream.source x p ∧
      ∃! s, s ∈ o.literalSpans ∧ s.start.offset < p.offset ∧ p.offset < s.stop.offset
  precedes : o.errors.Pairwise LexicalError.Precedes
  offsets_nodup : (o.errors.map fun e => e.position.offset).Nodup

end Output

section
variable (source : Text)

/-- A run that keeps all its findings. -/
def fullRun : Output := tokenizeWith ⟨true, Config.noLimit⟩ source

theorem errors_fullRun :
    (fullRun source).errors = (Cursor.start source).placed.flatMap Placed.errors :=
  errors_tokenizeWith _ source rfl

theorem trivia_fullRun : (fullRun source).stream.trivia = (Cursor.start source).trivia :=
  trivia_of_keepTrivia _ source rfl

theorem span_mem_literalSpans {p : Placed} (hp : p ∈ (Cursor.start source).placed) {l : Quoted}
    (hl : p.piece = .quoted l) : p.span ∈ (fullRun source).literalSpans := by
  obtain ⟨piece, start⟩ := p
  obtain rfl : piece = .quoted l := hl
  apply List.mem_append.mpr
  cases hc : l.closed with
  | true =>
    left
    have token : Placed.token? ⟨.quoted l, start⟩ =
        some (.string l.text l.value (Placed.span ⟨.quoted l, start⟩)) := by
      simp [Placed.token?, Piece.lexeme?, hc, Token.string]
    have mem : .string l.text l.value (Placed.span ⟨.quoted l, start⟩) ∈
        (fullRun source).stream.tokens :=
      List.mem_append_left _ (List.mem_filterMap.mpr ⟨_, hp, token⟩)
    exact List.mem_map.mpr ⟨_, List.mem_filter.mpr ⟨mem, by simp [Token.string]⟩, rfl⟩
  | false =>
    right
    have trivia := Placed.trivia?_of_not_closed hc start
    have mem : ⟨.skipped, Placed.span ⟨.quoted l, start⟩⟩ ∈ (fullRun source).stream.trivia := by
      rw [trivia_fullRun]
      exact List.mem_filterMap.mpr ⟨_, hp, trivia⟩
    have blamed : .unterminatedString start.position ∈ (fullRun source).errors := by
      rw [errors_fullRun]
      exact List.mem_flatMap.mpr ⟨_, hp, by simp [Placed.errors_quoted, hc]⟩
    exact List.mem_map.mpr ⟨_, List.mem_filter.mpr ⟨mem, decide_eq_true ⟨rfl, blamed⟩⟩, rfl⟩

theorem exists_piece_of_mem_literalSpans {s : Span} (hs : s ∈ (fullRun source).literalSpans) :
    ∃ p ∈ (Cursor.start source).placed, s = p.span := by
  rcases List.mem_append.mp hs with hs | hs
  · obtain ⟨t, ht, rfl⟩ := List.mem_map.mp hs
    obtain ⟨mem, literal⟩ := List.mem_filter.mp ht
    rcases List.mem_append.mp mem with mem | mem
    · obtain ⟨p, hp, hpt⟩ := List.mem_filterMap.mp mem
      exact ⟨p, hp, (Placed.token?_eq_some hpt).1⟩
    · obtain rfl := List.mem_singleton.mp mem
      simp [Token.endOfInput, Token.plain] at literal
  · obtain ⟨v, hv, rfl⟩ := List.mem_map.mp hs
    have mem := (List.mem_filter.mp hv).1
    rw [trivia_fullRun] at mem
    obtain ⟨p, hp, hpv⟩ := List.mem_filterMap.mp mem
    refine ⟨p, hp, ?_⟩
    rw [Placed.eq_passed_of_trivia? hpv]
    rfl

/-- Errors and what was skipped for them belong together one to one and in order, and every escape
at fault lies within exactly one literal. -/
theorem attributed_fullRun : (fullRun source).Attributed := by
  have h := Cursor.After.start source
  have errors := errors_fullRun source
  have trivia := trivia_fullRun source
  have precedes : (fullRun source).errors.Pairwise LexicalError.Precedes := by
    rw [errors]
    exact h.pairwise_errors
  refine ⟨?_, ?_, ?_, precedes, ?_⟩
  · rw [errors, trivia]
    exact h.forall₂_skips
  · rw [errors, trivia]
    exact fun p hp => h.exists_last hp
  · intro x q hq
    rw [errors] at hq
    obtain ⟨p, hp, he⟩ := List.mem_flatMap.mp hq
    cases h.blames p hp _ he with
    | escape hl escapes low high =>
      refine ⟨escapes, p.span, ⟨span_mem_literalSpans source hp hl, low, high⟩, ?_⟩
      rintro s ⟨hs, within⟩
      obtain ⟨r, hr, rfl⟩ := exists_piece_of_mem_literalSpans source hs
      have spans := h.tiles_placed
      exact spans.eq_of_mem (List.mem_map_of_mem hr) (List.mem_map_of_mem hp) within ⟨low, high⟩
  · apply List.pairwise_map.mpr
    exact precedes.imp LexicalError.Precedes.offset_ne

end

end Lexis
