import Lexis.Proofs.Attribution
import Lexis.Proofs.Written
import Mathlib.Data.List.Perm.Subperm
import Mathlib.Data.Prod.Lex

/-! Lines and columns are in the order of offsets. The one place where they stand still is within a
two-character line break, and nothing that is reported begins or ends there. -/

namespace Lexis
set_option autoImplicit false

/-- The two parts of a source meet within a two-character line break. -/
def Text.SplitsBreak (before rest : Text) : Prop :=
  before.getLast? = some '\r' ∧ rest.head? = some '\n'

namespace Position

def lineColumn (p : Position) : Lex (Nat × Nat) := toLex (p.line, p.column)

theorem lineColumn_lt_iff (p q : Position) : p.lineColumn < q.lineColumn ↔
    p.line < q.line ∨ p.line = q.line ∧ p.column < q.column := Prod.Lex.toLex_lt_toLex

theorem lineColumn_past_joined (p : Position) :
    (p.past '\r' (some '\n')).lineColumn = p.lineColumn := rfl

theorem lineColumn_lt_past (p : Position) {c : Char} {next? : Option Char}
    (parted : ¬ (c = '\r' ∧ next? = some '\n')) : p.lineColumn < (p.past c next?).lineColumn := by
  rw [lineColumn_lt_iff, past]
  split
  · exact Or.inl (Nat.lt_succ_self _)
  · rename_i noBreak
    split
    · rename_i hc
      exact absurd ⟨hc, by simpa [breaksLine, hc] using noBreak⟩ parted
    · exact Or.inr ⟨rfl, Nat.lt_succ_self _⟩

theorem lineColumn_le_past (p : Position) (c : Char) (next? : Option Char) :
    p.lineColumn ≤ (p.past c next?).lineColumn := by
  by_cases joined : c = '\r' ∧ next? = some '\n'
  · obtain ⟨rfl, rfl⟩ := joined
    exact le_of_eq p.lineColumn_past_joined.symm
  · exact le_of_lt (p.lineColumn_lt_past joined)

theorem lineColumn_between_le (a x b : Text) :
    (between a (x ++ b)).lineColumn ≤ (between (a ++ x) b).lineColumn := by
  induction x generalizing a with
  | nil => rw [List.append_nil, List.nil_append]
  | cons c x ih =>
    have first := (between a (c :: (x ++ b))).lineColumn_le_past c (x ++ b).head?
    have later := ih (a ++ [c])
    rw [past_between] at first
    rw [List.append_assoc] at later
    exact le_trans first later

theorem lineColumn_between_lt {a x b : Text} (ne : x ≠ [])
    (parted : ¬ Text.SplitsBreak (a ++ x) b) :
    (between a (x ++ b)).lineColumn < (between (a ++ x) b).lineColumn := by
  obtain ⟨x, c, rfl⟩ : ∃ y c, x = y ++ [c] := ⟨_, _, (List.dropLast_concat_getLast ne).symm⟩
  have early := lineColumn_between_le a x (c :: b)
  have last : ¬ (c = '\r' ∧ b.head? = some '\n') := by
    rintro ⟨rfl, hb⟩
    exact parted ⟨by simp, hb⟩
  have late := (between (a ++ x) (c :: b)).lineColumn_lt_past last
  rw [past_between] at late
  rw [List.append_assoc, List.singleton_append, ← List.append_assoc a]
  exact lt_of_le_of_lt early late

/-- Two places share line and column only if the one is before and the other one after the carriage
return of a two-character line break. -/
theorem lineColumn_between_eq_iff {a x b : Text} (ne : x ≠ []) :
    (between a (x ++ b)).lineColumn = (between (a ++ x) b).lineColumn ↔
      x = ['\r'] ∧ b.head? = some '\n' := by
  constructor
  · intro same
    have splits : Text.SplitsBreak (a ++ x) b := by
      by_contra parted
      exact absurd same (ne_of_lt (lineColumn_between_lt ne parted))
    obtain ⟨x, c, rfl⟩ : ∃ y c, x = y ++ [c] := ⟨_, _, (List.dropLast_concat_getLast ne).symm⟩
    obtain rfl : c = '\r' := by simpa using splits.1
    refine ⟨?_, splits.2⟩
    by_contra more
    have filled : x ≠ [] := by
      rintro rfl
      exact more rfl
    have parted : ¬ Text.SplitsBreak (a ++ x) ('\r' :: b) := by simp [Text.SplitsBreak]
    have early := lineColumn_between_lt filled parted
    have late := lineColumn_between_le (a ++ x) ['\r'] b
    rw [List.append_assoc, List.singleton_append, ← List.append_assoc a] at same
    exact absurd same (ne_of_lt (lt_of_lt_of_le early late))
  · rintro ⟨rfl, hb⟩
    have step := past_between a '\r' b
    rw [hb] at step
    rw [← step, lineColumn_past_joined]
    rfl

/-- The place is in the source, and not within a two-character line break. -/
def Clear (source : Text) (p : Position) : Prop :=
  ∃ before rest, before ++ rest = source ∧ p = between before rest ∧
    ¬ Text.SplitsBreak before rest

variable {source : Text} {p q : Position}

theorem Clear.cases (hp : p.Clear source) (hq : q.Clear source) : p = q ∨
    (p.offset < q.offset ∧ p.lineColumn < q.lineColumn) ∨
    (q.offset < p.offset ∧ q.lineColumn < p.lineColumn) := by
  have ordered {a x b : Text} (ne : x ≠ []) (parted : ¬ Text.SplitsBreak (a ++ x) b) :
      (between a (x ++ b)).offset < (between (a ++ x) b).offset ∧
        (between a (x ++ b)).lineColumn < (between (a ++ x) b).lineColumn := by
    have := Text.byteLength_pos ne
    refine ⟨?_, lineColumn_between_lt ne parted⟩
    rw [between_offset, between_offset, Text.byteLength_append]
    omega
  obtain ⟨a, b, rfl, rfl, ha⟩ := hp
  obtain ⟨c, d, same, rfl, hc⟩ := hq
  rcases List.append_eq_append_iff.mp same with ⟨x, rfl, rfl⟩ | ⟨x, rfl, rfl⟩
  · by_cases ne : x = []
    · subst ne
      exact Or.inl (by simp)
    · exact Or.inr (Or.inr (ordered ne ha))
  · by_cases ne : x = []
    · subst ne
      exact Or.inl (by simp)
    · exact Or.inr (Or.inl (ordered ne hc))

theorem Clear.offset_lt_iff (hp : p.Clear source) (hq : q.Clear source) :
    p.offset < q.offset ↔ p.lineColumn < q.lineColumn := by
  rcases hp.cases hq with rfl | ⟨offset, order⟩ | ⟨offset, order⟩
  · exact iff_of_false (lt_irrefl _) (lt_irrefl _)
  · exact iff_of_true offset order
  · exact iff_of_false (lt_asymm offset) (lt_asymm order)

theorem Clear.eq_of_lineColumn (hp : p.Clear source) (hq : q.Clear source)
    (same : p.lineColumn = q.lineColumn) : p = q := by
  rcases hp.cases hq with eq | ⟨-, order⟩ | ⟨-, order⟩
  · exact eq
  · exact absurd same (ne_of_lt order)
  · exact absurd same.symm (ne_of_lt order)

theorem Clear.offset_ne (hp : p.Clear source) {before after : Text}
    (joined : before ++ '\r' :: '\n' :: after = source) :
    p.offset ≠ Text.byteLength (before ++ ['\r']) := by
  obtain ⟨a, b, rfl, rfl, parted⟩ := hp
  intro same
  have cut : before ++ ['\r'] ++ '\n' :: after = a ++ b := by simpa using joined
  have front : a = before ++ ['\r'] := by
    apply Option.some.inj
    rw [← Text.takeBytes?_append a b, ← Text.takeBytes?_append _ ('\n' :: after), cut]
    exact congrArg (Text.takeBytes? · (a ++ b)) same
  subst front
  obtain rfl := List.append_cancel_left cut
  exact parted ⟨by simp, rfl⟩

end Position

theorem IsLexeme.getLast?_ne {k : TokenKind} {t : Text} (h : IsLexeme k t) :
    t.getLast? ≠ some '\r' := by
  intro last
  have mem : '\r' ∈ t := List.mem_of_getLast? last
  by_cases literal : k = .stringLiteral
  · subst literal
    cases h with
    | stringLiteral h =>
      cases h with
      | @intro q b hq _ =>
        rw [← List.cons_append, List.getLast?_concat] at last
        obtain rfl := Option.some.inj last
        cases hq
  · have part := h.isLexemePart_of_mem literal _ mem
    cases (not_isLexemePart_of_isWhitespace (c := '\r') rfl).symm.trans part

theorem Piece.not_splitsBreak {x : Char} {s r : Text} (whole : (read x s).text ++ r = x :: s) :
    ¬ Text.SplitsBreak (read x s).text r := by
  rintro ⟨last, first⟩
  have fits := fits_read x s
  rw [← whole] at fits
  generalize read x s = p at fits last whole
  generalize hs : p.text ++ r = source at fits whole
  cases fits with
  | @blank _ t longest blank =>
    -- The blank would have gone on over the line feed.
    obtain ⟨r, rfl⟩ : ∃ u, r = '\n' :: u := by
      cases r with
      | nil => cases first
      | cons y u => exact ⟨u, by rw [Option.some.inj first]⟩
    have more : Blank.IsBlank (t ++ ['\n']) := blank.append (.whitespace rfl .nil)
    have fits : t ++ ['\n'] <+: source := ⟨r, by rw [← hs, List.append_assoc]; rfl⟩
    have short := longest.maximal _ (Or.inl more) fits
    rw [List.length_append] at short
    exact Nat.not_succ_le_self _ short
  | lexeme _ lexeme => exact lexeme.getLast?_ne last
  | closed _ _ literal => exact literal.getLast?_ne last
  | unclosed _ _ _ all =>
    obtain rfl : r = [] := by
      rw [text, all] at hs
      simpa using hs
    cases first
  | stray unmatched _ =>
    obtain rfl := Option.some.inj last
    have blank : IsMatch ['\r'] := Or.inl (.whitespace rfl .nil)
    cases unmatched _ blank (List.prefix_append _ _)

theorem Text.SplitsBreak.of_append {a t r : Text} (ne : t ≠ []) (h : SplitsBreak (a ++ t) r) :
    SplitsBreak t r := by
  refine ⟨?_, h.2⟩
  have last := h.1
  rwa [List.getLast?_append_of_ne_nil _ ne] at last

theorem Quoted.clear_of_mem_faults {before : Text} {c : Cursor} {as : List Atom}
    (h : c.After before) (front : as.flatMap Atom.text <+: c.rest) :
    ∀ e ∈ faults c as, e.position.Clear (before ++ c.rest) := by
  intro e he
  obtain ⟨u, x, v, body, rfl⟩ := exists_of_mem_faults e he
  rw [body] at front
  have here := (List.prefix_append (u ++ ['\\']) (x :: v)).trans front
  -- The character before the place is the backslash, and no carriage return.
  refine ⟨_, _, ?_, h.skip_prefix here, by simp [Text.SplitsBreak]⟩
  rw [List.append_assoc, Cursor.append_rest_skip here]

namespace Cursor
variable {before : Text} {c : Cursor} (h : c.After before)
  (parted : ¬ Text.SplitsBreak before c.rest)
include h parted

theorem After.clear_position : c.position.Clear (before ++ c.rest) :=
  ⟨before, c.rest, rfl, h, parted⟩

theorem After.clear_errors {x : Char} {s : Text} (hs : c.rest = x :: s) :
    ∀ e ∈ Placed.errors ⟨.read x s, c⟩, e.position.Clear (before ++ c.rest) := by
  have place := h.clear_position parted
  intro e he
  cases hp : Piece.read x s with
  | blank t =>
    rw [hp, Placed.errors_blank] at he
    cases he
  | lexeme k t =>
    rw [hp, Placed.errors_lexeme] at he
    cases he
  | stray y =>
    rw [hp, Placed.errors_stray] at he
    obtain rfl := List.mem_singleton.mp he
    exact place
  | quoted l =>
    rw [hp, Placed.errors_quoted] at he
    obtain ⟨-, rfl⟩ := Piece.eq_read_of_quoted hp
    rcases List.mem_append.mp he with he | he
    · obtain ⟨inside, body, whole, -⟩ := Placed.after_quote h hs
      rw [← whole]
      exact Quoted.clear_of_mem_faults inside body e he
    · cases hc : (Quoted.read x s).closed with
      | true => simp [hc] at he
      | false =>
        rw [hc] at he
        obtain rfl := List.mem_singleton.mp he
        exact place

theorem After.clear_placed : (∀ p ∈ c.placed, p.start.position.Clear (before ++ c.rest) ∧
      p.stop.position.Clear (before ++ c.rest) ∧
      ∀ e ∈ p.errors, e.position.Clear (before ++ c.rest)) ∧
    c.finish.position.Clear (before ++ c.rest) := by
  induction c using walk generalizing before with
  | atEnd c hs =>
    rw [placed_of_rest_nil hs, finish_of_rest_nil hs]
    exact ⟨by simp, h.clear_position parted⟩
  | onward c x s hs ih =>
    have split := text_append_rest_stop hs
    have place := h.stop hs
    have later : ¬ Text.SplitsBreak (before ++ (Piece.read x s).text)
        (Placed.stop ⟨.read x s, c⟩).rest := by
      intro splits
      exact Piece.not_splitsBreak (hs ▸ split) (splits.of_append (Piece.read_text_ne_nil x s))
    have others := ih place later
    have stop := place.clear_position later
    rw [List.append_assoc, split] at others stop
    rw [placed_of_rest_cons hs, ← finish_stop hs]
    refine ⟨List.forall_mem_cons.mpr ⟨?_, others.1⟩, others.2⟩
    exact ⟨h.clear_position parted, stop, h.clear_errors parted hs⟩

end Cursor

def Stream.spans (s : Stream) : List Span := s.tokens.map (·.span) ++ s.trivia.map (·.span)

/-- All the places that an output reports. -/
def Output.positions (o : Output) : List Position :=
  o.stream.spans.flatMap (fun s => [s.start, s.stop]) ++ o.errors.map (·.position)

section
variable (config : Config) (source : Text)

theorem errors_subset : (tokenizeWith config source).errors ⊆
    (Cursor.start source).placed.flatMap Placed.errors := by
  have kept : (tokenizeWith config source).errors = _ := (records_tokenizeWith config source).errors
  rw [kept]
  exact List.take_subset _ _

theorem subperm_spans : (tokenizeWith config source).stream.spans.Subperm
    (.single (Cursor.start source).finish.position ::
      (Cursor.start source).placed.map Placed.span) := by
  have pieces := (List.filter_append_perm Extent.isToken
    ((Cursor.start source).placed.map Placed.extent)).map Extent.span
  rw [← Placed.map_token, ← Placed.map_trivia, List.map_append, List.map_map, List.map_map,
    List.map_map] at pieces
  have spans : Extent.span ∘ Placed.extent = Placed.span := funext Placed.span_extent
  rw [spans] at pieces
  have kept : (tokenizeWith config source).stream.trivia.Sublist
      ((Cursor.start source).placed.filterMap Placed.trivia?) := by
    rw [trivia_tokenizeWith]
    split
    · exact List.Sublist.refl _
    · exact List.nil_sublist _
  rw [Stream.spans, tokens_tokenizeWith, List.map_append]
  refine ((kept.map _).append_left _).subperm.trans ?_
  rw [List.append_assoc]
  exact (List.perm_middle.trans (pieces.cons _)).subperm

theorem mem_spans {s : Span} (hs : s ∈ (tokenizeWith config source).stream.spans) :
    s = .single (Cursor.start source).finish.position ∨
      ∃ p ∈ (Cursor.start source).placed, s = p.span := by
  rcases List.mem_cons.mp ((subperm_spans config source).subset hs) with rfl | hs
  · exact Or.inl rfl
  · obtain ⟨p, hp, rfl⟩ := List.mem_map.mp hs
    exact Or.inr ⟨p, hp, rfl⟩

theorem clear_start : (∀ p ∈ (Cursor.start source).placed, p.start.position.Clear source ∧
      p.stop.position.Clear source ∧ ∀ e ∈ p.errors, e.position.Clear source) ∧
    (Cursor.start source).finish.position.Clear source :=
  (Cursor.After.start source).clear_placed (by simp [Text.SplitsBreak])

theorem clear_of_mem_spans {s : Span} (hs : s ∈ (tokenizeWith config source).stream.spans) :
    s.start.Clear source ∧ s.stop.Clear source ∧ s.start.offset ≤ s.stop.offset := by
  obtain ⟨places, finish⟩ := clear_start source
  rcases mem_spans config source hs with rfl | ⟨p, hp, rfl⟩
  · exact ⟨finish, finish, Nat.le_refl _⟩
  · have bounds := (Cursor.After.start source).bounds_of_mem hp
    exact ⟨(places p hp).1, (places p hp).2.1, Nat.le_of_lt bounds.2.1⟩

theorem clear_of_mem_positions {p : Position}
    (hp : p ∈ (tokenizeWith config source).positions) : p.Clear source := by
  rcases List.mem_append.mp hp with hp | hp
  · obtain ⟨s, hs, hp⟩ := List.mem_flatMap.mp hp
    obtain ⟨start, stop, -⟩ := clear_of_mem_spans config source hs
    rcases List.mem_cons.mp hp with rfl | hp
    · exact start
    · obtain rfl := List.mem_singleton.mp hp
      exact stop
  · obtain ⟨e, he, rfl⟩ := List.mem_map.mp hp
    obtain ⟨piece, hpiece, he⟩ := List.mem_flatMap.mp (errors_subset config source he)
    exact ((clear_start source).1 piece hpiece).2.2 e he

theorem pairwise_start : (Span.single (Cursor.start source).finish.position ::
    (Cursor.start source).placed.map Placed.span).Pairwise fun s t =>
      s.start.offset ≠ t.start.offset := by
  have tiles := (Cursor.After.start source).tiles_placed
  refine List.pairwise_cons.mpr ⟨?_, tiles.pairwise.imp ?_⟩
  · intro s hs
    have bounds := tiles.bounds_of_mem hs
    show (Cursor.start source).finish.position.offset ≠ s.start.offset
    omega
  · intro s t apart
    omega

end

theorem Position.lineColumn_of_display {p q : Position} {c d : Char} {s t : List Char}
    (hc : c.isAlphanum = false) (hd : d.isAlphanum = false)
    (same : p.display.toList ++ c :: s = q.display.toList ++ d :: t) :
    p.lineColumn = q.lineColumn := by
  simp only [display, String.toList_append, List.append_assoc] at same
  obtain ⟨line, later⟩ := toString_append_inj (c := ':') (d := ':') rfl rfl same
  obtain ⟨column, -⟩ := toString_append_inj hc hd (List.cons.inj later).2
  rw [lineColumn, lineColumn, line, column]

theorem Span.lineColumn_of_display {s t : Span} (same : s.display = t.display) :
    s.start.lineColumn = t.start.lineColumn := by
  have dash (s : Span) : ∃ r, s.display.toList = s.start.display.toList ++ '-' :: r := by
    unfold display
    split
    · exact ⟨(toString s.stop.column).toList, by simp⟩
    · exact ⟨s.stop.display.toList, by simp⟩
  obtain ⟨u, hu⟩ := dash s
  obtain ⟨v, hv⟩ := dash t
  rw [same, hv] at hu
  exact (Position.lineColumn_of_display rfl rfl hu).symm

/-- Whatever an output reports comes in the order of lines and columns, so that line and column tell
the offset. Only within a two-character line break do two places share them, and nothing is reported
there. Spans run forward, and no two of them are displayed in the same way. -/
theorem positions_in_lineColumn_order (config : Config) (source : Text) :
    let output := tokenizeWith config source
    (∀ p ∈ output.positions, ∀ q ∈ output.positions,
      (p.offset < q.offset ↔ p.lineColumn < q.lineColumn) ∧
        (p.lineColumn = q.lineColumn → p = q)) ∧
      (∀ p ∈ output.positions, ∀ before after, before ++ '\r' :: '\n' :: after = source →
        p.offset ≠ Text.byteLength (before ++ ['\r'])) ∧
      (∀ before within after : Text, before ++ (within ++ after) = source → within ≠ [] →
        (((Cursor.start source).skip before.length).position.lineColumn =
          ((Cursor.start source).skip (before ++ within).length).position.lineColumn ↔
            within = ['\r'] ∧ after.head? = some '\n')) ∧
      (∀ s ∈ output.stream.spans, s.start.lineColumn ≤ s.stop.lineColumn) ∧
      (output.stream.spans.map Span.display).Nodup := by
  intro output
  refine ⟨?_, ?_, ?_, ?_, ?_⟩
  · intro p hp q hq
    have clear := clear_of_mem_positions config source hp
    have clear' := clear_of_mem_positions config source hq
    exact ⟨clear.offset_lt_iff clear', clear.eq_of_lineColumn clear'⟩
  · intro p hp before after joined
    exact (clear_of_mem_positions config source hp).offset_ne joined
  · intro before within after whole filled
    have place (a b : Text) (cut : a ++ b = source) :
        ((Cursor.start source).skip a.length).position = .between a b := by
      have front : a <+: (Cursor.start source).rest := ⟨b, cut⟩
      have after := Cursor.After.skip_prefix (.start source) front
      rw [List.nil_append, Cursor.After, Cursor.skip_rest] at after
      rw [after]
      simp [Cursor.start, ← cut]
    rw [place before (within ++ after) whole,
      place (before ++ within) after (by rw [List.append_assoc, whole])]
    exact Position.lineColumn_between_eq_iff filled
  · intro s hs
    obtain ⟨start, stop, forward⟩ := clear_of_mem_spans config source hs
    exact not_lt.mp fun back => Nat.not_lt.mpr forward ((stop.offset_lt_iff start).mpr back)
  · obtain ⟨spans, perm, sublist⟩ := subperm_spans config source
    have apart := (pairwise_start source).sublist sublist
    apply (perm.map Span.display).nodup_iff.mp
    apply List.pairwise_map.mpr
    apply apart.imp_of_mem
    intro s t hs ht differ same
    have clear := (clear_of_mem_spans config source (perm.subset hs)).1
    have clear' := (clear_of_mem_spans config source (perm.subset ht)).1
    have start := clear.eq_of_lineColumn clear' (Span.lineColumn_of_display same)
    exact differ (congrArg Position.offset start)

/-- In a literal left open the escape of a lone carriage return is at fault, and the next carriage
return begins a two-character line break. -/
theorem positions_in_lineColumn_order_open :
    let source : Text := ['\'', '\\', '\r', '\r', '\n']
    ∀ p ∈ (tokenizeWith ⟨true, 1⟩ source).positions, p.offset ≠ 4 := by
  intro source p hp
  exact (positions_in_lineColumn_order ⟨true, 1⟩ source).2.1 p hp ['\'', '\\', '\r'] [] rfl

end Lexis
