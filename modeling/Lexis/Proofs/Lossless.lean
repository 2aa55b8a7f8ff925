import Lexis.Proofs.Findings
import Lexis.Proofs.Tiling
import Mathlib.Data.List.Chain

/-! Streams hold their source: tokens in order under the end of the input, and with trivia
kept every byte exactly once, so that the text of the stream is the source. -/

namespace Lexis
set_option autoImplicit false

/-- A stretch of a source that a stream accounts for. -/
inductive Extent where
  | token (t : Token)
  | trivia (v : Trivia)

namespace Extent

def span : Extent → Span
  | token t => t.span
  | trivia v => v.span

def isToken : Extent → Bool
  | token _ => true
  | trivia _ => false

def isBlank : Extent → Bool
  | token _ => false
  | trivia v => v.kind = .whitespace

@[simp] theorem isToken_token (t : Token) : (token t).isToken = true := rfl

@[simp] theorem isToken_trivia (v : Trivia) : (trivia v).isToken = false := rfl

end Extent

/-- Two lists that were filtered out of a sorted one merge into it again. -/
theorem merge_filter {α : Type} (le : α → α → Bool) (p : α → Bool) {l : List α}
    (sorted : l.Pairwise fun a b => le a b = true ∧ le b a = false) :
    List.merge (l.filter p) (l.filter fun a => !p a) le = l := by
  induction l with
  | nil => simp
  | cons a l ih =>
    obtain ⟨first, later⟩ := List.pairwise_cons.mp sorted
    have tail := ih later
    by_cases hp : p a
    · simp only [List.filter_cons, hp]
      cases hys : l.filter fun a => !p a with
      | nil =>
        rw [hys] at tail
        simpa using tail
      | cons b ys =>
        have hb : b ∈ l := List.mem_of_mem_filter (hys ▸ List.mem_cons_self)
        rw [hys] at tail
        simpa [List.cons_merge_cons_pos le _ _ (first b hb).1] using tail
    · simp only [List.filter_cons, hp]
      cases hxs : l.filter p with
      | nil =>
        rw [hxs] at tail
        simpa using tail
      | cons b xs =>
        have hb : b ∈ l := List.mem_of_mem_filter (hxs ▸ List.mem_cons_self)
        have after : ¬ le b a := by simp [(first b hb).2]
        rw [hxs] at tail
        simpa [List.cons_merge_cons_neg le _ _ after] using tail

namespace Placed

/-- The trivia that the piece is when it gives no token. -/
def passed (p : Placed) : Trivia :=
  ⟨match p.piece with | .blank _ => .whitespace | _ => .skipped, p.span⟩

def extent (p : Placed) : Extent :=
  match p.token? with
  | some t => .token t
  | none => .trivia p.passed

theorem extent_of_token {p : Placed} {t : Token} (h : p.token? = some t) :
    p.extent = .token t ∧ p.trivia? = none := by
  refine ⟨by simp [extent, h], ?_⟩
  obtain ⟨piece, start⟩ := p
  cases piece with
  | blank t => cases h
  | lexeme k t => rfl
  | quoted l =>
    by_cases hc : l.closed
    · simp [trivia?, hc]
    · simp [token?, Piece.lexeme?, hc] at h
  | stray c => cases h

theorem extent_of_no_token {p : Placed} (h : p.token? = none) :
    p.extent = .trivia p.passed ∧ p.trivia? = some p.passed := by
  refine ⟨by simp [extent, h], ?_⟩
  obtain ⟨piece, start⟩ := p
  cases piece with
  | blank t => rfl
  | lexeme k t => cases h
  | quoted l =>
    by_cases hc : l.closed
    · simp [token?, Piece.lexeme?, hc] at h
    · simp [trivia?, passed, hc]
  | stray c => rfl

theorem eq_passed_of_trivia? {p : Placed} {v : Trivia} (h : p.trivia? = some v) :
    v = p.passed := by
  cases ht : p.token? with
  | some t => cases (extent_of_token ht).2.symm.trans h
  | none => exact Option.some.inj (h.symm.trans (extent_of_no_token ht).2)

theorem eq_blank_of_passed {p : Placed} (h : p.passed.kind = .whitespace) :
    ∃ t, p.piece = .blank t := by
  revert h
  cases hp : p.piece <;> simp [passed, hp]

theorem span_extent (p : Placed) : p.extent.span = p.span := by
  cases h : p.token? with
  | some t => rw [(extent_of_token h).1, Extent.span, (token?_eq_some h).1]
  | none =>
    rw [(extent_of_no_token h).1]
    rfl

theorem eq_blank_of_extent {p : Placed} (h : p.extent.isBlank) : ∃ t, p.piece = .blank t := by
  cases ht : p.token? with
  | some t => simp [(extent_of_token ht).1, Extent.isBlank] at h
  | none =>
    rw [(extent_of_no_token ht).1] at h
    exact eq_blank_of_passed (by simpa [Extent.isBlank] using h)

theorem map_token (ps : List Placed) :
    (ps.filterMap token?).map .token = (ps.map extent).filter Extent.isToken := by
  induction ps with
  | nil => rfl
  | cons p ps ih =>
    cases h : p.token? with
    | some t => simp [h, (extent_of_token h).1, List.filter_cons, ih]
    | none => simp [h, (extent_of_no_token h).1, ih]

theorem map_trivia (ps : List Placed) :
    (ps.filterMap trivia?).map .trivia = (ps.map extent).filter fun e => !e.isToken := by
  induction ps with
  | nil => rfl
  | cons p ps ih =>
    cases h : p.token? with
    | some t => simp [extent_of_token h, ih]
    | none => simp [extent_of_no_token h, ih]

end Placed

namespace Stream

/-- Every token but the last covers some of the source, one behind the other, and the last one
is the end of the input. -/
structure Ordered (s : Stream) : Prop where
  terminated : ∃ ts p, s.tokens = ts ++ [.endOfInput p] ∧ p.offset = Text.byteLength s.source ∧
    ∀ t ∈ ts, t.kind ≠ .endOfInput
  covers : ∀ t ∈ s.tokens, t.kind ≠ .endOfInput →
    t.span.start.offset < t.span.stop.offset ∧ t.span.slice? s.source = some t.text
  inOrder : s.tokens.Pairwise fun a b => a.span.stop.offset ≤ b.span.start.offset

/-- Tokens other than the end of the input and trivia, merged by the places they start at. -/
def extents (s : Stream) : List Extent :=
  List.merge ((s.tokens.filter (·.kind ≠ .endOfInput)).map .token) (s.trivia.map .trivia)
    fun a b => a.span.start.offset ≤ b.span.start.offset

/-- The stream accounts for every byte of its source exactly once. -/
structure Lossless (s : Stream) : Prop where
  tiles : ∃ p, Tiles .start (s.extents.map Extent.span) p ∧ p.offset = Text.byteLength s.source
  extents_eq_nil_iff : s.extents = [] ↔ s.source = []
  blanksApart : s.extents.IsChain fun a b => ¬ (a.isBlank ∧ b.isBlank)
  slices : ∀ v ∈ s.trivia, ∃ t, v.span.slice? s.source = some t ∧
    (v.kind = .whitespace → Blank.IsBlank t)
  text_eq : s.text = s.source

end Stream

namespace Cursor

def tokens (c : Cursor) : List Token :=
  c.placed.filterMap Placed.token? ++ [.endOfInput c.finish.position]

def trivia (c : Cursor) : List Trivia := c.placed.filterMap Placed.trivia?

theorem tokens_of_rest_nil {c : Cursor} (hs : c.rest = []) :
    c.tokens = [.endOfInput c.finish.position] := by
  rw [tokens, placed_of_rest_nil hs]
  rfl

theorem tokens_trivia_of_token {c : Cursor} {x : Char} {s : Text} {t : Token}
    (hs : c.rest = x :: s) (ht : Placed.token? ⟨.read x s, c⟩ = some t) :
    c.tokens = t :: (Placed.stop ⟨.read x s, c⟩).tokens ∧
      c.trivia = (Placed.stop ⟨.read x s, c⟩).trivia := by
  rw [tokens, tokens, trivia, trivia, placed_of_rest_cons hs, finish_stop hs,
    List.filterMap_cons_some ht, List.filterMap_cons_none (Placed.extent_of_token ht).2]
  exact ⟨rfl, rfl⟩

theorem tokens_trivia_of_no_token {c : Cursor} {x : Char} {s : Text}
    (hs : c.rest = x :: s) (ht : Placed.token? ⟨.read x s, c⟩ = none) :
    c.tokens = (Placed.stop ⟨.read x s, c⟩).tokens ∧
      c.trivia = Placed.passed ⟨.read x s, c⟩ :: (Placed.stop ⟨.read x s, c⟩).trivia := by
  rw [tokens, tokens, trivia, trivia, placed_of_rest_cons hs, finish_stop hs,
    List.filterMap_cons_none ht, List.filterMap_cons_some (Placed.extent_of_no_token ht).2]
  exact ⟨rfl, rfl⟩

section
variable {before : Text} {c : Cursor} (h : c.After before)
include h

theorem After.pairwise_placed : c.placed.Pairwise fun a b =>
    a.span.start.offset < a.span.stop.offset ∧ a.span.stop.offset ≤ b.span.start.offset :=
  List.pairwise_map.mp h.tiles_placed.pairwise

theorem After.bounds_of_mem {p : Placed} (hp : p ∈ c.placed) :
    c.position.offset ≤ p.span.start.offset ∧ p.span.start.offset < p.span.stop.offset ∧
      p.span.stop.offset ≤ c.finish.position.offset :=
  h.tiles_placed.bounds_of_mem (List.mem_map_of_mem hp)

theorem After.le_start_of_mem_tokens {t : Token} (ht : t ∈ c.tokens) :
    c.position.offset ≤ t.span.start.offset := by
  rcases List.mem_append.mp ht with ht | ht
  · obtain ⟨p, hp, hpt⟩ := List.mem_filterMap.mp ht
    rw [(Placed.token?_eq_some hpt).1]
    exact (h.bounds_of_mem hp).1
  · obtain rfl := List.mem_singleton.mp ht
    exact h.tiles_placed.offset_le

/-- Tokens and trivia of the pieces merge into the pieces in order. -/
theorem After.merge_tokens_trivia :
    List.merge ((c.placed.filterMap Placed.token?).map .token) (c.trivia.map .trivia)
      (fun a b => decide (a.span.start.offset ≤ b.span.start.offset)) =
      c.placed.map Placed.extent := by
  rw [trivia, Placed.map_token, Placed.map_trivia]
  apply merge_filter
  apply List.pairwise_map.mpr
  apply h.pairwise_placed.imp
  intro a b hab
  simp only [Placed.span_extent, decide_eq_true_eq, decide_eq_false_iff_not]
  omega

theorem After.isChain_placed : c.placed.IsChain fun a b =>
    ¬ ((∃ t, a.piece = .blank t) ∧ ∃ u, b.piece = .blank u) := by
  induction c using walk generalizing before with
  | atEnd c hs => simp [placed_of_rest_nil hs]
  | onward c x s hs ih =>
    have later := ih (h.stop hs)
    rw [placed_of_rest_cons hs]
    apply List.isChain_cons.mpr
    refine ⟨?_, later⟩
    rintro p hp ⟨⟨t, ht⟩, u, hu⟩
    cases hr : (Placed.stop ⟨.read x s, c⟩).rest with
    | nil => simp [placed_of_rest_nil hr] at hp
    | cons y r =>
      rw [placed_of_rest_cons hr] at hp
      obtain rfl := Option.some.inj hp
      have split := text_append_rest_stop hs
      rw [hr, hs] at split
      rw [show Piece.read x s = .blank t from ht] at split
      exact Piece.not_blank_after_blank ht split hu

end

end Cursor

namespace Stream

theorem weave_trivia {source : Text} {t : Token} {v : Trivia}
    (early : v.span.start.offset < t.span.start.offset) (tokens : List Token)
    (trivia : List Trivia) : weave source (t :: tokens) (v :: trivia) =
      (v.span.slice? source).getD [] ++ weave source (t :: tokens) trivia := by
  simp [weave, triviaText, early]

theorem weave_token {source : Text} {t : Token} {trivia : List Trivia}
    (early : ∀ v ∈ trivia, t.span.start.offset ≤ v.span.start.offset) (tokens : List Token) :
    weave source (t :: tokens) trivia = t.text ++ weave source tokens trivia := by
  cases trivia with
  | nil => simp [weave, triviaText]
  | cons v trivia =>
    have late : ¬ v.span.start.offset < t.span.start.offset :=
      Nat.not_lt.mpr (early v List.mem_cons_self)
    simp [weave, triviaText, late]

end Stream

namespace Cursor
variable {before : Text} {c : Cursor} (h : c.After before)
include h

theorem After.le_start_of_mem_trivia {v : Trivia} (hv : v ∈ c.trivia) :
    c.position.offset ≤ v.span.start.offset := by
  obtain ⟨p, hp, hpv⟩ := List.mem_filterMap.mp hv
  rw [Placed.eq_passed_of_trivia? hpv]
  exact (h.bounds_of_mem hp).1

theorem After.weave_tokens_trivia :
    Stream.weave (before ++ c.rest) c.tokens c.trivia = c.rest := by
  induction c using walk generalizing before with
  | atEnd c hs =>
    rw [tokens, trivia, placed_of_rest_nil hs, hs]
    rfl
  | onward c x s hs ih =>
    have place := h.stop hs
    have later := ih place
    have further := h.offset_lt_stop hs
    have split := text_append_rest_stop hs
    rw [List.append_assoc, split] at later
    cases ht : Placed.token? ⟨.read x s, c⟩ with
    | some t =>
      obtain ⟨span, text⟩ := Placed.token?_eq_some ht
      obtain ⟨tokens, trivia⟩ := tokens_trivia_of_token hs ht
      rw [tokens, trivia, Stream.weave_token, later, text, split]
      intro v hv
      have := place.le_start_of_mem_trivia hv
      have start : t.span.start = c.position := by
        rw [span]
        rfl
      rw [start]
      omega
    | none =>
      -- There is a next token, the end of the input at the latest.
      obtain ⟨t, ts, hts⟩ : ∃ t ts, (Placed.stop ⟨.read x s, c⟩).tokens = t :: ts :=
        List.exists_cons_of_ne_nil (by simp [tokens])
      obtain ⟨tokens, trivia⟩ := tokens_trivia_of_no_token hs ht
      have mem : t ∈ (Placed.stop ⟨.read x s, c⟩).tokens := hts ▸ List.mem_cons_self
      have early := Nat.lt_of_lt_of_le further (place.le_start_of_mem_tokens mem)
      have cut : (Placed.passed ⟨.read x s, c⟩).span.slice? (before ++ c.rest) =
          some (Piece.read x s).text := h.slice?_span hs
      rw [tokens, trivia, hts, Stream.weave_trivia early, ← hts, later, cut]
      exact split

end Cursor

namespace Cursor
variable {before : Text} {c : Cursor} (h : c.After before)
include h

theorem After.covers_of_mem_tokens {t : Token} (ht : t ∈ c.placed.filterMap Placed.token?) :
    t.kind ≠ .endOfInput ∧ t.span.start.offset < t.span.stop.offset ∧
      t.span.stop.offset ≤ c.finish.position.offset ∧
      t.span.slice? (before ++ c.rest) = some t.text := by
  obtain ⟨p, hp, hpt⟩ := List.mem_filterMap.mp ht
  obtain ⟨span, text⟩ := Placed.token?_eq_some hpt
  have bounds := h.bounds_of_mem hp
  have on := h.onSource p hp
  rw [span, text]
  exact ⟨on.kind_ne t hpt, bounds.2.1, bounds.2.2, on.slice?_span⟩

theorem After.pairwise_tokens : c.tokens.Pairwise fun a b =>
    a.span.stop.offset ≤ b.span.start.offset := by
  apply List.pairwise_append.mpr
  refine ⟨?_, List.pairwise_singleton _ _, ?_⟩
  · apply List.pairwise_filterMap.mpr
    apply h.pairwise_placed.imp
    intro a b hab t ht u hu
    rw [(Placed.token?_eq_some ht).1, (Placed.token?_eq_some hu).1]
    exact hab.2
  · intro t ht u hu
    obtain rfl := List.mem_singleton.mp hu
    exact (h.covers_of_mem_tokens ht).2.2.1

theorem After.slice?_of_mem_trivia {v : Trivia} (hv : v ∈ c.trivia) :
    ∃ t, v.span.slice? (before ++ c.rest) = some t ∧
      (v.kind = .whitespace → Blank.IsBlank t) := by
  obtain ⟨p, hp, hpv⟩ := List.mem_filterMap.mp hv
  obtain rfl := Placed.eq_passed_of_trivia? hpv
  have on := h.onSource p hp
  refine ⟨_, on.slice?_span, ?_⟩
  intro kind
  obtain ⟨t, ht⟩ := Placed.eq_blank_of_passed kind
  rw [ht]
  exact on.isBlank t ht

end Cursor

section
variable (config : Config) (source : Text)

theorem ordered_tokenizeWith : (tokenizeWith config source).stream.Ordered := by
  have h := Cursor.After.start source
  refine ⟨⟨_, _, tokens_tokenizeWith config source, h.offset_finish, ?_⟩, ?_, h.pairwise_tokens⟩
  · exact fun t ht => (h.covers_of_mem_tokens ht).1
  · intro t ht hk
    rcases List.mem_append.mp ht with ht | ht
    · obtain ⟨-, filled, -, cut⟩ := h.covers_of_mem_tokens ht
      exact ⟨filled, cut⟩
    · obtain rfl := List.mem_singleton.mp ht
      exact absurd rfl hk

theorem trivia_of_keepTrivia (kept : config.keepTrivia) :
    (tokenizeWith config source).stream.trivia = (Cursor.start source).trivia := by
  rw [trivia_tokenizeWith, if_pos kept]
  rfl

theorem extents_of_keepTrivia (kept : config.keepTrivia) :
    (tokenizeWith config source).stream.extents =
      (Cursor.start source).placed.map Placed.extent := by
  have h := Cursor.After.start source
  have proper : (tokenizeWith config source).stream.tokens.filter (·.kind ≠ .endOfInput) =
      (Cursor.start source).placed.filterMap Placed.token? := by
    rw [tokens_tokenizeWith, List.filter_append, List.filter_eq_self.mpr]
    · exact List.append_nil _
    · intro t ht
      simpa using (h.covers_of_mem_tokens ht).1
  rw [Stream.extents, proper, trivia_of_keepTrivia config source kept]
  exact h.merge_tokens_trivia

theorem lossless_tokenizeWith (kept : config.keepTrivia) :
    (tokenizeWith config source).stream.Lossless := by
  have h := Cursor.After.start source
  have extents := extents_of_keepTrivia config source kept
  have trivia := trivia_of_keepTrivia config source kept
  refine ⟨⟨_, ?_, h.offset_finish⟩, ?_, ?_, ?_, ?_⟩
  · have spans : (fun p => Extent.span (Placed.extent p)) = Placed.span :=
      funext Placed.span_extent
    rw [extents, List.map_map, Function.comp_def, spans]
    exact h.tiles_placed
  · rw [extents]
    cases source with
    | nil =>
      rw [Cursor.placed_of_rest_nil rfl]
      exact iff_of_true rfl rfl
    | cons x s =>
      rw [Cursor.placed_of_rest_cons (c := Cursor.start (x :: s)) rfl]
      exact iff_of_false (List.cons_ne_nil _ _) (List.cons_ne_nil _ _)
  · rw [extents]
    apply List.isChain_map _ |>.mpr
    apply h.isChain_placed.imp
    rintro a b apart ⟨ha, hb⟩
    exact apart ⟨Placed.eq_blank_of_extent ha, Placed.eq_blank_of_extent hb⟩
  · rw [trivia]
    exact fun v hv => h.slice?_of_mem_trivia hv
  · rw [Stream.text, trivia]
    exact h.weave_tokens_trivia

/-- Whatever the limit on errors, the stream is ordered, and lossless if trivia is kept. -/
theorem stream_tokenizeWith : (tokenizeWith config source).stream.source = source ∧
    (tokenizeWith config source).stream.Ordered ∧
    (config.keepTrivia → (tokenizeWith config source).stream.Lossless) :=
  ⟨rfl, ordered_tokenizeWith config source, lossless_tokenizeWith config source⟩

/-- Nothing is lost where no error is recorded either. -/
theorem lossless_unterminated :
    (⟨true, 0⟩ : Config).keepTrivia ∧ (tokenizeWith ⟨true, 0⟩ ['~', '"', 'a']).stream.Lossless :=
  ⟨rfl, (stream_tokenizeWith ⟨true, 0⟩ ['~', '"', 'a']).2.2 rfl⟩

end

end Lexis
