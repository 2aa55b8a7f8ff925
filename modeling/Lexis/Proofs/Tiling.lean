import Lexis.Proofs.Longest
import Lexis.Proofs.Place

/-! The pieces of a source lie one behind the other and leave no gap. Each gives a token or a
trivia, so the tokens and trivia of a stream lie in order too. -/

namespace Lexis
set_option autoImplicit false

/-- Spans that lead from one place to another, each beginning where the one before it ends. -/
inductive Tiles : Position → List Span → Position → Prop where
  | nil (p : Position) : Tiles p [] p
  | cons {p q r : Position} {spans : List Span} :
    p.offset < q.offset → Tiles q spans r → Tiles p (⟨p, q⟩ :: spans) r

namespace Tiles
variable {p q : Position} {spans : List Span} (h : Tiles p spans q)
include h

theorem offset_le : p.offset ≤ q.offset := by
  induction h with
  | nil => exact Nat.le_refl _
  | cons hpq _ ih => omega

theorem bounds_of_mem {s : Span} (hs : s ∈ spans) : p.offset ≤ s.start.offset ∧
    s.start.offset < s.stop.offset ∧ s.stop.offset ≤ q.offset := by
  induction h with
  | nil => simp at hs
  | cons hpq later ih =>
    rcases List.mem_cons.mp hs with rfl | hs
    · exact ⟨Nat.le_refl _, hpq, later.offset_le⟩
    · have := ih hs
      omega

theorem pairwise : spans.Pairwise fun a b =>
    a.start.offset < a.stop.offset ∧ a.stop.offset ≤ b.start.offset := by
  induction h with
  | nil => exact .nil
  | cons hpq later ih =>
    apply List.pairwise_cons.mpr
    refine ⟨?_, ih⟩
    intro s hs
    exact ⟨hpq, (later.bounds_of_mem hs).1⟩

theorem eq_of_mem {s t : Span} (hs : s ∈ spans) (ht : t ∈ spans) {n : Nat}
    (within : s.start.offset < n ∧ n < s.stop.offset)
    (within' : t.start.offset < n ∧ n < t.stop.offset) : s = t := by
  induction h with
  | nil => simp at hs
  | cons _ later ih =>
    rcases List.mem_cons.mp hs with rfl | hs
    · rcases List.mem_cons.mp ht with rfl | ht
      · rfl
      · have apart := (later.bounds_of_mem ht).1
        exact (Nat.lt_asymm within.2 (Nat.lt_of_le_of_lt apart within'.1)).elim
    · rcases List.mem_cons.mp ht with rfl | ht
      · have apart := (later.bounds_of_mem hs).1
        exact (Nat.lt_asymm within'.2 (Nat.lt_of_le_of_lt apart within.1)).elim
      · exact ih hs ht

end Tiles

theorem Text.byteLength_pos {t : Text} (h : t ≠ []) : 0 < byteLength t := by
  have := length_le_byteLength t
  have := List.length_pos_iff.mpr h
  omega

namespace Cursor

theorem finish_of_rest_nil {c : Cursor} (hs : c.rest = []) : c.finish = c := by
  rw [finish, hs]
  rfl

theorem finish_stop {c : Cursor} {x : Char} {s : Text} (hs : c.rest = x :: s) :
    (Placed.stop ⟨.read x s, c⟩).finish = c.finish := by
  have front := (Piece.read_isPrefix x s).length_le
  have whole : (Piece.read x s).text.length + (c.rest.length - (Piece.read x s).text.length) =
      c.rest.length := by
    rw [hs]
    omega
  rw [finish, finish, Placed.stop, skip_skip, skip_rest, List.length_drop, whole]

theorem After.offset_finish {before : Text} {c : Cursor} (h : c.After before) :
    c.finish.position.offset = Text.byteLength (before ++ c.rest) := by
  rw [finish, (h.skip _).offset, List.take_length]

theorem After.offset_stop {before : Text} {c : Cursor} {x : Char} {s : Text}
    (h : c.After before) (hs : c.rest = x :: s) : (Placed.stop ⟨.read x s, c⟩).position.offset =
      c.position.offset + Text.byteLength (Piece.read x s).text := by
  rw [h.offset, (h.stop hs).offset, Text.byteLength_append]

theorem After.offset_lt_stop {before : Text} {c : Cursor} {x : Char} {s : Text}
    (h : c.After before) (hs : c.rest = x :: s) :
    c.position.offset < (Placed.stop ⟨.read x s, c⟩).position.offset := by
  have := Text.byteLength_pos (Piece.read_text_ne_nil x s)
  rw [h.offset_stop hs]
  omega

theorem After.tiles_placed {before : Text} {c : Cursor} (h : c.After before) :
    Tiles c.position (c.placed.map Placed.span) c.finish.position := by
  induction c using walk generalizing before with
  | atEnd c hs =>
    rw [placed_of_rest_nil hs, finish_of_rest_nil hs]
    exact .nil _
  | onward c x s hs ih =>
    have later := ih (h.stop hs)
    rw [finish_stop hs] at later
    rw [placed_of_rest_cons hs]
    exact .cons (h.offset_lt_stop hs) later

end Cursor

/-- What the source and the reading of a piece say of a placed piece. -/
structure Placed.OnSource (source : Text) (p : Placed) : Prop where
  slice?_span : p.span.slice? source = some p.piece.text
  isBlank : ∀ t, p.piece = .blank t → Blank.IsBlank t
  kind_ne : ∀ t, p.token? = some t → t.kind ≠ .endOfInput

theorem Piece.isBlank_of_read {x : Char} {s t : Text} (h : read x s = .blank t) :
    Longest (x :: s) t ∧ Blank.IsBlank t := by
  have fits := fits_read x s
  rw [h] at fits
  cases fits with
  | blank hl hb => exact ⟨hl, hb⟩

namespace Cursor

/-- What holds of every piece where it is read holds of all the placed pieces, given what holds of
the cursor all along. -/
theorem forall_placed (along : Cursor → Prop) {motive : Placed → Prop}
    (stop : ∀ d x s, along d → d.rest = x :: s → along (Placed.stop ⟨.read x s, d⟩))
    (read : ∀ d x s, along d → d.rest = x :: s → motive ⟨.read x s, d⟩) {c : Cursor}
    (h : along c) : ∀ p ∈ c.placed, motive p := by
  induction c using walk with
  | atEnd c hs => simp [placed_of_rest_nil hs]
  | onward c x s hs ih =>
    rw [placed_of_rest_cons hs]
    exact List.forall_mem_cons.mpr ⟨read c x s h hs, ih (stop c x s h hs)⟩

/-- Where a change of cursors takes the first piece to the first piece and goes along with the
stops, it takes the placed pieces to the placed pieces. -/
theorem placed_map (along : Cursor → Prop) {f : Cursor → Cursor} {g : Placed → Placed}
    (nil : ∀ d, d.rest = [] → (f d).rest = [])
    (read : ∀ d x s, along d → d.rest = x :: s →
      ∃ y r, (f d).rest = y :: r ∧ ⟨.read y r, f d⟩ = g ⟨.read x s, d⟩)
    (stop : ∀ d x s, along d → d.rest = x :: s → along (Placed.stop ⟨.read x s, d⟩) ∧
      (g ⟨.read x s, d⟩).stop = f (Placed.stop ⟨.read x s, d⟩))
    {c : Cursor} (h : along c) : (f c).placed = c.placed.map g := by
  induction c using walk with
  | atEnd c hs =>
    rw [placed_of_rest_nil hs, placed_of_rest_nil (nil c hs)]
    rfl
  | onward c x s hs ih =>
    obtain ⟨y, r, front, first⟩ := read c x s h hs
    obtain ⟨onward, beside⟩ := stop c x s h hs
    rw [placed_of_rest_cons hs, placed_of_rest_cons front, first, beside, ih onward]
    rfl

variable {before : Text} {c : Cursor} (h : c.After before)
include h

theorem After.forall_placed {motive : Placed → Prop}
    (read : ∀ front d x s, After front d → d.rest = x :: s → front ++ d.rest = before ++ c.rest →
      motive ⟨.read x s, d⟩) : ∀ p ∈ c.placed, motive p := by
  refine Cursor.forall_placed
    (fun d => ∃ front, After front d ∧ front ++ d.rest = before ++ c.rest) ?_ ?_ ⟨before, h, rfl⟩
  · rintro d x s ⟨front, after, whole⟩ hs
    refine ⟨_, after.stop hs, ?_⟩
    rw [List.append_assoc, text_append_rest_stop hs, whole]
  · rintro d x s ⟨front, after, whole⟩ hs
    exact read front d x s after hs whole

theorem After.onSource : ∀ p ∈ c.placed, p.OnSource (before ++ c.rest) := by
  refine h.forall_placed ?_
  intro front d x s after hs whole
  refine ⟨?_, fun t ht => (Piece.isBlank_of_read ht).2, ?_⟩
  · rw [← whole]
    exact after.slice?_span hs
  · intro t ht
    obtain ⟨l, hl, rfl⟩ := Option.map_eq_some_iff.mp ht
    exact Piece.kind_ne_endOfInput hl

end Cursor

theorem Blank.IsBlank.append {t u : Text} (ht : IsBlank t) (hu : IsBlank u) :
    IsBlank (t ++ u) := by
  induction ht with
  | nil => exact hu
  | whitespace hc _ ih => exact .whitespace hc ih
  | continuation _ ih => exact .continuation ih
  | longContinuation _ ih => exact .longContinuation ih

theorem Piece.not_blank_after_blank {x y : Char} {s r t u : Text} (h : read x s = .blank t)
    (hr : t ++ y :: r = x :: s) : read y r ≠ .blank u := by
  intro h'
  obtain ⟨hl, hb⟩ := isBlank_of_read h
  obtain ⟨hl', hb'⟩ := isBlank_of_read h'
  have joined : t ++ u <+: x :: s := hr ▸ (List.prefix_append_right_inj t).mpr hl'.isPrefix
  have short := hl.maximal _ (Or.inl (hb.append hb')) joined
  have := List.length_pos_iff.mpr hl'.ne_nil
  rw [List.length_append] at short
  omega

end Lexis
