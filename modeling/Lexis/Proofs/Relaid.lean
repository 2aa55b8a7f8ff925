import Lexis.Proofs.Content
import Lexis.Proofs.Printing

/-! Pieces with other blanks between them. All other pieces are read again as they were, as long as
no stray backslash comes to stand before a line break. -/

namespace Lexis
set_option autoImplicit false

namespace Text

def StartsWithBreak (s : Text) : Prop := ['\n'] <+: s ∨ ['\r', '\n'] <+: s

instance (s : Text) : Decidable s.StartsWithBreak :=
  inferInstanceAs (Decidable (_ ∨ _))

theorem startsWithBreak_cons_iff {c : Char} {s : Text} : StartsWithBreak (c :: s) ↔
    c = '\n' ∨ c = '\r' ∧ s.head? = some '\n' := by
  cases s <;> simp [StartsWithBreak, List.cons_prefix_cons, eq_comm]

theorem not_startsWithBreak_of_read {s : Text} (h : Blank.read s = []) : ¬ s.StartsWithBreak := by
  cases s with
  | nil => decide
  | cons c s =>
    rw [startsWithBreak_cons_iff]
    rintro (rfl | ⟨rfl, -⟩)
    · cases (Blank.read_whitespace (s := s) (c := '\n') rfl).symm.trans h
    · cases (Blank.read_whitespace (s := s) (c := '\r') rfl).symm.trans h

theorem read_backslash_iff {s : Text} : Blank.read ('\\' :: s) = [] ↔ ¬ s.StartsWithBreak := by
  constructor
  · rintro h (⟨r, rfl⟩ | ⟨r, rfl⟩)
    · simp [Blank.read] at h
    · simp [Blank.read] at h
  · intro h
    rw [Blank.read]
    · rfl
    · rintro r - rfl
      exact h (Or.inl (List.prefix_append ['\n'] r))
    · rintro r - rfl
      exact h (Or.inr (List.prefix_append ['\r', '\n'] r))

theorem StartsWithBreak.of_append {t s : Text} (ne : t ≠ []) (last : Blank.read s = [])
    (h : StartsWithBreak (t ++ s)) : StartsWithBreak t := by
  obtain ⟨c, t, rfl⟩ := List.exists_cons_of_ne_nil ne
  rw [List.cons_append, startsWithBreak_cons_iff] at h
  rw [startsWithBreak_cons_iff]
  refine h.imp id fun ⟨hc, hs⟩ => ⟨hc, ?_⟩
  cases t with
  | nil =>
    obtain ⟨r, rfl⟩ := List.head?_eq_some_iff.mp hs
    exact absurd (Or.inl (List.prefix_append ['\n'] r)) (not_startsWithBreak_of_read last)
  | cons d t => exact hs

end Text

/-- The same pieces with other blanks between them. Nothing that follows a stray backslash makes a
blank of it. -/
inductive Relaid : List Piece → List Piece → Prop where
  | nil : Relaid [] []
  | blank {t t' : Text} {ps ps' : List Piece} : Blank.IsBlank t' → t' ≠ [] → Relaid ps ps' →
    Relaid (.blank t :: ps) (.blank t' :: ps')
  | other {p : Piece} {ps ps' : List Piece} : (∀ t, p ≠ .blank t) →
    (p = .stray '\\' → ¬ Text.StartsWithBreak (ps'.flatMap Piece.text)) → Relaid ps ps' →
    Relaid (p :: ps) (p :: ps')

theorem IsMatch.all_isLexemePart {u : Text} (h : IsMatch u) (lead : Text.lead? u ≠ some .quote)
    (filled : ¬ Blank.IsBlank u) : ∀ d ∈ u, isLexemePart d := by
  rcases h with hb | ⟨k, hk⟩
  · exact absurd hb filled
  · apply hk.isLexemePart_of_mem
    rintro rfl
    cases hk with
    | stringLiteral hs => exact lead hs.lead?

namespace Piece

theorem read_ne_blank {c : Char} {s : Text} (none : Blank.read (c :: s) = []) (t : Text) :
    read c s ≠ .blank t := by
  intro ht
  obtain ⟨longest, blank⟩ := isBlank_of_read ht
  have short := Blank.length_le_read blank longest.isPrefix
  rw [none] at short
  exact longest.ne_nil (List.length_eq_zero_iff.mp (Nat.le_zero.mp short))

theorem not_startsWithBreak_of_stray {x : Char} {s t r : Text} (h : read x s = .stray '\\')
    (hr : t ++ r = s) : ¬ t.StartsWithBreak := by
  have front := read_isPrefix x s
  rw [h] at front
  obtain ⟨rfl, -⟩ := List.cons_prefix_cons.mp front
  have none : Blank.read ('\\' :: s) = [] := by
    by_contra ne
    rw [read_of_blank_ne_nil ne] at h
    cases h
  rw [Text.read_backslash_iff] at none
  intro starts
  exact none (starts.imp (·.trans ⟨r, hr⟩) (·.trans ⟨r, hr⟩))

theorem read_eq_nil {c : Char} {s : Text} (noBlank : ∀ t, read c s ≠ .blank t)
    (noBackslash : read c s ≠ .stray '\\') (r : Text) :
    Blank.read ((read c s).text ++ r) = [] := by
  have fits := fits_read c s
  generalize read c s = p at fits noBlank noBackslash ⊢
  cases fits with
  | blank => exact absurd rfl (noBlank _)
  | lexeme _ hk => exact hk.read_eq_nil r
  | closed _ _ literal => exact literal.read_eq_nil r
  | unclosed _ _ hq whole =>
    by_contra ne
    have lead := Text.lead?_of_prefix (Blank.read_isPrefix _) ne
    rw [text, whole, List.cons_append, Text.lead?_cons (k := .quote) _ hq] at lead
    rcases (Blank.isBlank_read _).lead? with blank | blank
    · cases lead.symm.trans blank
    · cases lead.symm.trans blank
  | stray unmatched =>
    by_contra ne
    have front := Blank.read_isPrefix (text (.stray c) ++ r)
    have blank := Blank.isBlank_read (text (.stray c) ++ r)
    generalize Blank.read (text (.stray c) ++ r) = t at front blank ne
    cases blank with
    | nil => exact ne rfl
    | whitespace hc =>
      obtain ⟨rfl, -⟩ := List.cons_prefix_cons.mp front
      have single : IsMatch [_] := Or.inl (.whitespace hc .nil)
      cases unmatched _ single (List.prefix_append [_] s)
    | continuation => exact noBackslash ((List.cons_prefix_cons.mp front).1 ▸ rfl)
    | longContinuation => exact noBackslash ((List.cons_prefix_cons.mp front).1 ▸ rfl)

theorem read_of_blank {t r : Text} (h : Blank.IsBlank t) (ne : t ≠ [])
    (last : Blank.read r = []) : pieces (t ++ r) = .blank t :: pieces r := by
  have whole : Blank.read (t ++ r) = t := by rw [Blank.read_append h, last, List.append_nil]
  obtain ⟨d, t, rfl⟩ := List.exists_cons_of_ne_nil ne
  have piece : read d (t ++ r) = .blank (d :: t) := by
    rw [List.cons_append] at whole
    rw [read_of_blank_ne_nil (whole ▸ ne), whole]
  rw [List.cons_append, pieces_cons, piece, ← List.cons_append]
  simp [text]

/-- A piece other than a blank or a literal is read again, unless something longer begins the new
text only. -/
theorem read_again {c : Char} {s r : Text} (hc : isQuote c = false)
    (noBlank : ∀ t, read c s ≠ .blank t) (here : (read c s).text <+: c :: r)
    (last : Blank.read (c :: r) = [])
    (back : ∀ u, IsMatch u → (∀ d ∈ u, isLexemePart d) → u <+: c :: r →
      (read c s).text.length < u.length →
      ∃ w, IsMatch w ∧ w <+: c :: s ∧ (read c s).text.length < w.length) :
    read c r = read c s := by
  have shared {u : Text} (hu : IsMatch u) (front : u <+: c :: r)
      (longer : (read c s).text.length < u.length) :
      ∃ w, IsMatch w ∧ w <+: c :: s ∧ (read c s).text.length < w.length := by
    have ne : u ≠ [] := List.ne_nil_of_length_pos (Nat.zero_lt_of_lt longer)
    have lead := Text.lead?_ne_quote hc r
    rw [← Text.lead?_of_prefix front ne] at lead
    by_cases blank : Blank.IsBlank u
    · have short := Blank.length_le_read blank front
      rw [last] at short
      exact absurd (List.length_eq_zero_iff.mp (Nat.le_zero.mp short)) ne
    · exact back u hu (hu.all_isLexemePart lead blank) front longer
  have again := fits_read c r
  rcases (fits_read c s).cases_of_not_quote hc with ⟨t, ht⟩ | ⟨k, t, ht, longest, hk, leads⟩ |
    ⟨stray, unmatched⟩
  · exact absurd ht (noBlank t)
  · rw [ht] at here shared ⊢
    refine again.eq_lexeme ⟨longest.isMatch, longest.ne_nil, here, ?_⟩ hk leads
    intro u hu front
    by_contra longer
    obtain ⟨w, hw, within, more⟩ := shared hu front (Nat.lt_of_not_le longer)
    exact absurd (longest.maximal w hw within) (Nat.not_le_of_lt more)
  · rw [stray] at shared ⊢
    refine again.eq_stray ?_ hc
    intro u hu front
    by_contra none
    have filled := List.length_pos_iff.mpr none
    by_cases more : 1 < u.length
    · obtain ⟨w, hw, within, long⟩ := shared hu front more
      rw [unmatched w hw within] at long
      cases long
    · -- The character alone would begin the old text as well.
      obtain ⟨d, rfl⟩ := List.length_eq_one_iff.mp (by omega : u.length = 1)
      obtain ⟨rfl, -⟩ := List.cons_prefix_cons.mp front
      cases unmatched _ hu (List.prefix_append [_] s)

theorem read_congr {c : Char} {s r : Text} (hc : isQuote c = false)
    (noBlank : ∀ t, read c s ≠ .blank t) (here : (read c s).text <+: c :: r)
    (last : Blank.read (c :: r) = [])
    (back : ∀ v, (∀ d ∈ v, isLexemePart d) → v <+: c :: r → v <+: c :: s) :
    read c r = read c s :=
  read_again hc noBlank here last fun u hu part front longer => ⟨u, hu, back u part front, longer⟩

theorem exists_text_eq (c : Char) (s : Text) : ∃ t, (read c s).text = c :: t := by
  obtain ⟨d, t, text⟩ := List.exists_cons_of_ne_nil (read_text_ne_nil c s)
  have front := read_isPrefix c s
  rw [text] at front
  obtain ⟨rfl, -⟩ := List.cons_prefix_cons.mp front
  exact ⟨t, text⟩

theorem pieces_of_read_eq {c : Char} {s t r : Text} (text : (read c s).text = c :: t)
    (again : read c (t ++ r) = read c s) :
    pieces ((read c s).text ++ r) = read c s :: pieces r := by
  rw [text, List.cons_append, pieces_cons, again, text, ← List.cons_append, List.drop_left]

end Piece

namespace Relaid

/-- What goes on into no blank is in the one text if it is in the other. -/
theorem prefix_of_isLexemePart {ps ps' : List Piece} (h : Relaid ps ps') {v : Text}
    (part : ∀ d ∈ v, isLexemePart d) (front : v <+: ps'.flatMap Piece.text) :
    v <+: ps.flatMap Piece.text := by
  induction h generalizing v with
  | nil => exact front
  | @blank t t' ps ps' blank ne _ _ =>
    cases v with
    | nil => exact List.nil_prefix
    | cons d v =>
      obtain ⟨e, t', rfl⟩ := List.exists_cons_of_ne_nil ne
      obtain ⟨rfl, -⟩ := List.cons_prefix_cons.mp front
      cases (blank.not_isLexemePart rfl).symm.trans (part d List.mem_cons_self)
  | @other p ps ps' _ _ _ ih =>
    rw [List.flatMap_cons] at front ⊢
    by_cases within : v.length ≤ p.text.length
    · have first := List.prefix_of_prefix_length_le front (List.prefix_append _ _) within
      exact first.trans (List.prefix_append _ _)
    · obtain ⟨w, rfl⟩ := List.prefix_of_prefix_length_le (List.prefix_append _ _) front (by omega)
      rw [List.prefix_append_right_inj] at front ⊢
      exact ih (fun d hd => part d (List.mem_append_right _ hd)) front

theorem read_eq_nil {r : Text} {ps' : List Piece} (h : Relaid (pieces r) ps')
    (noBlank : ∀ y u t, r = y :: u → Piece.read y u ≠ .blank t) :
    Blank.read (ps'.flatMap Piece.text) = [] := by
  cases r with
  | nil =>
    rw [pieces_nil] at h
    cases h
    rfl
  | cons y u =>
    rw [pieces_cons] at h
    generalize hp : Piece.read y u = p at h
    cases h with
    | blank => exact absurd hp (noBlank y u _ rfl)
    | other _ stray _ =>
      by_cases backslash : p = .stray '\\'
      · subst backslash
        exact Text.read_backslash_iff.mpr (stray rfl)
      · subst hp
        exact Piece.read_eq_nil (fun t => noBlank y u t rfl) backslash _

section
variable {c : Char} {s : Text} {ps' : List Piece}
  (h : Relaid (pieces ((c :: s).drop (Piece.read c s).text.length)) ps')
  (last : Blank.read ((Piece.read c s).text ++ ps'.flatMap Piece.text) = [])
include h last

theorem read_again (noBlank : ∀ t, Piece.read c s ≠ .blank t) {t : Text}
    (text : (Piece.read c s).text = c :: t) :
    Piece.read c (t ++ ps'.flatMap Piece.text) = Piece.read c s := by
  cases hc : isQuote c with
  | true =>
    rw [Piece.read_of_isQuote hc] at text ⊢
    rw [Piece.read_of_isQuote hc]
    cases closed : (Quoted.read c s).closed with
    | true =>
      obtain ⟨t', text', own⟩ := Quoted.read_text hc closed
      obtain ⟨-, rfl⟩ := List.cons.inj (text.symm.trans text')
      rw [← own] at closed ⊢
      rw [Quoted.read, Quoted.readBody_append closed]
      rfl
    | false =>
      -- An open literal is all that is left, and nothing comes behind it.
      have whole := Quoted.read_text_of_not_closed closed
      obtain ⟨-, rfl⟩ := List.cons.inj (text.symm.trans whole)
      rw [Piece.read_of_isQuote hc, Piece.text, whole, List.drop_length, pieces_nil] at h
      cases h
      rw [List.flatMap_nil, List.append_nil]
  | false =>
    have front : c :: (t ++ ps'.flatMap Piece.text) =
        (Piece.read c s).text ++ ps'.flatMap Piece.text := by rw [text, List.cons_append]
    have whole : Relaid (Piece.read c s :: pieces _) (Piece.read c s :: ps') :=
      .other noBlank (fun stray => Text.read_backslash_iff.mp (by rwa [stray] at last)) h
    apply Piece.read_congr hc noBlank
    · rw [front]
      exact List.prefix_append _ _
    · rwa [front]
    · intro v part hv
      rw [front] at hv
      have within := whole.prefix_of_isLexemePart part hv
      rwa [List.flatMap_cons, flatMap_text_pieces, Piece.read_text_append_drop] at within

theorem pieces_read (noBlank : ∀ t, Piece.read c s ≠ .blank t) :
    pieces ((Piece.read c s).text ++ ps'.flatMap Piece.text) =
      Piece.read c s :: pieces (ps'.flatMap Piece.text) := by
  obtain ⟨t, text⟩ := Piece.exists_text_eq c s
  exact Piece.pieces_of_read_eq text (read_again h last noBlank text)

end

/-- The pieces of the new text are the given ones. -/
theorem pieces_eq {s : Text} {ps' : List Piece} (h : Relaid (pieces s) ps') :
    pieces (ps'.flatMap Piece.text) = ps' := by
  fun_induction pieces s generalizing ps' with
  | case1 =>
    cases h
    exact pieces_nil
  | case2 c s ih =>
    have split := Piece.read_text_append_drop c s
    generalize hp : Piece.read c s = p at h
    cases h with
    | @blank t t' _ ps' blank ne later =>
      rw [hp] at split ih
      have last : Blank.read (ps'.flatMap Piece.text) = [] := by
        apply later.read_eq_nil
        intro y u v hr
        rw [hr] at split
        exact Piece.not_blank_after_blank hp split
      rw [List.flatMap_cons, Piece.text, Piece.read_of_blank blank ne last, ih later]
    | @other _ _ ps' noBlank stray later =>
      subst hp
      have last : Blank.read ((Piece.read c s).text ++ ps'.flatMap Piece.text) = [] := by
        by_cases backslash : Piece.read c s = .stray '\\'
        · rw [backslash]
          exact Text.read_backslash_iff.mpr (stray backslash)
        · exact Piece.read_eq_nil noBlank backslash _
      rw [List.flatMap_cons, pieces_read later last noBlank, ih later]

theorem flatMap_eq {α : Type} {f : Piece → List α} (none : ∀ t, f (.blank t) = [])
    {ps ps' : List Piece} (h : Relaid ps ps') : ps'.flatMap f = ps.flatMap f := by
  induction h with
  | nil => rfl
  | blank _ _ _ ih => rw [List.flatMap_cons, List.flatMap_cons, none, none, ih]
  | other _ _ _ ih => rw [List.flatMap_cons, List.flatMap_cons, ih]

end Relaid

end Lexis
