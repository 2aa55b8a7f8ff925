import Lexis.Proofs.Relaid

/-! Line feeds that get carriage returns before them. Every piece of a text without carriage returns
becomes one piece of the new text, and only blanks and literals change. -/

namespace Lexis
set_option autoImplicit false

/-- Every line feed with a carriage return before it. -/
def Text.crlf (s : Text) : Text := s.flatMap fun c => if c = '\n' then ['\r', '\n'] else [c]

/-- What an atom of a literal stands for in the literal with other line endings. Only a line feed
that stands for itself is not the same. -/
def Atom.crlfValue : Atom → Text
  | plain c => Text.crlf [c]
  | a => a.value

namespace Text

@[simp] theorem crlf_nil : crlf [] = [] := rfl

@[simp] theorem crlf_append (s r : Text) : crlf (s ++ r) = crlf s ++ crlf r := List.flatMap_append

theorem crlf_cons_feed (s : Text) : crlf ('\n' :: s) = '\r' :: '\n' :: crlf s := rfl

theorem crlf_cons {c : Char} (hc : c ≠ '\n') (s : Text) : crlf (c :: s) = c :: crlf s := by
  rw [crlf, List.flatMap_cons, if_neg hc]
  rfl

theorem crlf_eq_self {s : Text} (h : '\n' ∉ s) : crlf s = s := by
  induction s with
  | nil => rfl
  | cons c s ih =>
    rw [List.mem_cons, not_or] at h
    rw [crlf_cons (Ne.symm h.1), ih h.2]

theorem crlf_ne_nil {s : Text} (h : s ≠ []) : crlf s ≠ [] := by
  obtain ⟨c, s, rfl⟩ := List.exists_cons_of_ne_nil h
  by_cases hc : c = '\n'
  · rw [hc, crlf_cons_feed]
    exact List.cons_ne_nil _ _
  · rw [crlf_cons hc]
    exact List.cons_ne_nil _ _

theorem startsWithBreak_crlf_iff {s : Text} (h : '\r' ∉ s) :
    StartsWithBreak (crlf s) ↔ StartsWithBreak s := by
  cases s with
  | nil => rfl
  | cons c s =>
    rw [List.mem_cons, not_or] at h
    by_cases feed : c = '\n'
    · rw [feed, crlf_cons_feed, startsWithBreak_cons_iff, startsWithBreak_cons_iff]
      simp
    · rw [crlf_cons feed, startsWithBreak_cons_iff, startsWithBreak_cons_iff]
      simp [feed, Ne.symm h.1]

theorem prefix_crlf_iff {u s : Text} (part : ∀ d ∈ u, isLexemePart d) :
    u <+: crlf s ↔ u <+: s := by
  induction s generalizing u with
  | nil => rfl
  | cons c s ih =>
    cases u with
    | nil => simp
    | cons d u =>
      obtain ⟨hd, hu⟩ := List.forall_mem_cons.mp part
      by_cases feed : c = '\n'
      · have none : d ≠ '\r' ∧ d ≠ '\n' := by
          constructor
          · rintro rfl
            cases hd
          · rintro rfl
            cases hd
        rw [feed, crlf_cons_feed, List.cons_prefix_cons, List.cons_prefix_cons]
        simp [none]
      · rw [crlf_cons feed, List.cons_prefix_cons, List.cons_prefix_cons, ih hu]

end Text

namespace Blank

theorem read_other {c : Char} (noSpace : isWhitespace c = false) (noBackslash : c ≠ '\\')
    (s : Text) : read (c :: s) = [] := by
  rw [read]
  · simp [noSpace]
  · simp [noBackslash]
  · simp [noBackslash]

theorem read_crlf {s : Text} (h : '\r' ∉ s) : read s.crlf = (read s).crlf := by
  fun_induction read s with
  | case1 => rfl
  | case2 s ih =>
    have later := ih (by simpa using h)
    rw [Text.crlf_cons (by decide), Text.crlf_cons_feed, read, later]
    rfl
  | case3 s ih => simp at h
  | case4 c s _ _ hc ih =>
    have later := ih (List.not_mem_of_not_mem_cons h)
    by_cases feed : c = '\n'
    · rw [feed, Text.crlf_cons_feed, Text.crlf_cons_feed, read_whitespace rfl, read_whitespace rfl,
        later]
    · rw [Text.crlf_cons feed, Text.crlf_cons feed, read_whitespace hc, later]
  | case5 c s short long hc =>
    rw [Bool.not_eq_true] at hc
    have feed : c ≠ '\n' := by
      rintro rfl
      cases hc
    rw [Text.crlf_cons feed, Text.crlf_nil]
    by_cases backslash : c = '\\'
    · rw [backslash, Text.read_backslash_iff,
        Text.startsWithBreak_crlf_iff (List.not_mem_of_not_mem_cons h)]
      rintro (⟨r, rfl⟩ | ⟨r, rfl⟩)
      · exact short r backslash rfl
      · exact long r backslash rfl
    · exact read_other hc backslash _

end Blank

namespace Atom

/-- The atoms that an atom becomes. A line feed that stands for itself or is skipped takes its
carriage return along, and a continuation stays one. -/
def crlf : Atom → List Atom
  | plain c => (Text.crlf [c]).map plain
  | escape c => [escape c]
  | continuation => [longContinuation]
  | longContinuation => [longContinuation]
  | gap => [gap]
  | skipped c => (Text.crlf [c]).map skipped
  | dangling => [dangling]

theorem flatMap_value_crlf (a : Atom) : a.crlf.flatMap value = a.crlfValue := by
  cases a with
  | plain c =>
    rw [crlf, List.flatMap_map]
    exact List.flatMap_singleton' _
  | skipped c =>
    rw [crlf, List.flatMap_map]
    exact List.flatMap_eq_nil_iff.mpr fun _ _ => rfl
  | escape c => exact List.flatMap_singleton _ _
  | _ => rfl

/-- An atom as it is read where no carriage return is. -/
def IsFree (a : Atom) : Prop := a ≠ .escape '\n' ∧ '\r' ∉ a.text

theorem flatMap_text_crlf {a : Atom} (h : a.IsFree) : a.crlf.flatMap text = a.text.crlf := by
  obtain ⟨noFeed, noReturn⟩ := h
  cases a with
  | plain c =>
    rw [crlf, List.flatMap_map]
    exact List.flatMap_singleton' _
  | skipped c =>
    rw [crlf, List.flatMap_map]
    exact List.flatMap_singleton' _
  | escape c =>
    have feed : c ≠ '\n' := fun feed => noFeed (feed ▸ rfl)
    rw [text, Text.crlf_cons (by decide), Text.crlf_cons feed]
    rfl
  | longContinuation => exact absurd (by decide) noReturn
  | _ => rfl

end Atom

namespace Quoted
variable {q : Char}

theorem isFree_readBody {skipping : Bool} {s : Text} (h : '\r' ∉ s) :
    ∀ a ∈ (readBody q skipping s).1, a.IsFree := by
  fun_induction readBody q skipping s <;> simp_all [Atom.IsFree, Atom.text]

/-- A raw line break is skipped as a whole or not at all. -/
theorem readBody_break (hq : isQuote q) (skipping : Bool) (r : Text) :
    readBody q skipping ('\r' :: '\n' :: r) = if skipping
      then consBody (.skipped '\r') (consBody (.skipped '\n') (readBody q true r))
      else consBody (.plain '\r') (consBody (.plain '\n') (readBody q false r)) := by
  have noReturn : '\r' ≠ q := by
    rintro rfl
    cases hq
  have noFeed : '\n' ≠ q := (ne_of_isQuote hq).2.symm
  cases skipping with
  | true =>
    have second : readBody q true ('\n' :: r) = consBody (.skipped '\n') (readBody q true r) := by
      rw [readBody_plain (by decide), if_neg noFeed]
      rfl
    rw [readBody_plain (by decide), if_neg noReturn, second]
    rfl
  | false =>
    have second : readBody q false ('\n' :: r) = consBody (.plain '\n') (readBody q false r) := by
      rw [readBody_plain (by decide), if_neg noFeed]
      rfl
    rw [readBody_plain (by decide), if_neg noReturn]
    exact congrArg (consBody (.plain '\r')) second

theorem readBody_crlf (hq : isQuote q) {skipping : Bool} {s : Text} (h : '\r' ∉ s) :
    readBody q skipping s.crlf =
      ((readBody q skipping s).1.flatMap Atom.crlf, (readBody q skipping s).2) := by
  obtain ⟨noBackslash, noFeed⟩ := ne_of_isQuote hq
  fun_induction readBody q skipping s with
  | case1 => rfl
  | case2 => rfl
  | case3 _ s ih =>
    have later := ih (by simpa using h)
    rw [Text.crlf_cons (by decide), Text.crlf_cons_feed, readBody, later]
    rfl
  | case4 _ s ih => simp at h
  | case5 _ s ih =>
    have later := ih (by simpa using h)
    rw [Text.crlf_cons (by decide), Text.crlf_cons (by decide), readBody, later]
    rfl
  | case6 _ c s feed _ noGap ih =>
    simp only [List.mem_cons, not_or] at h
    have later := ih h.2.2
    rw [Text.crlf_cons (by decide), Text.crlf_cons feed, readBody, later]
    · rfl
    · exact feed
    · exact fun r hc => absurd hc.symm h.2.1
    · exact noGap
  | case7 skipping s =>
    rw [Text.crlf_cons noFeed, readBody_plain noBackslash, if_pos rfl]
    rfl
  | case8 skipping c s lone _ _ _ pair hc skips ih =>
    have plain := ne_backslash lone pair
    have later := ih (List.not_mem_of_not_mem_cons h)
    rw [Bool.and_eq_true] at skips
    by_cases feed : c = '\n'
    · rw [feed, Text.crlf_cons_feed, readBody_break hq, if_pos skips.1, later]
      rfl
    · rw [Text.crlf_cons feed, readBody_plain plain, if_neg hc, skips.1, skips.2, later]
      simp [Atom.crlf, Text.crlf_cons feed, consBody]
  | case9 skipping c s lone _ _ _ pair hc skips ih =>
    have plain := ne_backslash lone pair
    have later := ih (List.not_mem_of_not_mem_cons h)
    by_cases feed : c = '\n'
    · have still : ¬ skipping := by simpa [feed, isWhitespace] using skips
      rw [feed, Text.crlf_cons_feed, readBody_break hq, if_neg still, later]
      rfl
    · rw [Text.crlf_cons feed, readBody_plain plain, if_neg hc, if_neg skips, later]
      simp [Atom.crlf, Text.crlf_cons feed, consBody]

end Quoted

namespace Piece

def crlf : Piece → Piece
  | blank t => blank t.crlf
  | lexeme k t => lexeme k t
  | quoted l => quoted ⟨l.quote, l.body.flatMap Atom.crlf, l.closed⟩
  | stray c => stray c

variable {c : Char} {s : Text}

theorem ne_feed (noBlank : ∀ t, read c s ≠ .blank t) : c ≠ '\n' := by
  rintro rfl
  have filled : Blank.read ('\n' :: s) ≠ [] := by
    rw [Blank.read_whitespace rfl]
    exact List.cons_ne_nil _ _
  exact noBlank _ (read_of_blank_ne_nil filled)

theorem lexeme_or_stray (noBlank : ∀ t, read c s ≠ .blank t) (hc : isQuote c = false) :
    (∃ k t, read c s = .lexeme k t ∧ ∀ d ∈ t, isLexemePart d) ∨ read c s = .stray c := by
  rcases (fits_read c s).cases_of_not_quote hc with ⟨t, ht⟩ | ⟨k, t, ht, longest, hk, lead⟩ |
    ⟨stray, -⟩
  · exact absurd ht (noBlank t)
  · exact Or.inl ⟨k, t, ht, longest.isMatch.all_isLexemePart lead hk.not_isBlank⟩
  · exact Or.inr stray

theorem feed_not_mem {t : Text} (part : ∀ d ∈ t, isLexemePart d) : '\n' ∉ t := by
  intro mem
  cases part _ mem

theorem text_crlf (h : '\r' ∉ c :: s) : (read c s).crlf.text = (read c s).text.crlf := by
  by_cases blank : ∃ t, read c s = .blank t
  · obtain ⟨t, ht⟩ := blank
    rw [ht]
    rfl
  · have noBlank : ∀ t, read c s ≠ .blank t := fun t ht => blank ⟨t, ht⟩
    have feed := ne_feed noBlank
    cases hc : isQuote c with
    | true =>
      have free : ∀ a ∈ (Quoted.read c s).body, a.IsFree :=
        Quoted.isFree_readBody (List.not_mem_of_not_mem_cons h)
      have body : ((Quoted.read c s).body.flatMap Atom.crlf).flatMap Atom.text =
          (Quoted.read c s).bodyText.crlf := by
        rw [Quoted.bodyText, Text.crlf, List.flatMap_assoc, List.flatMap_assoc]
        exact List.flatMap_congr fun a ha => Atom.flatMap_text_crlf (free a ha)
      have ending : (Quoted.ending c (Quoted.read c s).closed).crlf =
          Quoted.ending c (Quoted.read c s).closed := by
        apply Text.crlf_eq_self
        cases (Quoted.read c s).closed with
        | true => simpa [Quoted.ending] using feed.symm
        | false => simp [Quoted.ending]
      rw [read_of_isQuote hc]
      show c :: (_ ++ _) = Text.crlf (c :: (_ ++ _))
      rw [Text.crlf_cons feed, Text.crlf_append]
      exact congrArg (c :: ·) (congrArg₂ (· ++ ·) body ending.symm)
    | false =>
      rcases lexeme_or_stray noBlank hc with ⟨k, t, ht, part⟩ | stray
      · rw [ht]
        exact (Text.crlf_eq_self (feed_not_mem part)).symm
      · rw [stray]
        exact (Text.crlf_cons feed []).symm

theorem crlf_isPrefix (h : '\r' ∉ c :: s) : (read c s).crlf.text <+: Text.crlf (c :: s) := by
  obtain ⟨r, hr⟩ := read_isPrefix c s
  exact ⟨Text.crlf r, by rw [text_crlf h, ← Text.crlf_append, hr]⟩

theorem exists_read_crlf (h : '\r' ∉ c :: s) :
    ∃ y r, Text.crlf (c :: s) = y :: r ∧ read y r = (read c s).crlf := by
  have blanks := Blank.read_crlf h
  by_cases ne : Blank.read (c :: s) = []
  · have noBlank := read_ne_blank ne
    have front := Text.crlf_cons (ne_feed noBlank) s
    have here := crlf_isPrefix h
    rw [ne, front] at blanks
    rw [front] at here
    refine ⟨c, s.crlf, front, ?_⟩
    cases hc : isQuote c with
    | true =>
      rw [read_of_isQuote hc, read_of_isQuote hc, Quoted.read,
        Quoted.readBody_crlf hc (List.not_mem_of_not_mem_cons h)]
      rfl
    | false =>
      have same : (read c s).crlf = read c s := by
        rcases lexeme_or_stray noBlank hc with ⟨k, t, ht, -⟩ | stray
        · rw [ht]
          rfl
        · rw [stray]
          rfl
      rw [same] at here ⊢
      refine read_congr hc noBlank here blanks ?_
      intro v part hv
      rw [← front] at hv
      exact (Text.prefix_crlf_iff part).mp hv
  · obtain ⟨y, r, front⟩ := List.exists_cons_of_ne_nil (Text.crlf_ne_nil (List.cons_ne_nil c s))
    refine ⟨y, r, front, ?_⟩
    have filled := Text.crlf_ne_nil ne
    rw [← blanks, front] at filled
    rw [read_of_blank_ne_nil ne, read_of_blank_ne_nil filled, ← front, blanks]
    rfl

end Piece

end Lexis
