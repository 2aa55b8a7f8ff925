import Lexis.Proofs.LineBreaks

/-! The two quotes are alike. A source with each of them in place of the other is read the same way,
piece by piece, and only the texts and values of its literals are other ones. -/

namespace Lexis
set_option autoImplicit false

/-- The other quote for a quote, and other characters as they are. -/
def swapQuote (c : Char) : Char := if c = '"' then '\'' else if c = '\'' then '"' else c

def Text.swapQuotes (s : Text) : Text := s.map swapQuote

/-- The same token with the quotes of its text and of its value swapped. -/
def Token.swapQuotes (t : Token) : Token :=
  ⟨⟨t.kind, t.text.swapQuotes, t.value.map Text.swapQuotes⟩, t.span⟩

theorem swapQuote_of_not_isQuote {c : Char} (h : isQuote c = false) : swapQuote c = c := by
  simp only [isQuote, Bool.or_eq_false_iff, decide_eq_false_iff_not] at h
  rw [swapQuote, if_neg h.1, if_neg h.2]

/-- A character is left alone, or it is one quote and becomes the other. -/
theorem swapQuote_cases {motive : Char → Char → Prop} (double : motive '"' '\'')
    (single : motive '\'' '"') (other : ∀ c, isQuote c = false → motive c c) (c : Char) :
    motive c (swapQuote c) := by
  cases h : isQuote c with
  | false =>
    rw [swapQuote_of_not_isQuote h]
    exact other c h
  | true =>
    simp only [isQuote, Bool.or_eq_true, decide_eq_true_eq] at h
    rcases h with rfl | rfl
    · exact double
    · exact single

theorem swapQuote_swapQuote (c : Char) : swapQuote (swapQuote c) = c :=
  swapQuote_cases (motive := fun c d => swapQuote d = c) rfl rfl
    (fun _ h => swapQuote_of_not_isQuote h) c

theorem swapQuote_injective : Function.Injective swapQuote :=
  Function.Involutive.injective swapQuote_swapQuote

theorem swapQuote_eq_iff {c d : Char} (h : isQuote d = false) : swapQuote c = d ↔ c = d := by
  rw [← swapQuote_injective.eq_iff (a := c), swapQuote_of_not_isQuote h]

theorem isQuote_swapQuote (c : Char) : isQuote (swapQuote c) = isQuote c :=
  swapQuote_cases (motive := fun c d => isQuote d = isQuote c) rfl rfl (fun _ _ => rfl) c

theorem isWhitespace_swapQuote (c : Char) : isWhitespace (swapQuote c) = isWhitespace c :=
  swapQuote_cases (motive := fun c d => isWhitespace d = isWhitespace c) rfl rfl (fun _ _ => rfl) c

theorem utf8Size_swapQuote (c : Char) : (swapQuote c).utf8Size = c.utf8Size :=
  swapQuote_cases (motive := fun c d => d.utf8Size = c.utf8Size) rfl rfl (fun _ _ => rfl) c

/-- An escaped quote stands for itself, and nothing else stands for a quote. -/
theorem Escape.decode?_swapQuote (c : Char) :
    decode? (swapQuote c) = (decode? c).map swapQuote := by
  refine swapQuote_cases (motive := fun c d => decode? d = (decode? c).map swapQuote)
    (by decide) (by decide) ?_ c
  intro c hc
  have quotes : ∀ p ∈ table, isQuote p.1 = false → isQuote p.2 = false := by
    simp [table, isQuote]
  cases h : decode? c with
  | none => rfl
  | some d =>
    obtain ⟨front, back, whole, -⟩ := List.lookup_eq_some_iff.mp h
    have entry : (c, d) ∈ table := whole ▸ List.mem_append_right front List.mem_cons_self
    rw [Option.map_some, swapQuote_of_not_isQuote (quotes _ entry hc)]

namespace Text

@[simp] theorem swapQuotes_nil : swapQuotes [] = [] := rfl

@[simp] theorem swapQuotes_cons (c : Char) (s : Text) :
    swapQuotes (c :: s) = swapQuote c :: swapQuotes s := rfl

@[simp] theorem swapQuotes_append (s r : Text) :
    swapQuotes (s ++ r) = swapQuotes s ++ swapQuotes r := List.map_append

@[simp] theorem length_swapQuotes (s : Text) : (swapQuotes s).length = s.length := List.length_map _

theorem swapQuotes_eq_self {s : Text} (h : ∀ d ∈ s, isQuote d = false) : swapQuotes s = s :=
  (List.map_congr_left fun d hd => swapQuote_of_not_isQuote (h d hd)).trans (List.map_id s)

theorem swapQuotes_swapQuotes (s : Text) : swapQuotes (swapQuotes s) = s := by
  rw [swapQuotes, swapQuotes, List.map_map]
  exact (List.map_congr_left fun c _ => swapQuote_swapQuote c).trans (List.map_id s)

theorem prefix_swapQuotes_iff {u s : Text} (h : ∀ d ∈ u, isQuote d = false) :
    u <+: swapQuotes s ↔ u <+: s := by
  constructor
  · intro front
    have swapped := front.map swapQuote
    rwa [← swapQuotes, ← swapQuotes, swapQuotes_eq_self h, swapQuotes_swapQuotes] at swapped
  · intro front
    have swapped := front.map swapQuote
    rwa [← swapQuotes, swapQuotes_eq_self h] at swapped

theorem startsWithBreak_swapQuotes_iff {s : Text} :
    StartsWithBreak (swapQuotes s) ↔ StartsWithBreak s :=
  or_congr (prefix_swapQuotes_iff (by simp [isQuote])) (prefix_swapQuotes_iff (by simp [isQuote]))

end Text

theorem Blank.read_swapQuotes (s : Text) : read s.swapQuotes = (read s).swapQuotes := by
  fun_induction read s with
  | case1 => rfl
  | case2 s ih => exact congrArg ('\\' :: '\n' :: ·) ih
  | case3 s ih => exact congrArg ('\\' :: '\r' :: '\n' :: ·) ih
  | case4 c s _ _ hc ih =>
    rw [← isWhitespace_swapQuote] at hc
    rw [Text.swapQuotes_cons, read_whitespace hc, ih, Text.swapQuotes_cons]
  | case5 c s short long hc =>
    rw [Bool.not_eq_true, ← isWhitespace_swapQuote] at hc
    rw [Text.swapQuotes_cons, Text.swapQuotes_nil]
    by_cases backslash : c = '\\'
    · subst backslash
      refine Text.read_backslash_iff.mpr fun starts => ?_
      rcases Text.startsWithBreak_swapQuotes_iff.mp starts with ⟨r, rfl⟩ | ⟨r, rfl⟩
      · exact short r rfl rfl
      · exact long r rfl rfl
    · refine read_other hc ?_ _
      rwa [ne_eq, swapQuote_eq_iff (by decide)]

namespace Atom

def swapQuotes : Atom → Atom
  | plain c => plain (swapQuote c)
  | escape c => escape (swapQuote c)
  | skipped c => skipped (swapQuote c)
  | a => a

theorem text_swapQuotes (a : Atom) : a.swapQuotes.text = a.text.swapQuotes := by
  cases a <;> rfl

theorem value_swapQuotes (a : Atom) : a.swapQuotes.value = a.value.swapQuotes := by
  cases a with
  | escape c =>
    rw [swapQuotes, value, value, Escape.decode?_swapQuote]
    cases Escape.decode? c <;> rfl
  | _ => rfl

theorem invalid?_swapQuotes (a : Atom) : a.swapQuotes.invalid? = a.invalid? := by
  cases a with
  | escape c =>
    exact swapQuote_cases (motive := fun c d => (escape d).invalid? = (escape c).invalid?)
      (by decide) (by decide) (fun _ _ => rfl) c
  | _ => rfl

end Atom

namespace Quoted

def swapQuotes (l : Quoted) : Quoted := ⟨swapQuote l.quote, l.body.map Atom.swapQuotes, l.closed⟩

theorem readBody_swapQuotes (q : Char) (skipping : Bool) (s : Text) :
    readBody (swapQuote q) skipping s.swapQuotes =
      ((readBody q skipping s).1.map Atom.swapQuotes, (readBody q skipping s).2) := by
  fun_induction readBody q skipping s with
  | case1 => rfl
  | case2 => rfl
  | case3 _ s ih => exact congrArg (consBody .continuation) ih
  | case4 _ s ih => exact congrArg (consBody .longContinuation) ih
  | case5 _ s ih => exact congrArg (consBody .gap) ih
  | case6 skipping c s feed long noGap ih =>
    show readBody (swapQuote q) skipping ('\\' :: swapQuote c :: Text.swapQuotes s) = _
    rw [readBody, ih]
    · rfl
    · rwa [swapQuote_eq_iff (by decide)]
    · intro r hc hs
      rw [swapQuote_eq_iff (by decide)] at hc
      have feed : ['\n'] <+: s := (Text.prefix_swapQuotes_iff (by simp [isQuote])).mp ⟨r, hs.symm⟩
      obtain ⟨r', rfl⟩ := feed
      exact long r' hc rfl
    · rwa [swapQuote_eq_iff (by decide)]
  | case7 skipping s lone _ _ _ pair =>
    have plain := ne_backslash lone pair
    rw [Text.swapQuotes_cons, readBody_plain (by rwa [ne_eq, swapQuote_eq_iff (by decide)]),
      if_pos rfl]
    rfl
  | case8 skipping c s lone _ _ _ pair hc skips ih =>
    have plain := ne_backslash lone pair
    rw [Text.swapQuotes_cons, readBody_plain (by rwa [ne_eq, swapQuote_eq_iff (by decide)]),
      if_neg (swapQuote_injective.ne hc), isWhitespace_swapQuote, if_pos skips, ih]
    rfl
  | case9 skipping c s lone _ _ _ pair hc skips ih =>
    have plain := ne_backslash lone pair
    rw [Text.swapQuotes_cons, readBody_plain (by rwa [ne_eq, swapQuote_eq_iff (by decide)]),
      if_neg (swapQuote_injective.ne hc), isWhitespace_swapQuote, if_neg skips, ih]
    rfl

theorem text_swapQuotes (l : Quoted) : l.swapQuotes.text = l.text.swapQuotes := by
  have body : l.swapQuotes.bodyText = l.bodyText.swapQuotes := by
    rw [bodyText, bodyText, swapQuotes, List.flatMap_map, Text.swapQuotes, List.map_flatMap]
    exact List.flatMap_congr fun a _ => a.text_swapQuotes
  have ending : ending (swapQuote l.quote) l.closed = (ending l.quote l.closed).swapQuotes := by
    cases l.closed <;> rfl
  rw [text, text, Text.swapQuotes_cons, Text.swapQuotes_append, body, ← ending]
  rfl

theorem value_swapQuotes (l : Quoted) : l.swapQuotes.value = l.value.swapQuotes := by
  rw [value, value, swapQuotes, List.flatMap_map, Text.swapQuotes, List.map_flatMap]
  exact List.flatMap_congr fun a _ => a.value_swapQuotes

end Quoted

namespace Piece

def swapQuotes : Piece → Piece
  | blank t => blank t.swapQuotes
  | lexeme k t => lexeme k t.swapQuotes
  | quoted l => quoted l.swapQuotes
  | stray c => stray (swapQuote c)

theorem text_swapQuotes (p : Piece) : p.swapQuotes.text = p.text.swapQuotes := by
  cases p with
  | quoted l => exact l.text_swapQuotes
  | _ => rfl

theorem not_isQuote_of_mem_text {c : Char} {s : Text} (hc : isQuote c = false) :
    ∀ d ∈ (read c s).text, isQuote d = false := by
  by_cases blank : ∃ t, read c s = .blank t
  · obtain ⟨t, ht⟩ := blank
    rw [ht]
    exact (isBlank_of_read ht).2.not_isQuote
  · rcases lexeme_or_stray (fun t ht => blank ⟨t, ht⟩) hc with ⟨k, t, ht, part⟩ | stray
    · rw [ht]
      exact fun d hd => not_isQuote_of_isLexemePart (part d hd)
    · rw [stray]
      exact List.forall_mem_singleton.mpr hc

theorem not_isQuote_of_stray {c x : Char} {s : Text} (h : read c s = .stray x) :
    isQuote x = false := by
  have fits := fits_read c s
  rw [h] at fits
  cases fits with
  | stray _ noQuote => exact noQuote

theorem swapQuotes_read_of_not_isQuote {c : Char} {s : Text} (hc : isQuote c = false) :
    (read c s).swapQuotes = read c s := by
  have plain := not_isQuote_of_mem_text (s := s) hc
  rcases (fits_read c s).cases_of_not_quote hc with ⟨t, ht⟩ | ⟨k, t, ht, -⟩ | ⟨stray, -⟩
  · rw [ht] at plain ⊢
    exact congrArg blank (Text.swapQuotes_eq_self plain)
  · rw [ht] at plain ⊢
    exact congrArg (lexeme k) (Text.swapQuotes_eq_self plain)
  · rw [stray]
    exact congrArg Piece.stray (swapQuote_of_not_isQuote hc)

/-- The piece that begins the one text becomes the piece that begins the other. -/
theorem read_swapQuotes (c : Char) (s : Text) :
    read (swapQuote c) s.swapQuotes = (read c s).swapQuotes := by
  have blanks := Blank.read_swapQuotes (c :: s)
  by_cases ne : Blank.read (c :: s) = []
  · cases hc : isQuote c with
    | true =>
      have hc' : isQuote (swapQuote c) := (isQuote_swapQuote c).trans hc
      rw [read_of_isQuote hc, read_of_isQuote hc', Quoted.read, Quoted.readBody_swapQuotes]
      rfl
    | false =>
      have front : Text.swapQuotes (c :: s) = c :: s.swapQuotes := by
        rw [Text.swapQuotes_cons, swapQuote_of_not_isQuote hc]
      rw [ne, front] at blanks
      rw [swapQuote_of_not_isQuote hc, swapQuotes_read_of_not_isQuote hc]
      -- What begins the one text and holds no quote begins the other too.
      refine read_congr hc (read_ne_blank ne) ?_ blanks ?_
      · rw [← front, Text.prefix_swapQuotes_iff (not_isQuote_of_mem_text hc)]
        exact read_isPrefix c s
      · intro v part hv
        rw [← front] at hv
        exact (Text.prefix_swapQuotes_iff fun d hd =>
          not_isQuote_of_isLexemePart (part d hd)).mp hv
  · have filled : Blank.read (Text.swapQuotes (c :: s)) ≠ [] := by
      rw [blanks]
      exact mt List.map_eq_nil_iff.mp ne
    rw [read_of_blank_ne_nil ne, swapQuotes, ← blanks]
    exact read_of_blank_ne_nil filled

end Piece

theorem Position.past_swapQuote (p : Position) (c : Char) (s : Text) :
    p.past (swapQuote c) s.swapQuotes.head? = p.past c s.head? := by
  have feed : isQuote '\n' = false := rfl
  have back : isQuote '\r' = false := rfl
  have next : s.swapQuotes.head? = some '\n' ↔ s.head? = some '\n' := by
    cases s with
    | nil => rfl
    | cons d s => simp [swapQuote_eq_iff feed]
  have breaks : breaksLine (swapQuote c) s.swapQuotes.head? = breaksLine c s.head? := by
    rw [breaksLine, breaksLine, decide_eq_decide.mpr (swapQuote_eq_iff feed),
      decide_eq_decide.mpr (swapQuote_eq_iff back), decide_eq_decide.mpr (not_congr next)]
  rw [past, past, breaks, utf8Size_swapQuote, if_congr (swapQuote_eq_iff back) rfl rfl]

namespace Cursor

def swapQuotes (c : Cursor) : Cursor := ⟨c.position, c.rest.swapQuotes⟩

theorem advance_swapQuotes (c : Cursor) : c.swapQuotes.advance = c.advance.swapQuotes := by
  obtain ⟨p, s⟩ := c
  cases s with
  | nil => rfl
  | cons x s => exact congrArg (Cursor.mk · (Text.swapQuotes s)) (p.past_swapQuote x s)

theorem skip_swapQuotes (c : Cursor) (n : Nat) : c.swapQuotes.skip n = (c.skip n).swapQuotes := by
  induction n generalizing c with
  | zero => rfl
  | succ n ih => rw [skip_succ, advance_swapQuotes, ih, skip_succ]

theorem finish_swapQuotes (c : Cursor) : c.swapQuotes.finish = c.finish.swapQuotes := by
  rw [finish, finish, ← skip_swapQuotes, swapQuotes, Text.length_swapQuotes]

end Cursor

theorem Quoted.faults_swapQuotes (c : Cursor) (as : List Atom) :
    faults c.swapQuotes (as.map Atom.swapQuotes) = faults c as := by
  induction as generalizing c with
  | nil => rfl
  | cons a as ih =>
    rw [List.map_cons, faults, faults, a.invalid?_swapQuotes, a.text_swapQuotes,
      Text.length_swapQuotes, Cursor.advance_swapQuotes, Cursor.skip_swapQuotes, ih]
    rfl

namespace Placed

def swapQuotes (p : Placed) : Placed := ⟨p.piece.swapQuotes, p.start.swapQuotes⟩

theorem stop_swapQuotes (p : Placed) : p.swapQuotes.stop = p.stop.swapQuotes := by
  rw [stop, stop, swapQuotes, p.piece.text_swapQuotes, Text.length_swapQuotes,
    Cursor.skip_swapQuotes]

theorem span_swapQuotes (p : Placed) : p.swapQuotes.span = p.span := by
  rw [span, stop_swapQuotes]
  rfl

theorem token?_swapQuotes (p : Placed) : p.swapQuotes.token? = p.token?.map Token.swapQuotes := by
  rw [token?, token?, span_swapQuotes]
  obtain ⟨piece, start⟩ := p
  cases piece with
  | quoted l =>
    simp only [swapQuotes, Piece.swapQuotes, Piece.lexeme?, l.text_swapQuotes, l.value_swapQuotes]
    show Option.map _ (if l.closed then _ else _) = _
    cases l.closed <;> rfl
  | _ => rfl

theorem findings_swapQuotes {p : Placed} (noQuote : ∀ x, p.piece = .stray x → isQuote x = false) :
    p.swapQuotes.findings = p.findings := by
  have span := p.span_swapQuotes
  obtain ⟨piece, start⟩ := p
  cases piece with
  | blank t => exact congrArg (fun s => [Finding.passed ⟨.whitespace, s⟩]) span
  | lexeme k t => rfl
  | quoted l =>
    have inside := Quoted.faults_swapQuotes start.advance l.body
    rw [← Cursor.advance_swapQuotes] at inside
    rw [findings, findings, span]
    simp only [swapQuotes, Piece.swapQuotes, Quoted.swapQuotes, inside]
    rfl
  | stray x =>
    -- The error names the character, so it must be the same one.
    have same : swapQuote x = x := swapQuote_of_not_isQuote (noQuote x rfl)
    rw [findings, findings, span]
    simp only [swapQuotes, Piece.swapQuotes, same]
    rfl

end Placed

namespace Cursor

theorem placed_swapQuotes (c : Cursor) : c.swapQuotes.placed = c.placed.map Placed.swapQuotes := by
  refine placed_map (fun _ => True) ?_ ?_ (fun _ _ _ _ _ => ⟨trivial, Placed.stop_swapQuotes _⟩)
    trivial
  · intro d hs
    rw [swapQuotes, hs]
    rfl
  · intro d x s _ hs
    refine ⟨swapQuote x, Text.swapQuotes s, ?_, ?_⟩
    · rw [swapQuotes, hs]
      rfl
    · rw [Piece.read_swapQuotes]
      rfl

theorem tokens_swapQuotes (c : Cursor) : c.swapQuotes.placed.filterMap Placed.token? =
    (c.placed.filterMap Placed.token?).map Token.swapQuotes := by
  rw [placed_swapQuotes, List.filterMap_map, List.map_filterMap]
  exact List.filterMap_congr fun p _ => p.token?_swapQuotes

theorem findings_swapQuotes (c : Cursor) :
    c.swapQuotes.placed.flatMap Placed.findings = c.placed.flatMap Placed.findings := by
  rw [placed_swapQuotes, List.flatMap_map]
  refine List.flatMap_congr fun p hp => Placed.findings_swapQuotes ?_
  revert p
  refine forall_placed (fun _ => True) (fun _ _ _ _ _ => trivial) ?_ trivial
  exact fun _ x s _ _ y => Piece.not_isQuote_of_stray

end Cursor

/-- The two quotes are alike: with each of them in place of the other, a source gives the same
tokens, their texts and values with the quotes swapped, and the same trivia and errors. -/
theorem tokenizeWith_swapQuotes (config : Config) (source : Text) :
    (tokenizeWith config source.swapQuotes).stream.tokens =
        (tokenizeWith config source).stream.tokens.map Token.swapQuotes ∧
      (tokenizeWith config source.swapQuotes).stream.trivia =
        (tokenizeWith config source).stream.trivia ∧
      (tokenizeWith config source.swapQuotes).errors = (tokenizeWith config source).errors ∧
      (tokenizeWith config source.swapQuotes).suppressed =
        (tokenizeWith config source).suppressed := by
  have findings : (Lexer.start config source.swapQuotes).remainingFindings =
      (Lexer.start config source).remainingFindings := (Cursor.start source).findings_swapQuotes
  have report : (Lexer.start config source.swapQuotes).finalReport =
      (Lexer.start config source).finalReport := by
    rw [Lexer.finalReport, Lexer.finalReport, findings]
    rfl
  refine ⟨?_, congrArg (·.trivia.toList) report, congrArg (·.errors.toList) report,
    congrArg (·.suppressed) report⟩
  have tokens := (Cursor.start source).tokens_swapQuotes
  have finish := (Cursor.start source).finish_swapQuotes
  rw [tokens_tokenizeWith, tokens_tokenizeWith, List.map_append, ← tokens]
  exact congrArg (fun c => _ ++ [Token.endOfInput c.position]) finish

end Lexis
