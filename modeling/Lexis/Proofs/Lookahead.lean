import Lexis.Proofs.Relaid
import Lexis.Proofs.Transport

/-! How far the lexer looks ahead. A token is settled by the text up to its end, the digits behind
it and one character more, and so is every token before it. -/

namespace Lexis
set_option autoImplicit false

/-- How much of the text settles what is lexed before the offset `n`: the digits from there on and
one character more, if there is one. -/
def Text.horizon? (s : Text) (n : Nat) : Option Nat :=
  (s.dropBytes? n).bind fun r => (r.dropWhile isDigit).head?.map fun x =>
    n + byteLength (r.takeWhile isDigit ++ [x])

theorem Text.isPrefix_of_takeBytes? {n : Nat} {s t : Text} (h : takeBytes? n s = some t) :
    t <+: s := by
  fun_induction takeBytes? n s generalizing t with
  | case1 => simp_all
  | case2 => cases h
  | case3 n c s _ ih =>
    obtain ⟨u, hu, rfl⟩ := Option.map_eq_some_iff.mp h
    exact (List.prefix_cons_inj c).mpr (ih hu)
  | case4 => cases h

theorem Text.horizon?_append {a r : Text} {f : Nat}
    (h : horizon? (a ++ r) (byteLength a) = some f) : ∃ v, v <+: r ∧
      (∃ x ∈ v, isDigit x = false) ∧ takeBytes? f (a ++ r) = some (a ++ v) := by
  rw [horizon?, dropBytes?_append, Option.bind_some] at h
  obtain ⟨x, first, rfl⟩ := Option.map_eq_some_iff.mp h
  obtain ⟨rest, hrest⟩ := List.head?_eq_some_iff.mp first
  have noDigit := List.head?_dropWhile_not isDigit r
  rw [first] at noDigit
  have whole : r = r.takeWhile isDigit ++ [x] ++ rest := by
    rw [List.append_assoc, List.singleton_append, ← hrest, List.takeWhile_append_dropWhile]
  refine ⟨r.takeWhile isDigit ++ [x], ⟨rest, whole.symm⟩, ⟨x, List.mem_concat_self, noDigit⟩, ?_⟩
  rw [← byteLength_append]
  have cut := takeBytes?_append (a ++ (r.takeWhile isDigit ++ [x])) rest
  rwa [List.append_assoc, ← whole] at cut

theorem eq_dot_of_not_isDigit {a b m n : Text} {x : Char} (whole : a ++ x :: b = m ++ '.' :: n)
    (hm : ∀ d ∈ m, isDigit d) (hn : ∀ d ∈ n, isDigit d) (noDigit : isDigit x = false) :
    a = m ∧ x = '.' := by
  have other {t : Text} (ht : ∀ d ∈ t, isDigit d) : x ∉ t := by
    intro mem
    cases noDigit.symm.trans (ht x mem)
  rcases List.append_eq_append_iff.mp whole with ⟨u, rfl, late⟩ | ⟨u, rfl, late⟩
  · cases u with
    | nil => exact ⟨(List.append_nil a).symm, (List.cons.inj late).1⟩
    | cons y u =>
      obtain ⟨rfl, -⟩ := List.cons.inj late
      exact absurd (by simp) (other hm)
  · cases u with
    | nil => exact ⟨List.append_nil m, (List.cons.inj late).1.symm⟩
    | cons y u =>
      obtain ⟨-, rfl⟩ := List.cons.inj late
      exact absurd (by simp) (other hn)

/-- A match that goes on past a character other than a digit could have ended there. -/
theorem IsMatch.exists_shorter {t v w : Text} (h : IsMatch (t ++ v ++ w)) (ne : t ≠ [])
    (lead : Text.lead? t ≠ some .quote) (filled : ¬ Blank.IsBlank (t ++ v ++ w))
    (other : ∃ x ∈ v, isDigit x = false) :
    ∃ u, IsMatch u ∧ u <+: t ++ v ∧ t.length < u.length := by
  obtain ⟨x, hx, noDigit⟩ := other
  obtain ⟨a, b, rfl⟩ := List.append_of_mem hx
  have longer : t.length < (t ++ (a ++ x :: b)).length := by
    simp only [List.length_append, List.length_cons]
    omega
  have word (hw : IsWord (t ++ (a ++ x :: b) ++ w)) :
      ∃ u, IsMatch u ∧ u <+: t ++ (a ++ x :: b) ∧ t.length < u.length := by
    have all := hw.all_isWordPart
    obtain ⟨c, t, rfl⟩ := List.exists_cons_of_ne_nil ne
    cases hw with
    | intro hc _ =>
      have shorter : IsWord (c :: t ++ (a ++ x :: b)) :=
        .intro hc fun d hd => all d (List.mem_append_left _ (List.mem_cons_of_mem c hd))
      exact ⟨_, Or.inr ⟨_, Word.isLexeme_kind shorter⟩, List.prefix_refl _, longer⟩
  rcases h with blank | ⟨k, hk⟩
  · exact absurd blank filled
  · generalize whole : t ++ (a ++ x :: b) ++ w = u at hk word
    cases hk with
    | keyword k hw => exact word hw
    | identifier hw => exact word hw
    | intLiteral hi =>
      have digit := hi.all_isDigit x (by simp [← whole])
      rw [noDigit] at digit
      cases digit
    | floatLiteral hf =>
      -- The character is the dot of the float, and a float can end behind its dot.
      obtain ⟨m, n, rfl, hm, hn, -⟩ := hf.exists_digits
      have split : (t ++ a) ++ x :: (b ++ w) = m ++ '.' :: n := by simpa using whole
      obtain ⟨rfl, rfl⟩ := eq_dot_of_not_isDigit split hm hn noDigit
      have front : t ++ a ++ ['.'] <+: t ++ (a ++ '.' :: b) := ⟨b, by simp⟩
      have digits : t ++ a ≠ [] := List.append_ne_nil_of_left_ne_nil ne a
      refine ⟨_, Or.inr ⟨_, .floatLiteral (.afterDigits digits hm (by simp))⟩, front, ?_⟩
      simp only [List.length_append, List.length_cons]
      omega
    | stringLiteral hs =>
      have front : t <+: u := whole ▸ (List.prefix_append t _).trans (List.prefix_append _ w)
      rw [Text.lead?_of_prefix front ne] at lead
      exact absurd hs.lead? lead
    | symbol s =>
      have short := s.length_text_le
      have filled := List.length_pos_iff.mpr ne
      rw [← whole, List.length_append] at short
      have none : w = [] := List.length_eq_zero_iff.mp (by omega)
      rw [none, List.append_nil] at whole
      exact ⟨_, Or.inr ⟨_, .symbol s⟩, whole ▸ List.prefix_refl _, whole ▸ longer⟩

theorem Blank.exists_read_append (s : Text) : ∃ r, read s ++ r = s ∧ read r = [] := by
  obtain ⟨r, hr⟩ := read_isPrefix s
  have whole := read_append (isBlank_read s) r
  rw [hr] at whole
  exact ⟨r, hr, by simpa using whole⟩

theorem pieces_of_blank_ne_nil {s : Text} (ne : Blank.read s ≠ []) :
    ∃ ps, pieces s = .blank (Blank.read s) :: ps := by
  cases s with
  | nil => exact absurd rfl ne
  | cons c s => exact ⟨_, by rw [pieces_cons, Piece.read_of_blank_ne_nil ne]⟩

namespace Piece

theorem closed_of_prefix {c : Char} {s v : Text} {l : Quoted} (h : read c s = .quoted l)
    (here : l.text ++ v <+: c :: s) (filled : v ≠ []) : l.closed := by
  by_contra unclosed
  obtain ⟨-, rfl⟩ := eq_read_of_quoted h
  rw [Quoted.read_text_of_not_closed (Bool.eq_false_iff.mpr unclosed)] at here
  have short := here.length_le
  have more := List.length_pos_iff.mpr filled
  rw [List.length_append] at short
  omega

/-- A piece other than a blank is read again where the new text goes on like the old one until
behind a character other than a digit. -/
theorem read_of_common {c : Char} {s r v : Text} (noBlank : ∀ t, read c s ≠ .blank t)
    (other : ∃ x ∈ v, isDigit x = false) (here : (read c s).text ++ v <+: c :: s)
    (there : (read c s).text ++ v <+: c :: r) (last : Blank.read (c :: r) = []) :
    read c r = read c s := by
  cases hc : isQuote c with
  | true =>
    have piece := read_of_isQuote hc (s := s)
    have filled : v ≠ [] := by
      rintro rfl
      simp at other
    rw [piece, Piece.text] at here there
    have done := closed_of_prefix piece here filled
    obtain ⟨t, text, own⟩ := Quoted.read_text hc done
    rw [text] at there
    obtain ⟨u, hu⟩ := (List.prefix_append t v).trans (List.cons_prefix_cons.mp there).2
    rw [← own] at done
    rw [piece, read_of_isQuote hc, ← hu, Quoted.read, Quoted.readBody_append done]
    exact congrArg quoted own
  | false =>
    have front := (List.prefix_append _ v).trans there
    refine read_again hc noBlank front last ?_
    intro u hu part hp longer
    rcases List.prefix_or_prefix_of_prefix hp there with within | ⟨w, rfl⟩
    · exact ⟨u, hu, within.trans here, longer⟩
    · have ne := read_text_ne_nil c s
      have lead := Text.lead?_ne_quote hc r
      rw [← Text.lead?_of_prefix front ne] at lead
      have filled : ¬ Blank.IsBlank ((read c s).text ++ v ++ w) := by
        intro blank
        obtain ⟨d, t, ht⟩ := List.exists_cons_of_ne_nil ne
        rw [ht] at blank part
        cases (blank.not_isLexemePart rfl).symm.trans (part d List.mem_cons_self)
      obtain ⟨u, hu, short, long⟩ := hu.exists_shorter ne lead filled other
      exact ⟨u, hu, short.trans here, long⟩

end Piece

theorem not_startsWithBreak_of_piece {p : Piece} {s r : Text} {ps qs : List Piece}
    (old : pieces s = p :: ps) (new : pieces r = p :: qs) (h : ¬ s.StartsWithBreak) :
    ¬ r.StartsWithBreak := by
  by_cases none : Blank.read r = []
  · exact Text.not_startsWithBreak_of_read none
  · obtain ⟨rs, hrs⟩ := pieces_of_blank_ne_nil none
    obtain ⟨rfl, -⟩ := List.cons.inj (new.symm.trans hrs)
    have front : Blank.read r <+: s := by
      rw [← flatMap_text_pieces s, old]
      exact List.prefix_append _ _
    obtain ⟨u, whole, last⟩ := Blank.exists_read_append r
    rw [← whole]
    intro starts
    have within := starts.of_append none last
    exact h (within.imp (·.trans front) (·.trans front))

namespace Piece
variable {c : Char} {s rest w : Text} (split : (read c s).text ++ rest = c :: s)
include split

theorem pieces_blank_append {t : Text} (h : read c s = .blank t) {p : Piece} {ps qs : List Piece}
    (old : pieces rest = p :: ps) (new : pieces w = p :: qs) :
    pieces (t ++ w) = .blank t :: pieces w := by
  obtain ⟨longest, blank⟩ := isBlank_of_read h
  apply read_of_blank blank longest.ne_nil
  by_contra starts
  obtain ⟨rs, hrs⟩ := pieces_of_blank_ne_nil starts
  obtain ⟨rfl, -⟩ := List.cons.inj (new.symm.trans hrs)
  rw [h] at split
  cases rest with
  | nil =>
    rw [pieces_nil] at old
    cases old
  | cons y r =>
    rw [pieces_cons] at old
    exact not_blank_after_blank h split (List.cons.inj old).1

theorem read_append_eq_nil (noBlank : ∀ t, read c s ≠ .blank t)
    (behind : read c s = .stray '\\' →
      ∃ p ps qs, pieces rest = p :: ps ∧ pieces w = p :: qs) :
    Blank.read ((read c s).text ++ w) = [] := by
  by_cases backslash : read c s = .stray '\\'
  · obtain ⟨p, ps, qs, old, new⟩ := behind backslash
    rw [backslash] at split ⊢
    obtain ⟨-, rfl⟩ := List.cons.inj split
    have parted := not_startsWithBreak_of_stray backslash (List.append_nil rest)
    exact Text.read_backslash_iff.mpr (not_startsWithBreak_of_piece old new parted)
  · exact read_eq_nil noBlank backslash w

end Piece

/-- Pieces that end in a lexeme are read again where the new text goes on like the old one until
behind a character other than a digit. -/
theorem pieces_of_common {ps more : List Piece} {s v : Text} (cut : pieces s = ps ++ more)
    (last : ∃ p ∈ ps.getLast?, p.lexeme?.isSome) (other : ∃ x ∈ v, isDigit x = false)
    (common : ps.flatMap Piece.text ++ v <+: s) (r : Text) :
    ps <+: pieces (ps.flatMap Piece.text ++ (v ++ r)) := by
  obtain ⟨x, hx, noDigit⟩ := other
  -- A blank or a stray backslash is settled by the piece behind it, which is read again first.
  induction ps generalizing s with
  | nil => simp at last
  | cons p ps ih =>
    cases s with
    | nil =>
      rw [pieces_nil] at cut
      cases cut
    | cons c s =>
      rw [pieces_cons] at cut
      obtain ⟨rfl, later⟩ := List.cons.inj cut
      have split := Piece.read_text_append_drop c s
      generalize (c :: s).drop (Piece.read c s).text.length = rest at later split
      rw [List.flatMap_cons, List.append_assoc] at common ⊢
      have within := common
      rw [← split, List.prefix_append_right_inj] at within
      have again (ne : ps ≠ []) : ps <+: pieces (ps.flatMap Piece.text ++ (v ++ r)) := by
        refine ih later ?_ within
        rwa [List.getLast?_cons_of_ne_nil ne] at last
      have behind (none : (Piece.read c s).lexeme? = none) : ∃ p qs rs, pieces rest = p :: qs ∧
          pieces (ps.flatMap Piece.text ++ (v ++ r)) = p :: rs := by
        cases ps with
        | nil => simp [none] at last
        | cons q ps =>
          obtain ⟨new, hnew⟩ := again (List.cons_ne_nil q ps)
          exact ⟨q, _, _, later, hnew.symm⟩
      have first : pieces ((Piece.read c s).text ++ (ps.flatMap Piece.text ++ (v ++ r))) =
          Piece.read c s :: pieces (ps.flatMap Piece.text ++ (v ++ r)) := by
        by_cases blank : ∃ t, Piece.read c s = .blank t
        · obtain ⟨t, ht⟩ := blank
          obtain ⟨q, qs, rs, old, new⟩ := behind (by rw [ht]; rfl)
          rw [ht]
          exact Piece.pieces_blank_append split ht old new
        · have noBlank : ∀ t, Piece.read c s ≠ .blank t := fun t ht => blank ⟨t, ht⟩
          have none := Piece.read_append_eq_nil split noBlank
            fun stray => behind (by rw [stray]; rfl)
          obtain ⟨t, text⟩ := Piece.exists_text_eq c s
          apply Piece.pieces_of_read_eq text
          refine Piece.read_of_common noBlank ⟨x, List.mem_append_right _ hx, noDigit⟩ common ?_ ?_
          · rw [← List.cons_append, ← text, List.prefix_append_right_inj, ← List.append_assoc]
            exact List.prefix_append _ r
          · rwa [← List.cons_append, ← text]
      rw [first]
      by_cases ne : ps = []
      · rw [ne]
        exact List.prefix_append [_] _
      · exact (List.prefix_cons_inj _).mpr (again ne)

namespace Cursor

theorem beside_of_prefix {c d : Cursor} {t : Text} {n : Nat} (same : d.position = c.position)
    (hc : t <+: c.rest) (hd : t <+: d.rest) (within : n < t.length) : Beside id n c d := by
  intro m hm
  replace within := Nat.lt_of_le_of_lt hm within
  clear hm
  induction m generalizing c d t with
  | zero => exact same
  | succ m ih =>
    obtain ⟨p, s⟩ := c
    obtain ⟨q, r⟩ := d
    obtain rfl : q = p := same
    match t with
    | [] => cases within
    | [x] => simp at within
    | x :: y :: t =>
      obtain ⟨s, rfl⟩ := hc
      obtain ⟨r, rfl⟩ := hd
      rw [skip_succ, skip_succ]
      exact ih rfl (List.prefix_append (y :: t) s) (List.prefix_append (y :: t) r)
        (Nat.lt_of_succ_lt_succ within)

theorem exists_piece_of_token {c : Cursor} {qs : List Piece} {front back : List Token} {t : Token}
    (tokens : (c.place qs).filterMap Placed.token? = front ++ t :: back) : ∃ ps p more,
      qs = ps ++ p :: more ∧ p.lexeme?.isSome ∧
      (c.place (ps ++ [p])).filterMap Placed.token? = front ++ [t] ∧
      t.span.stop = (c.skip ((ps ++ [p]).flatMap Piece.text).length).position := by
  induction qs generalizing c front with
  | nil => simp [place] at tokens
  | cons q qs ih =>
    rw [place] at tokens
    have behind (ps : List Piece) (p : Piece) :
        (c.skip q.text.length).skip ((ps ++ [p]).flatMap Piece.text).length =
          c.skip ((q :: ps ++ [p]).flatMap Piece.text).length := by
      rw [skip_skip, List.cons_append, List.flatMap_cons, List.length_append]
    cases ht : Placed.token? ⟨q, c⟩ with
    | none =>
      rw [List.filterMap_cons_none ht] at tokens
      obtain ⟨ps, p, more, rfl, hp, upTo, stop⟩ := ih tokens
      refine ⟨q :: ps, p, more, rfl, hp, ?_, stop.trans (by rw [behind])⟩
      rw [List.cons_append, place, List.filterMap_cons_none ht, upTo]
    | some u =>
      rw [List.filterMap_cons_some ht] at tokens
      cases front with
      | nil =>
        obtain ⟨rfl, -⟩ := List.cons.inj tokens
        refine ⟨[], q, qs, rfl, ?_, ?_, ?_⟩
        · rw [Placed.token?, Option.map_eq_some_iff] at ht
          obtain ⟨l, hl, -⟩ := ht
          exact Option.isSome_of_eq_some hl
        · rw [List.nil_append, place, List.filterMap_cons_some ht]
          rfl
        · rw [(Placed.token?_eq_some ht).1, List.nil_append, List.flatMap_singleton]
          rfl
      | cons v front =>
        obtain ⟨rfl, later⟩ := List.cons.inj tokens
        obtain ⟨ps, p, more, rfl, hp, upTo, stop⟩ := ih later
        refine ⟨q :: ps, p, more, rfl, hp, ?_, stop.trans (by rw [behind])⟩
        rw [List.cons_append, place, List.filterMap_cons_some ht, upTo, List.cons_append]

end Cursor

theorem tokens_of_proper {source : Text} {front back : List Token} {t : Token}
    (tokens : (tokenize source).stream.tokens = front ++ t :: back)
    (proper : t.kind ≠ .endOfInput) :
    ∃ back, (Cursor.start source).placed.filterMap Placed.token? = front ++ t :: back := by
  rw [tokenize, tokens_tokenizeWith] at tokens
  rcases List.eq_nil_or_concat back with rfl | ⟨back, z, rfl⟩
  · obtain ⟨-, last⟩ := List.append_inj' tokens rfl
    obtain ⟨rfl, -⟩ := List.cons.inj last
    exact absurd rfl proper
  · refine ⟨back, ?_⟩
    rw [List.concat_eq_append, ← List.cons_append, ← List.append_assoc] at tokens
    exact (List.append_inj' tokens rfl).1

/-- What follows the digits directly behind a token, and one character more, changes neither the
token nor any before it. -/
theorem tokens_settled_at_horizon {source other : Text} {front back : List Token} {t : Token}
    {f : Nat} (tokens : (tokenize source).stream.tokens = front ++ t :: back)
    (proper : t.kind ≠ .endOfInput) (horizon : source.horizon? t.span.stop.offset = some f)
    (same : other.takeBytes? f = source.takeBytes? f) :
    front ++ [t] <+: (tokenize other).stream.tokens := by
  obtain ⟨back, proper⟩ := tokens_of_proper tokens proper
  obtain ⟨ps, p, more, cut, lexeme, upTo, stop⟩ := Cursor.exists_piece_of_token proper
  have cut : pieces source = (ps ++ [p]) ++ more := cut.trans (by simp)
  have last : ∃ q ∈ (ps ++ [p]).getLast?, q.lexeme?.isSome := ⟨p, by simp, lexeme⟩
  generalize ps ++ [p] = qs at cut last upTo stop
  have whole : source = qs.flatMap Piece.text ++ more.flatMap Piece.text := by
    rw [← List.flatMap_append, ← cut, flatMap_text_pieces]
  have start := Cursor.After.start source
  have place := start.skip_prefix (whole ▸ List.prefix_append _ _)
  rw [stop, place.offset, List.nil_append, whole] at horizon
  obtain ⟨v, hv, noDigit, taken⟩ := Text.horizon?_append horizon
  have common : qs.flatMap Piece.text ++ v <+: source := by
    rw [whole, List.prefix_append_right_inj]
    exact hv
  rw [whole, taken] at same
  have within := Text.isPrefix_of_takeBytes? same
  have filled : 0 < v.length := by
    obtain ⟨x, hx, -⟩ := noDigit
    exact List.length_pos_of_mem hx
  have beside : Cursor.Beside id (qs.flatMap Piece.text).length (.start source) (.start other) :=
    Cursor.beside_of_prefix rfl common within (by rw [List.length_append]; omega)
  have told := isTold_token?.flatMap_place beside
  simp only [← List.filterMap_eq_flatMap_toList, Token.move_id, List.map_id] at told
  obtain ⟨r, hr⟩ := within
  obtain ⟨new, again⟩ := pieces_of_common cut last noDigit common r
  rw [← List.append_assoc, hr] at again
  have placed : (Cursor.start other).placed = (Cursor.start other).place (qs ++ new) :=
    congrArg (Cursor.start other).place again.symm
  rw [tokenize, tokens_tokenizeWith, placed, Cursor.place_append, List.filterMap_append, told, upTo,
    List.append_assoc]
  exact List.prefix_append _ _

theorem tokens_settled_at_horizon_zeros :
    let source : Text := ['-', '0', '0', '7', 'é', '\'']
    let other : Text := ['-', '0', '0', '7', 'é', '.', '5']
    let minus := Token.plain (.symbol .minus) ['-'] ⟨⟨1, 0, 0⟩, ⟨1, 1, 1⟩⟩
    let zero := Token.plain .intLiteral ['0'] ⟨⟨1, 1, 1⟩, ⟨1, 2, 2⟩⟩
    (∃ back, (tokenize source).stream.tokens = [minus] ++ zero :: back) ∧
      zero.kind ≠ .endOfInput ∧ source.horizon? zero.span.stop.offset = some 6 ∧
      other.takeBytes? 6 = source.takeBytes? 6 ∧
      [minus] ++ [zero] <+: (tokenize other).stream.tokens := by
  intro source other minus zero
  -- Were the character behind the digits a dot, the zeros would be part of a float.
  have run : (tokenize source).stream.tokens = [minus] ++ zero ::
      [.plain .intLiteral ['0'] ⟨⟨1, 2, 2⟩, ⟨1, 3, 3⟩⟩,
        .plain .intLiteral ['7'] ⟨⟨1, 3, 3⟩, ⟨1, 4, 4⟩⟩, .endOfInput ⟨1, 6, 7⟩] := by decide +kernel
  have kind : zero.kind ≠ .endOfInput := by decide
  have horizon : source.horizon? zero.span.stop.offset = some 6 := by decide
  have same : other.takeBytes? 6 = source.takeBytes? 6 := by decide
  exact ⟨⟨_, run⟩, kind, horizon, same, tokens_settled_at_horizon run kind horizon same⟩

end Lexis
