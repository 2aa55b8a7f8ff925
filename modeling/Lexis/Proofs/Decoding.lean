import Lexis.Proofs.Attribution
import Mathlib.Algebra.Group.Nat.Even

/-! Literals in two passes. Where a literal ends is told by the backslashes before its quotes alone,
and what it stands for by its body alone; the one pass of the reader comes to the same. -/

namespace Lexis
set_option autoImplicit false

/-- How many backslashes a text ends with. -/
def Text.backslashes (s : Text) : Nat := (s.rtakeWhile (· = '\\')).length

namespace Quoted

/-- The body ends at the first quote with an even number of backslashes directly before it. -/
structure ClosesAfter (q : Char) (r b : Text) : Prop where
  isPrefix : b ++ [q] <+: r
  even : Even b.backslashes
  first : ∀ u : Text, u ++ [q] <+: r → Even u.backslashes → b.length ≤ u.length

/-- What a body stands for, and the characters of its invalid escapes, each with the number of
characters before it in the body. -/
structure Decoded where
  value : Text
  invalid : List (Nat × Char)
deriving DecidableEq

namespace Decoded

def cons (c : Char) (d : Decoded) : Decoded := ⟨c :: d.value, d.invalid⟩

def consEscape (n : Nat) (c : Char) (d : Decoded) : Decoded :=
  match Escape.decode? c with
  | some x => d.cons x
  | none => ⟨c :: d.value, (n, c) :: d.invalid⟩

/-- The errors in a body that begins at the cursor. -/
def errors (c : Cursor) (d : Decoded) : List LexicalError :=
  d.invalid.map fun (n, x) => .invalidEscapeSequence x (c.skip n).position

end Decoded

/-- A body decoded by itself, from its first character on, with `n` characters before it. -/
def decode : (n : Nat) → Text → Decoded
  | _, [] => ⟨[], []⟩
  | _, ['\\'] => ⟨[], []⟩
  | n, '\\' :: '\n' :: s => decode (n + 2) s
  | n, '\\' :: '\r' :: '\n' :: s => decode (n + 3) s
  | n, '\\' :: 'z' :: s =>
    decode (n + 2 + (s.takeWhile isWhitespace).length) (s.dropWhile isWhitespace)
  | n, '\\' :: c :: s => (decode (n + 2) s).consEscape (n + 1) c
  | n, c :: s => (decode (n + 1) s).cons c
termination_by _ s => s.length
decreasing_by
  all_goals simp only [List.length_cons]
  all_goals first
    | omega
    | exact Nat.lt_of_le_of_lt (List.dropWhile_suffix isWhitespace).length_le (by omega)

end Quoted

namespace Text

theorem backslashes_concat (s : Text) (c : Char) :
    backslashes (s ++ [c]) = if c = '\\' then backslashes s + 1 else 0 := by
  rw [backslashes, List.rtakeWhile_concat]
  by_cases backslash : c = '\\'
  · simp [backslash, backslashes]
  · simp [backslash]

theorem even_backslashes_append {u : Text} (h : Even u.backslashes) (s : Text) :
    Even (backslashes (u ++ s)) ↔ Even s.backslashes := by
  induction s using List.reverseRecOn with
  | nil => exact iff_of_true (by rwa [List.append_nil]) (by decide)
  | append_singleton s c ih =>
    rw [← List.append_assoc, backslashes_concat, backslashes_concat]
    split
    · rw [Nat.even_add_one, Nat.even_add_one, ih]
    · rfl

theorem even_backslashes_cons {c : Char} (hc : c ≠ '\\') (s : Text) :
    Even (backslashes (c :: s)) ↔ Even s.backslashes := by
  have single : Even (backslashes ([] ++ [c])) := by
    rw [backslashes_concat, if_neg hc]
    exact Even.zero
  exact even_backslashes_append single s

theorem even_backslashes_escape (c : Char) (s : Text) :
    Even (backslashes ('\\' :: c :: s)) ↔ Even s.backslashes := by
  have pair : Even (backslashes (['\\'] ++ [c])) := by
    rw [backslashes_concat]
    split
    · decide
    · exact Even.zero
  exact even_backslashes_append pair s

end Text

namespace IsBody
variable {q : Char} {b : Text}

theorem even_backslashes (h : IsBody q b) : Even b.backslashes := by
  induction h with
  | nil => decide
  | plain _ hc _ ih => rwa [Text.even_backslashes_cons hc]
  | escape _ ih => rwa [Text.even_backslashes_escape]

theorem not_even_of_prefix (hq : q ≠ '\\') (h : IsBody q b) {u : Text} (front : u ++ [q] <+: b) :
    ¬ Even u.backslashes := by
  induction h generalizing u with
  | nil => simp at front
  | @plain c s hcq hc _ ih =>
    cases u with
    | nil => exact absurd (List.cons_prefix_cons.mp front).1.symm hcq
    | cons d u =>
      obtain ⟨rfl, later⟩ := List.cons_prefix_cons.mp front
      rw [Text.even_backslashes_cons hc]
      exact ih later
  | @escape c s _ ih =>
    match u with
    | [] => exact absurd (List.cons_prefix_cons.mp front).1 hq
    | [d] =>
      obtain ⟨rfl, -⟩ := List.cons_prefix_cons.mp front
      decide
    | d :: e :: u =>
      obtain ⟨rfl, within⟩ := List.cons_prefix_cons.mp front
      obtain ⟨rfl, later⟩ := List.cons_prefix_cons.mp within
      rw [Text.even_backslashes_escape]
      exact ih later

theorem of_even (hq : q ≠ '\\') {b : Text} (even : Even b.backslashes)
    (first : ∀ u : Text, u ++ [q] <+: b → ¬ Even u.backslashes) : IsBody q b := by
  -- By pairs from the front: a backslash takes the next character along, whatever it is.
  match b with
  | [] => exact .nil
  | c :: s =>
    by_cases hc : c = '\\'
    · subst hc
      match s with
      | [] => exact absurd even (by decide)
      | d :: s =>
        rw [Text.even_backslashes_escape] at even
        refine .escape (of_even hq even fun u front => ?_)
        rw [← Text.even_backslashes_escape d]
        exact first _ (List.cons_prefix_cons.mpr ⟨rfl, List.cons_prefix_cons.mpr ⟨rfl, front⟩⟩)
    · rw [Text.even_backslashes_cons hc] at even
      have other : c ≠ q := by
        rintro rfl
        exact first [] (List.prefix_append [c] s) (by decide)
      refine .plain other hc (of_even hq even fun u front => ?_)
      rw [← Text.even_backslashes_cons hc]
      exact first _ (List.cons_prefix_cons.mpr ⟨rfl, front⟩)

end IsBody

namespace Quoted
variable {q : Char} {r b : Text}

/-- Backslashes counted from behind end the same body as those taken in pairs from the front. -/
theorem closesAfter_iff (hq : q ≠ '\\') :
    ClosesAfter q r b ↔ IsBody q b ∧ b ++ [q] <+: r := by
  constructor
  · rintro ⟨front, even, first⟩
    refine ⟨.of_even hq even fun u within evenly => ?_, front⟩
    have short := first u (within.trans ((List.prefix_append b [q]).trans front)) evenly
    have long := within.length_le
    rw [List.length_append, List.length_singleton] at long
    omega
  · rintro ⟨body, front⟩
    refine ⟨front, body.even_backslashes, fun u before evenly => ?_⟩
    by_contra longer
    have within : u ++ [q] <+: b := by
      refine List.prefix_of_prefix_length_le before ((List.prefix_append b [q]).trans front) ?_
      rw [List.length_append, List.length_singleton]
      omega
    exact body.not_even_of_prefix hq within evenly

theorem closed_iff (hq : isQuote q) : (read q r).closed ↔ ∃ b, ClosesAfter q r b := by
  have hb := (ne_of_isQuote hq).1
  constructor
  · intro closed
    refine ⟨_, (closesAfter_iff hb).mpr ⟨isBody_readBody hq false closed, ?_⟩⟩
    have front := readBody_isPrefix q false r
    rwa [show (readBody q false r).2 = true from closed] at front
  · rintro ⟨b, h⟩
    obtain ⟨body, front⟩ := (closesAfter_iff hb).mp h
    exact (readBody_of_isBody hq false body front).1

/-- What a gap leaves of the body to be decoded. -/
def decodeIn (skipping : Bool) (n : Nat) (s : Text) : Decoded :=
  if skipping then decode (n + (s.takeWhile isWhitespace).length) (s.dropWhile isWhitespace)
  else decode n s

def Decoded.ofAtoms : Nat → List Atom → Decoded
  | _, [] => ⟨[], []⟩
  | n, a :: as =>
    let d := ofAtoms (n + a.text.length) as
    ⟨a.value ++ d.value, (a.invalid?.map fun x => (n + 1, x)).toList ++ d.invalid⟩

namespace Decoded

theorem value_ofAtoms (n : Nat) (as : List Atom) :
    (ofAtoms n as).value = as.flatMap Atom.value := by
  induction as generalizing n with
  | nil => rfl
  | cons a as ih => rw [ofAtoms, ih, List.flatMap_cons]

theorem errors_ofAtoms (c : Cursor) (n : Nat) (as : List Atom) :
    (ofAtoms n as).errors c = faults (c.skip n) as := by
  induction as generalizing n with
  | nil => rfl
  | cons a as ih =>
    rw [faults, Cursor.skip_skip, ← ih]
    have place : c.skip (n + 1) = (c.skip n).advance := (c.skip_skip n 1).symm
    cases h : a.invalid? with
    | none => simp [ofAtoms, errors, h]
    | some x => simp [ofAtoms, errors, h, place]

end Decoded

theorem decodeIn_cons {c : Char} (hc : isWhitespace c = false) (skipping : Bool) (n : Nat)
    (s : Text) : decodeIn skipping n (c :: s) = decode n (c :: s) := by
  cases skipping with
  | true => simp [decodeIn, hc]
  | false => rfl

theorem decodeIn_space {c : Char} (hc : isWhitespace c) (n : Nat) (s : Text) :
    decodeIn true n (c :: s) = decodeIn true (n + 1) s := by
  have length : n + ((s.takeWhile isWhitespace).length + 1) =
      n + 1 + (s.takeWhile isWhitespace).length := by omega
  simp [decodeIn, hc, length]

theorem decode_plain {c : Char} (hc : c ≠ '\\') (n : Nat) (s : Text) :
    decode n (c :: s) = (decode (n + 1) s).cons c := by
  rw [decode] <;> simp [hc]

/-- The atoms of a body are what the body decodes to by itself. -/
theorem decodeIn_readBody (skipping : Bool) (s : Text) (n : Nat) :
    decodeIn skipping n ((readBody q skipping s).1.flatMap Atom.text) =
      .ofAtoms n (readBody q skipping s).1 := by
  fun_induction readBody q skipping s generalizing n with
  | case1 skipping =>
    cases skipping <;> exact decode.eq_1 _
  | case2 =>
    show decodeIn _ n ['\\'] = _
    rw [decodeIn_cons rfl, decode]
    rfl
  | case3 _ s ih =>
    show decodeIn _ n ('\\' :: '\n' :: _) = _
    rw [decodeIn_cons rfl, decode]
    exact ih (n + 2)
  | case4 _ s ih =>
    show decodeIn _ n ('\\' :: '\r' :: '\n' :: _) = _
    rw [decodeIn_cons rfl, decode]
    exact ih (n + 3)
  | case5 _ s ih =>
    show decodeIn _ n ('\\' :: 'z' :: _) = _
    rw [decodeIn_cons rfl, decode]
    exact ih (n + 2)
  | case6 skipping c s feed long noGap ih =>
    have later : decode (n + 2) _ = _ := ih (n + 2)
    show decodeIn _ n ('\\' :: c :: (readBody q false s).1.flatMap Atom.text) = _
    rw [decodeIn_cons rfl, decode, later]
    · rw [Decoded.consEscape, consBody_fst, Decoded.ofAtoms]
      cases h : Escape.decode? c <;> simp [Decoded.cons, Atom.value, Atom.invalid?, Atom.text, h]
    · exact feed
    · -- The body goes on with a line feed only if the text does.
      intro t back front
      obtain ⟨r, hr⟩ := readBody_isPrefix q false s
      rw [front] at hr
      exact long _ back hr.symm
    · exact noGap
  | case7 skipping s lone _ _ _ pair =>
    cases skipping <;> exact decode.eq_1 _
  | case8 skipping c s lone _ _ _ pair hc skips ih =>
    obtain ⟨rfl, white⟩ := Bool.and_eq_true_iff.mp skips
    show decodeIn true n (c :: _) = _
    rw [decodeIn_space white]
    exact ih (n + 1)
  | case9 skipping c s lone _ _ _ pair hc skips ih =>
    have plain := ne_backslash lone pair
    have later : decode (n + 1) _ = _ := ih (n + 1)
    have stays : decodeIn skipping n (c :: (readBody q false s).1.flatMap Atom.text) =
        decode n (c :: (readBody q false s).1.flatMap Atom.text) := by
      cases skipping with
      | false => rfl
      | true => exact decodeIn_cons (by simpa using skips) true n _
    show decodeIn _ n (c :: (readBody q false s).1.flatMap Atom.text) = _
    rw [stays, decode_plain plain, later]
    rfl

theorem value_decode (q : Char) (r : Text) :
    (decode 0 (read q r).bodyText).value = (read q r).value := by
  have decoded : decode 0 (read q r).bodyText = _ := decodeIn_readBody false r 0
  rw [decoded, Decoded.value_ofAtoms]
  rfl

theorem errors_decode (c : Cursor) (q : Char) (r : Text) :
    (decode 0 (read q r).bodyText).errors c = faults c (read q r).body := by
  have decoded : decode 0 (read q r).bodyText = _ := decodeIn_readBody false r 0
  rw [decoded, Decoded.errors_ofAtoms]
  rfl

theorem bodyText_of_closesAfter (hq : isQuote q) (h : ClosesAfter q r b) :
    (read q r).closed = true ∧ (read q r).bodyText = b := by
  obtain ⟨body, front⟩ := (closesAfter_iff (ne_of_isQuote hq).1).mp h
  exact readBody_of_isBody hq false body front

end Quoted

open Quoted (ClosesAfter decode)

namespace Placed
variable {c : Cursor} {q : Char} {r : Text}

theorem read_of_isQuote (hq : isQuote q) :
    (⟨.read q r, c⟩ : Placed) = ⟨.quoted (Quoted.read q r), c⟩ :=
  congrArg (mk · c) (Piece.read_of_isQuote hq)

theorem read_of_closesAfter (hq : isQuote q) {b : Text} (h : ClosesAfter q r b) :
    let p : Placed := ⟨.read q r, c⟩
    p.stop = c.skip (b.length + 2) ∧
      p.token? =
        some (.string (q :: (b ++ [q])) (decode 0 b).value ⟨c.position, p.stop.position⟩) ∧
      p.findings = ((decode 0 b).errors c.advance).map .fault := by
  obtain ⟨closed, rfl⟩ := Quoted.bodyText_of_closesAfter hq h
  have text : (Quoted.read q r).text = q :: ((Quoted.read q r).bodyText ++ [q]) :=
    Quoted.text_read_of_closed closed
  intro p
  have piece : p = ⟨.quoted (Quoted.read q r), c⟩ := read_of_isQuote hq
  rw [piece, Quoted.value_decode, Quoted.errors_decode]
  refine ⟨?_, ?_, ?_⟩
  · rw [stop, Piece.text, text, List.length_cons, List.length_append, List.length_singleton]
  · rw [token?, Piece.lexeme?, if_pos closed, ← text]
    rfl
  · rw [findings_quoted, if_pos closed, List.append_nil]

theorem read_of_not_closed (hq : isQuote q) (hs : c.rest = q :: r)
    (unclosed : (Quoted.read q r).closed = false) :
    let p : Placed := ⟨.read q r, c⟩
    p.stop = c.finish ∧ p.token? = none ∧
      p.findings = ((decode 0 r).errors c.advance).map .fault ++
        [.fault (.unterminatedString c.position),
          .passed ⟨.skipped, ⟨c.position, c.finish.position⟩⟩] := by
  have body : (Quoted.read q r).bodyText = r := Quoted.readBody_of_not_closed q false r unclosed
  have errors := Quoted.errors_decode c.advance q r
  rw [body] at errors
  intro p
  have piece : p = ⟨.quoted (Quoted.read q r), c⟩ := read_of_isQuote hq
  have all : p.stop = c.finish := by
    rw [piece, stop, Piece.text, Quoted.read_text_of_not_closed unclosed, Cursor.finish, hs]
  refine ⟨all, ?_, ?_⟩
  · rw [piece, token?, Piece.lexeme?, unclosed]
    rfl
  · have span : p.span = ⟨c.position, c.finish.position⟩ := by rw [span, all]
    rw [errors, ← span, piece, findings_quoted, unclosed]
    rfl

end Placed

end Lexis
