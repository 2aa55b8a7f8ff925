import Lexis.Proofs.LineBreaks
import Lexis.Proofs.Transport

/-! Line feeds alone against carriage returns and line feeds. A source whose lines end in the one
way is read like the source whose lines end in the other, at the same lines and columns. -/

namespace Lexis
set_option autoImplicit false

/-- The same line and column, and one more byte for each line before. -/
def Position.crlf (p : Position) : Position := ⟨p.line, p.column, p.offset + (p.line - 1)⟩

def Trivia.move (f : Position → Position) (v : Trivia) : Trivia := ⟨v.kind, v.span.move f⟩

/-- The same token in a source with other line endings. The value of a literal is told from the
literal's own text: only a line feed that stands for itself is another value. -/
structure Token.Rebroken (t t' : Token) : Prop where
  kind : t'.kind = t.kind
  text : t'.text = t.text.crlf
  span : t'.span = t.span.move Position.crlf
  value : t.value = none ∧ t'.value = none ∨ ∃ q b, t.text = q :: b ∧
    t.value = some ((Quoted.read q b).body.flatMap Atom.value) ∧
    t'.value = some ((Quoted.read q b).body.flatMap Atom.crlfValue)

namespace Position

theorem crlf_past {p : Position} {c : Char} (feed : c ≠ '\n') (back : c ≠ '\r')
    (next? next'? : Option Char) : p.crlf.past c next'? = (p.past c next?).crlf := by
  simp [past, breaksLine, feed, back, crlf]
  omega

theorem crlf_past_feed {p : Position} (first : 1 ≤ p.line) (next? next'? : Option Char) :
    (p.crlf.past '\r' (some '\n')).past '\n' next'? = (p.past '\n' next?).crlf := by
  have size : Char.utf8Size '\r' = 1 ∧ Char.utf8Size '\n' = 1 := by decide
  simp [past, breaksLine, crlf, size]
  omega

end Position

namespace Cursor

def crlf (c : Cursor) : Cursor := ⟨c.position.crlf, c.rest.crlf⟩

/-- A cursor before a text without carriage returns. -/
structure IsFree (c : Cursor) : Prop where
  line : 1 ≤ c.position.line
  noReturn : '\r' ∉ c.rest

namespace IsFree
variable {c : Cursor} (h : c.IsFree)
include h

theorem advance : c.advance.IsFree := by
  obtain ⟨p, s⟩ := c
  cases s with
  | nil => exact h
  | cons x s =>
    obtain ⟨line, noReturn⟩ := h
    exact ⟨Nat.le_trans line (p.line_le_past x s.head?), List.not_mem_of_not_mem_cons noReturn⟩

theorem skip (n : Nat) : (c.skip n).IsFree := by
  induction n generalizing c with
  | zero => exact h
  | succ n ih => exact ih h.advance

theorem crlf_advance {x : Char} {s : Text} (hs : c.rest = x :: s) :
    c.crlf.skip (Text.crlf [x]).length = c.advance.crlf := by
  obtain ⟨line, noReturn⟩ := h
  obtain ⟨p, rest⟩ := c
  obtain rfl : rest = x :: s := hs
  have back : x ≠ '\r' := fun hx => noReturn (hx ▸ List.mem_cons_self)
  by_cases feed : x = '\n'
  · subst feed
    show Cursor.mk ((p.crlf.past '\r' (some '\n')).past '\n' s.crlf.head?) s.crlf = _
    rw [Position.crlf_past_feed line s.head?]
    rfl
  · have single : Text.crlf [x] = [x] := Text.crlf_cons feed []
    rw [single, crlf, Text.crlf_cons feed]
    show Cursor.mk (p.crlf.past x s.crlf.head?) s.crlf = _
    rw [Position.crlf_past feed back s.head?]
    rfl

theorem crlf_skip {t : Text} (ht : t <+: c.rest) :
    c.crlf.skip t.crlf.length = (c.skip t.length).crlf := by
  induction t generalizing c with
  | nil => rfl
  | cons x t ih =>
    obtain ⟨r, hr⟩ := ht
    have first := h.crlf_advance hr.symm
    have later := ih h.advance (by rw [advance_rest, ← hr]; exact List.prefix_append t r)
    have length : (Text.crlf (x :: t)).length = (Text.crlf [x]).length + (Text.crlf t).length := by
      rw [← List.length_append, ← Text.crlf_append]
      rfl
    rw [length, ← skip_skip, first, later]
    rfl

end IsFree

end Cursor

theorem Quoted.faults_append (c : Cursor) (as bs : List Atom) : faults c (as ++ bs) =
    faults c as ++ faults (c.skip (as.flatMap Atom.text).length) bs := by
  induction as generalizing c with
  | nil => rfl
  | cons a as ih =>
    rw [List.cons_append, faults, faults, ih, List.append_assoc, List.flatMap_cons,
      List.length_append, Cursor.skip_skip]

theorem Quoted.faults_atom_crlf {c : Cursor} (h : c.IsFree) {a : Atom}
    (here : a.text <+: c.rest) :
    faults c.crlf a.crlf = (faults c [a]).map (LexicalError.move Position.crlf) := by
  cases a with
  | plain x =>
    have none : ∀ a ∈ (Text.crlf [x]).map Atom.plain, a.invalid? = none :=
      List.forall_mem_map.mpr fun _ _ => rfl
    exact faults_eq_nil_iff.mpr none
  | skipped x =>
    have none : ∀ a ∈ (Text.crlf [x]).map Atom.skipped, a.invalid? = none :=
      List.forall_mem_map.mpr fun _ _ => rfl
    exact faults_eq_nil_iff.mpr none
  | escape x =>
    have backslash : ['\\'] <+: c.rest := (List.prefix_append ['\\'] [x]).trans here
    have place : c.crlf.advance = c.advance.crlf := h.crlf_skip backslash
    rw [Atom.crlf, faults, faults, faults, faults, place]
    cases (Atom.escape x).invalid? <;> rfl
  | _ => rfl

theorem Quoted.faults_crlf {c : Cursor} (h : c.IsFree) {as : List Atom}
    (free : ∀ a ∈ as, a.IsFree) (here : as.flatMap Atom.text <+: c.rest) :
    faults c.crlf (as.flatMap Atom.crlf) =
      (faults c as).map (LexicalError.move Position.crlf) := by
  induction as generalizing c with
  | nil => rfl
  | cons a as ih =>
    obtain ⟨ha, later⟩ := List.forall_mem_cons.mp free
    rw [List.flatMap_cons] at here
    have first : a.text <+: c.rest := (List.prefix_append _ _).trans here
    have rest : as.flatMap Atom.text <+: (c.skip a.text.length).rest := by
      obtain ⟨r, hr⟩ := here
      rw [Cursor.skip_rest, ← hr, List.append_assoc, List.drop_left]
      exact List.prefix_append _ r
    have both : faults c (a :: as) = faults c [a] ++ faults (c.skip a.text.length) as := by
      rw [← List.singleton_append, faults_append]
      simp
    rw [List.flatMap_cons, faults_append, faults_atom_crlf h first,
      Atom.flatMap_text_crlf ha, h.crlf_skip first, ih (h.skip _) later rest, both, List.map_append]

def Placed.crlf (p : Placed) : Placed := ⟨p.piece.crlf, p.start.crlf⟩

namespace Cursor.IsFree
variable {c : Cursor} (h : c.IsFree) {x : Char} {s : Text} (hs : c.rest = x :: s)
include h hs

theorem crlf_stop : Placed.stop (Placed.crlf ⟨.read x s, c⟩) =
    (Placed.stop ⟨.read x s, c⟩).crlf := by
  have text := Piece.text_crlf (hs ▸ h.noReturn)
  rw [Placed.stop, Placed.crlf, text]
  exact h.crlf_skip (hs ▸ Piece.read_isPrefix x s)

theorem crlf_span : Placed.span (Placed.crlf ⟨.read x s, c⟩) =
    (Placed.span ⟨.read x s, c⟩).move Position.crlf := by
  rw [Placed.span, h.crlf_stop hs]
  rfl

theorem crlf_trivia? : Placed.trivia? (Placed.crlf ⟨.read x s, c⟩) =
    (Placed.trivia? ⟨.read x s, c⟩).map (Trivia.move Position.crlf) := by
  have span := h.crlf_span hs
  rw [Placed.trivia?, Placed.trivia?, span, Placed.crlf]
  cases Piece.read x s with
  | quoted l =>
    simp only [Piece.crlf]
    cases l.closed <;> rfl
  | _ => rfl

theorem crlf_errors : Placed.errors (Placed.crlf ⟨.read x s, c⟩) =
    (Placed.errors ⟨.read x s, c⟩).map (LexicalError.move Position.crlf) := by
  cases hp : Piece.read x s with
  | quoted l =>
    obtain ⟨quote, rfl⟩ := Piece.eq_read_of_quoted hp
    have noReturn := List.not_mem_of_not_mem_cons (hs ▸ h.noReturn)
    have feed : x ≠ '\n' := (ne_of_isQuote quote).2
    have opening : c.crlf.advance = c.advance.crlf := by
      have first := h.crlf_advance hs
      rwa [Text.crlf_cons feed] at first
    have free : ∀ a ∈ (Quoted.read x s).body, a.IsFree := Quoted.isFree_readBody noReturn
    have here : (Quoted.read x s).body.flatMap Atom.text <+: c.advance.rest := by
      rw [Cursor.advance_rest, hs]
      exact (List.prefix_append _ _).trans (Quoted.readBody_isPrefix x false s)
    rw [Placed.crlf, Piece.crlf, Placed.errors_quoted, Placed.errors_quoted, opening,
      Quoted.faults_crlf h.advance free here, List.map_append]
    cases (Quoted.read x s).closed <;> rfl
  | _ => rfl

theorem crlf_token? : (Placed.token? ⟨.read x s, c⟩ = none ∧
      Placed.token? (Placed.crlf ⟨.read x s, c⟩) = none) ∨
    ∃ t t', Placed.token? ⟨.read x s, c⟩ = some t ∧
      Placed.token? (Placed.crlf ⟨.read x s, c⟩) = some t' ∧ t.Rebroken t' := by
  have span := h.crlf_span hs
  have text := Piece.text_crlf (hs ▸ h.noReturn)
  rw [Placed.token?, Placed.token?, span, Placed.crlf]
  cases hp : Piece.read x s with
  | blank t => exact Or.inl ⟨rfl, rfl⟩
  | stray y => exact Or.inl ⟨rfl, rfl⟩
  | lexeme k t =>
    rw [hp] at text
    exact Or.inr ⟨_, _, rfl, rfl, rfl, text, rfl, Or.inl ⟨rfl, rfl⟩⟩
  | quoted l =>
    rw [hp] at text
    obtain ⟨quote, rfl⟩ := Piece.eq_read_of_quoted hp
    cases closed : (Quoted.read x s).closed with
    | false => exact Or.inl (by simp [Piece.lexeme?, Piece.crlf, closed])
    | true =>
      obtain ⟨b, front, own⟩ := Quoted.read_text quote closed
      have token (l : Quoted) (v : Span) (hl : l.closed) : (Piece.quoted l).lexeme?.map
          (fun l => (⟨l, v⟩ : Token)) = some (.string l.text l.value v) := by
        rw [Piece.lexeme?, if_pos hl]
        rfl
      have value : (Quoted.mk x ((Quoted.read x s).body.flatMap Atom.crlf)
          (Quoted.read x s).closed).value = (Quoted.read x s).body.flatMap Atom.crlfValue := by
        rw [Quoted.value, List.flatMap_assoc]
        exact List.flatMap_congr fun a _ => a.flatMap_value_crlf
      refine Or.inr ⟨_, _, token _ _ closed, token _ _ closed, rfl, text, rfl,
        Or.inr ⟨x, b, front, ?_, ?_⟩⟩
      · rw [own]
        rfl
      · rw [own]
        exact congrArg some value

end Cursor.IsFree

namespace Cursor.IsFree
variable {c : Cursor} (h : c.IsFree)
include h

/-- The pieces of the one source are those of the other at their places. -/
theorem placed_crlf : c.crlf.placed = c.placed.map Placed.crlf := by
  refine placed_map IsFree ?_ ?_ (fun _ _ _ hd hs => ⟨hd.skip _, hd.crlf_stop hs⟩) h
  · intro d hs
    rw [crlf, hs]
    rfl
  · intro d x s hd hs
    obtain ⟨y, r, front, piece⟩ := Piece.exists_read_crlf (hs ▸ hd.noReturn)
    rw [← hs] at front
    refine ⟨y, r, front, ?_⟩
    rw [piece]
    rfl

theorem forall_placed {motive : Placed → Prop}
    (read : ∀ d x s, IsFree d → d.rest = x :: s → motive ⟨.read x s, d⟩) :
    ∀ p ∈ c.placed, motive p :=
  Cursor.forall_placed IsFree (fun _ _ _ hd _ => hd.skip _) read h

theorem finish_crlf : c.crlf.finish = c.finish.crlf := h.crlf_skip (List.prefix_refl c.rest)

theorem trivia_crlf : c.crlf.trivia = c.trivia.map (Trivia.move Position.crlf) := by
  rw [trivia, trivia, h.placed_crlf, List.filterMap_map, List.map_filterMap]
  exact List.filterMap_congr (h.forall_placed fun d x s hd hs => hd.crlf_trivia? hs)

theorem errors_crlf : c.crlf.placed.flatMap Placed.errors =
    (c.placed.flatMap Placed.errors).map (LexicalError.move Position.crlf) := by
  rw [h.placed_crlf, List.flatMap_map, List.map_flatMap]
  exact List.flatMap_congr (h.forall_placed fun d x s hd hs => hd.crlf_errors hs)

theorem tokens_crlf : List.Forall₂ Token.Rebroken c.tokens c.crlf.tokens := by
  have each : ∀ p ∈ c.placed, (p.token? = none ∧ p.crlf.token? = none) ∨
      ∃ t t', p.token? = some t ∧ p.crlf.token? = some t' ∧ t.Rebroken t' :=
    h.forall_placed fun d x s hd hs => hd.crlf_token? hs
  rw [tokens, tokens, h.placed_crlf, h.finish_crlf]
  generalize c.placed = ps at each
  induction ps with
  | nil => exact .cons ⟨rfl, rfl, rfl, Or.inl ⟨rfl, rfl⟩⟩ .nil
  | cons p ps ih =>
    obtain ⟨first, each⟩ := List.forall_mem_cons.mp each
    have later := ih each
    rw [List.map_cons]
    rcases first with ⟨none, none'⟩ | ⟨t, t', token, token', same⟩
    · rwa [List.filterMap_cons_none none, List.filterMap_cons_none none']
    · rw [List.filterMap_cons_some token, List.filterMap_cons_some token']
      exact .cons same later

end Cursor.IsFree

/-- Lines that end in a carriage return and a line feed are read like lines that end in a line feed:
tokens, trivia and errors are the same at the same lines and columns. -/
theorem tokenizeWith_crlf (config : Config) (source : Text) (noReturn : '\r' ∉ source) :
    let output := tokenizeWith config source
    let output' := tokenizeWith config source.crlf
    List.Forall₂ Token.Rebroken output.stream.tokens output'.stream.tokens ∧
      output'.stream.trivia = output.stream.trivia.map (Trivia.move Position.crlf) ∧
      output'.errors = output.errors.map (LexicalError.move Position.crlf) ∧
      output'.suppressed = output.suppressed := by
  intro output output'
  have free : (Cursor.start source).IsFree := ⟨Nat.le_refl 1, noReturn⟩
  have records := records_tokenizeWith config source
  have records' := records_tokenizeWith config source.crlf
  have errors : (Cursor.start source.crlf).placed.flatMap Placed.errors =
      ((Cursor.start source).placed.flatMap Placed.errors).map
        (LexicalError.move Position.crlf) := free.errors_crlf
  rw [errors] at records'
  have kept := records'.errors
  have counted := records'.suppressed
  rw [List.length_map] at kept counted
  refine ⟨free.tokens_crlf, ?_, ?_, counted.trans records.suppressed.symm⟩
  · have trivia : (Cursor.start source.crlf).trivia = _ := free.trivia_crlf
    show (tokenizeWith config source.crlf).stream.trivia = _
    rw [trivia_tokenizeWith, trivia_tokenizeWith]
    split
    · exact trivia
    · rfl
  · rw [← List.map_take, ← records.errors] at kept
    exact kept

/-- Of the line feeds in a literal, one plain, one continued and one skipped, the plain one is
another value. A stray character behind the literal keeps its line and column. -/
theorem tokenizeWith_crlf_literal :
    let source : Text :=
      ['\'', '\n', 'a', '\\', '\n', '\\', 'z', '\n', 'b', '\'', '\n', '~']
    '\r' ∉ source ∧
      (tokenizeWith {} source).stream.tokens.head?.bind (·.value) = some ['\n', 'a', 'b'] ∧
      (tokenizeWith {} source.crlf).stream.tokens.head?.bind (·.value) =
        some ['\r', '\n', 'a', 'b'] ∧
      (tokenizeWith {} source).errors = [.unrecognizedCharacter '~' ⟨5, 0, 11⟩] ∧
      (tokenizeWith {} source.crlf).errors = [.unrecognizedCharacter '~' ⟨5, 0, 15⟩] := by
  intro source
  have noReturn : '\r' ∉ source := by decide
  obtain ⟨tokens, -, errors, -⟩ := tokenizeWith_crlf {} source noReturn
  have run : (tokenizeWith {} source).stream.tokens =
      [.string (source.take 10) ['\n', 'a', 'b'] ⟨⟨1, 0, 0⟩, ⟨4, 2, 10⟩⟩,
        .endOfInput ⟨5, 1, 12⟩] ∧
      (tokenizeWith {} source).errors = [.unrecognizedCharacter '~' ⟨5, 0, 11⟩] := by decide +kernel
  rw [run.1] at tokens ⊢
  rw [run.2] at errors ⊢
  obtain ⟨t, ts, first, -, whole⟩ := List.forall₂_cons_left_iff.mp tokens
  rw [whole, errors]
  refine ⟨noReturn, rfl, ?_, rfl, rfl⟩
  rcases first.value with ⟨none, -⟩ | ⟨q, b, text, -, value⟩
  · cases none
  · obtain ⟨rfl, rfl⟩ := List.cons.inj text
    exact value

end Lexis
