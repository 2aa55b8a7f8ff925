import Lexis.Proofs.CleanStream
import Lexis.Proofs.Tiling

/-! Values written as quoted literals. However a value is written, character by character or by
escapes, with continuations and gaps between the characters, it is what the literal is read as. -/

namespace Lexis
set_option autoImplicit false

namespace Quoted

/-- The bodies that write a value. A gap takes in whitespace, so that no whitespace of the value
may come directly after it. -/
inductive Writes (quote : Char) : Text → Text → Prop where
  | nil : Writes quote [] []
  | raw {c : Char} {v b : Text} : c ≠ quote → c ≠ '\\' → Writes quote v b →
    Writes quote (c :: v) (c :: b)
  | escaped {e c : Char} {v b : Text} : Escape.decode? e = some c → Writes quote v b →
    Writes quote (c :: v) ('\\' :: e :: b)
  | continuation {v b : Text} : Writes quote v b → Writes quote v ('\\' :: '\n' :: b)
  | longContinuation {v b : Text} : Writes quote v b → Writes quote v ('\\' :: '\r' :: '\n' :: b)
  | gap {w v b : Text} : (∀ c ∈ w, isWhitespace c) → (∀ c, b.head? = some c → ¬ isWhitespace c) →
    Writes quote v b → Writes quote v ('\\' :: 'z' :: (w ++ b))

/-- The body that has a backslash before quotes and backslashes only. -/
def escape (quote : Char) (value : Text) : Text :=
  value.flatMap fun c => if c = quote ∨ c = '\\' then ['\\', c] else [c]

variable {q : Char}

theorem writes_escape (hq : isQuote q) (v : Text) : Writes q v (escape q v) := by
  induction v with
  | nil => exact .nil
  | cons c v ih =>
    rw [escape, List.flatMap_cons]
    by_cases special : c = q ∨ c = '\\'
    · rw [if_pos special]
      refine .escaped ?_ ih
      rcases special with rfl | rfl
      · simp only [isQuote, Bool.or_eq_true, decide_eq_true_eq] at hq
        rcases hq with rfl | rfl <;> rfl
      · rfl
    · rw [if_neg special]
      obtain ⟨hc, hb⟩ := not_or.mp special
      exact .raw hc hb ih

theorem ne_quote_of_isWhitespace (hq : isQuote q) {c : Char} (hc : isWhitespace c) : c ≠ q := by
  rintro rfl
  cases CharClass.has_unique (k := .whitespace) (l := .quote) hc hq

theorem mem_table_of_decode? {e c : Char} (h : Escape.decode? e = some c) :
    e ∈ Escape.table.map Prod.fst := by
  rw [← Escape.isSome_decode?_iff, h]
  rfl

theorem Writes.isCleanBody (hq : isQuote q) {v b : Text} (h : Writes q v b) : IsCleanBody q b := by
  induction h with
  | nil => exact .nil
  | raw hc hb _ ih => exact .plain hc hb ih
  | escaped he _ ih => exact .escape (mem_table_of_decode? he) ih
  | continuation _ ih => exact .continuation ih
  | longContinuation _ ih => exact .longContinuation ih
  | @gap w v b hw _ _ ih =>
    apply IsCleanBody.gap
    induction w with
    | nil => exact ih
    | cons c w later =>
      obtain ⟨hc, hw⟩ := List.forall_mem_cons.mp hw
      have hb : c ≠ '\\' := by
        rintro rfl
        exact absurd hc (by decide)
      exact .plain (ne_quote_of_isWhitespace hq hc) hb (later hw)

theorem readBody_skipping {s : Text} (h : ∀ c, s.head? = some c → ¬ isWhitespace c) :
    readBody q true s = readBody q false s := by
  fun_cases readBody q true s with
  | case1 => rfl
  | case2 => rfl
  | case3 => rfl
  | case4 => rfl
  | case5 => rfl
  | case6 _ c s noFeed noReturn noGap =>
    rw [readBody]
    · exact noFeed
    · exact noReturn
    · exact noGap
  | case7 _ s lone _ _ _ pair => rw [readBody_plain (ne_backslash lone pair), if_pos rfl]
  | case8 _ c s _ _ _ _ _ _ blank => simp [h c rfl] at blank
  | case9 _ c s lone _ _ _ pair hc => simp [readBody_plain (ne_backslash lone pair), hc]

theorem value_readBody_whitespace (hq : isQuote q) {w : Text} (hw : ∀ c ∈ w, isWhitespace c)
    (s : Text) : (readBody q true (w ++ s)).1.flatMap Atom.value =
      (readBody q true s).1.flatMap Atom.value := by
  induction w with
  | nil => rfl
  | cons c w ih =>
    obtain ⟨hc, hw⟩ := List.forall_mem_cons.mp hw
    have hb : c ≠ '\\' := by
      rintro rfl
      exact absurd hc (by decide)
    rw [List.cons_append, readBody_plain hb, if_neg (ne_quote_of_isWhitespace hq hc)]
    simpa [hc, Atom.value] using ih hw

theorem Writes.value_readBody (hq : isQuote q) {v b : Text} (h : Writes q v b) (r : Text) :
    (readBody q false (b ++ q :: r)).1.flatMap Atom.value = v := by
  induction h with
  | nil =>
    rw [List.nil_append, readBody_plain (ne_of_isQuote hq).1, if_pos rfl]
    rfl
  | raw hc hb _ ih =>
    rw [List.cons_append, readBody_plain hb, if_neg hc]
    simpa [Atom.value] using ih
  | escaped he _ ih =>
    rw [List.cons_append, List.cons_append, readBody_backslash (mem_table_of_decode? he)]
    simpa [Atom.value, he] using ih
  | continuation _ ih => simpa [readBody, Atom.value] using ih
  | longContinuation _ ih => simpa [readBody, Atom.value] using ih
  | @gap w v b hw next _ ih =>
    have plain : ∀ c, (b ++ q :: r).head? = some c → ¬ isWhitespace c := by
      intro c hc
      cases b with
      | nil =>
        obtain rfl := Option.some.inj hc
        intro blank
        exact ne_quote_of_isWhitespace hq blank rfl
      | cons d b => exact next c hc
    have whole : '\\' :: 'z' :: (w ++ b) ++ q :: r = '\\' :: 'z' :: (w ++ (b ++ q :: r)) := by simp
    have skipped := value_readBody_whitespace hq hw (b ++ q :: r)
    rw [readBody_skipping plain, ih] at skipped
    rw [whole, readBody, consBody_fst, List.flatMap_cons, skipped]
    rfl

end Quoted

/-- The source is one string literal of the value, and nothing in it is at fault. -/
structure IsOneLiteral (source value : Text) : Prop where
  tokens : ∃ stop : Position, stop.offset = Text.byteLength source ∧
    (tokenize source).stream.tokens = [.string source value ⟨.start, stop⟩, .endOfInput stop]
  isClean : (tokenize source).isClean

namespace Quoted

section
variable {q : Char} (hq : isQuote q)
include hq

theorem isOneLiteral_of_clean {s : Text} (clean : (Piece.quoted (read q s)).Clean)
    (whole : (read q s).text = q :: s) : IsOneLiteral (q :: s) (read q s).value := by
  have piece := Piece.read_of_isQuote hq (s := s)
  have rest : (Cursor.start (q :: s)).rest = q :: s := rfl
  have last : (Placed.stop ⟨Piece.read q s, .start (q :: s)⟩).rest = [] := by
    simp [Placed.stop, rest, piece, Piece.text, whole]
  have placed : (Cursor.start (q :: s)).placed = [⟨.quoted (read q s), .start (q :: s)⟩] := by
    rw [Cursor.placed_of_rest_cons rest, Cursor.placed_of_rest_nil last, piece]
  have token : Placed.token? ⟨.quoted (read q s), .start (q :: s)⟩ = some (.string (q :: s)
      (read q s).value ⟨.start, (Cursor.start (q :: s)).finish.position⟩) := by
    rw [Placed.token?, Piece.lexeme?, if_pos clean.1, Placed.span, Placed.stop, Piece.text, whole]
    rfl
  constructor
  · refine ⟨(Cursor.start (q :: s)).finish.position, (Cursor.After.start _).offset_finish, ?_⟩
    rw [tokenize, tokens_tokenizeWith, placed, List.filterMap_cons_some token]
    rfl
  · rw [isClean_tokenize_iff, errors_tokenize, placed]
    simpa using Placed.errors_eq_nil_iff.mpr clean

theorem Writes.isOneLiteral {v b : Text} (h : Writes q v b) :
    IsOneLiteral (q :: (b ++ [q])) v := by
  obtain ⟨clean, whole⟩ := clean_read_of_isCleanBody hq (h.isCleanBody hq) (r := [])
  have value : (read q (b ++ [q])).value = v := h.value_readBody hq []
  have one := isOneLiteral_of_clean hq clean whole
  rwa [value] at one

end

/-- Whatever body writes a value, the literal is read as the value. Every value has such a body,
one that escapes nothing but quotes and backslashes. -/
theorem tokenize_written {q : Char} (hq : isQuote q) :
    (∀ v b, Writes q v b → IsOneLiteral (q :: (b ++ [q])) v) ∧
    ∀ v, IsOneLiteral (q :: (escape q v ++ [q])) v :=
  ⟨fun _ _ h => h.isOneLiteral hq, fun v => (writes_escape hq v).isOneLiteral hq⟩

theorem tokenize_written_lines : isQuote '"' ∧
    Writes '"' ['\r', '"', '\n'] ['\r', '\\', 'z', '\r', '\n', '\\', '"', '\\', '\n', '\n'] ∧
    IsOneLiteral ['"', '\r', '\\', 'z', '\r', '\n', '\\', '"', '\\', '\n', '\n', '"']
      ['\r', '"', '\n'] ∧
    IsOneLiteral ['"', '\r', '\\', '"', '\n', '"'] ['\r', '"', '\n'] := by
  have writes : Writes '"' ['\r', '"', '\n']
      ['\r', '\\', 'z', '\r', '\n', '\\', '"', '\\', '\n', '\n'] := by
    refine .raw (by decide) (by decide) (.gap (w := ['\r', '\n']) (by simp [isWhitespace]) ?_ ?_)
    · simp [isWhitespace]
    · exact .escaped rfl (.continuation (.raw (by decide) (by decide) .nil))
  have quote : isQuote '"' := rfl
  have plain := (tokenize_written quote).2 ['\r', '"', '\n']
  exact ⟨quote, writes, (tokenize_written quote).1 _ _ writes, plain⟩

end Quoted

end Lexis
