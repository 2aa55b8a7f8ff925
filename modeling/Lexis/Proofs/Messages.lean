import Lexis.Proofs.LineOrder

/-! What the message of an error tells. A shown character can be read back whatever stands behind
it, so a message loses nothing of its error but the offset. No two errors of one source are at the
same line and column, so no two of their messages are the same. -/

namespace Lexis
set_option autoImplicit false

namespace Text

/-- The character that is shown at the front of a text, and the text behind it. -/
def shown? : List Char → Option (Char × List Char)
  | [] => none
  | '\\' :: 'u' :: '\x7b' :: s =>
    some (Char.ofNat (Digits.read 16 (s.takeWhile Char.isAlphanum)),
      (s.dropWhile Char.isAlphanum).tail)
  | '\\' :: letter :: s => (backslashed.find? (·.2 = letter)).map fun entry => (entry.1, s)
  | c :: s => some (c, s)

theorem shown?_of_ne {c : Char} (h : c ≠ '\\') (s : List Char) : shown? (c :: s) = some (c, s) := by
  unfold shown?
  split <;> simp_all

theorem shown?_codePoint (c : Char) (s : List Char) : shown? (codePoint c ++ s) = some (c, s) := by
  have digits := Digits.isAlphanum_of_mem (b := 16) (n := c.toNat) (by decide) (by decide)
  have text : codePoint c ++ s =
      '\\' :: 'u' :: '\x7b' :: (Nat.toDigits 16 c.toNat ++ '\x7d' :: s) := by
    simp [codePoint]
  have stop : ∀ d, ('\x7d' :: s).head? = some d → d.isAlphanum = false := by
    rintro d ⟨⟩
    rfl
  obtain ⟨front, back⟩ := span_append digits stop
  rw [text, shown?, front, back, Digits.read_toDigits (by decide) (by decide), Char.ofNat_toNat,
    List.tail_cons]

/-- A shown character is read back, whichever ones are shown by their code point. -/
theorem shown?_escapedBy (hidden : Char → Bool) (c : Char) (s : List Char) :
    shown? (escapedBy hidden c ++ s) = some (c, s) := by
  unfold escapedBy
  split
  · rename_i letter entry
    have mem : (c, letter) ∈ backslashed := by
      obtain ⟨front, back, whole, -⟩ := List.lookup_eq_some_iff.mp entry
      simp [whole]
    simp only [backslashed, List.mem_cons, Prod.mk.injEq, List.not_mem_nil, or_false] at mem
    rcases mem with ⟨rfl, rfl⟩ | ⟨rfl, rfl⟩ | ⟨rfl, rfl⟩ | ⟨rfl, rfl⟩ | ⟨rfl, rfl⟩ | ⟨rfl, rfl⟩ |
      ⟨rfl, rfl⟩ <;> rfl
  · rename_i noEntry
    split
    · exact shown?_codePoint c s
    · have plain : c ≠ '\\' := by
        rintro rfl
        cases noEntry
      exact shown?_of_ne plain s

theorem escapedBy_append_inj {hidden : Char → Bool} {c d : Char} {s t : List Char}
    (same : escapedBy hidden c ++ s = escapedBy hidden d ++ t) : c = d ∧ s = t := by
  have read := congrArg shown? same
  rw [shown?_escapedBy, shown?_escapedBy] at read
  exact Prod.mk.inj (Option.some.inj read)

end Text

namespace Position

theorem lineColumn_eq_iff (p q : Position) :
    p.lineColumn = q.lineColumn ↔ p.line = q.line ∧ p.column = q.column := by
  rw [lineColumn, lineColumn, toLex_inj, Prod.mk.injEq]

theorem display_eq_iff (p q : Position) :
    p.display = q.display ↔ p.line = q.line ∧ p.column = q.column := by
  constructor
  · intro same
    rw [← lineColumn_eq_iff]
    exact lineColumn_of_display (c := '.') (d := '.') rfl rfl (congrArg (·.toList ++ ['.']) same)
  · rintro ⟨line, column⟩
    rw [display, display, line, column]

end Position

namespace LexicalError

def Kind.heading : Kind → String
  | unrecognizedCharacter => "Unrecognized character '"
  | unterminatedString => "Unterminated string at "
  | invalidEscapeSequence => "Invalid escape sequence '\\"

theorem Kind.heading_append_inj {k l : Kind} {s t : String}
    (same : k.heading ++ s = l.heading ++ t) : k = l ∧ s = t := by
  have chars := congrArg String.toList same
  rw [String.toList_append, String.toList_append] at chars
  -- The third characters of the headings differ.
  have third (k : Kind) (s : List Char) : (k.heading.toList ++ s)[2]? = k.heading.toList[2]? := by
    have long : 2 < k.heading.toList.length := by cases k <;> decide
    exact List.getElem?_append_left long
  have differ : k.heading.toList[2]? = l.heading.toList[2]? := by
    rw [← third k s.toList, ← third l t.toList, chars]
  obtain rfl : k = l := by
    cases k <;> cases l <;> first | rfl | exact absurd differ (by decide)
  exact ⟨rfl, String.toList_inj.mp (List.append_cancel_left chars)⟩

def detail (hidden : Char → Bool) (e : LexicalError) : String :=
  (e.character?.elim "" fun c => String.ofList (Text.escapedBy hidden c) ++ "' at ") ++
    e.position.display

theorem messageBy_eq (hidden : Char → Bool) (e : LexicalError) :
    e.messageBy hidden = e.kind.heading ++ e.detail hidden := by
  have regroup (a b c d : String) : a ++ b ++ c ++ d = a ++ (b ++ c ++ d) := by
    simp only [String.append_assoc]
  cases e with
  | unrecognizedCharacter c p => exact regroup _ _ _ _
  | unterminatedString p =>
    exact congrArg (Kind.heading .unterminatedString ++ ·) String.empty_append.symm
  | invalidEscapeSequence c p => exact regroup _ _ _ _

theorem character?_eq_none_iff (e : LexicalError) :
    e.character? = none ↔ e.kind = .unterminatedString := by
  cases e <;> simp [character?, kind]

theorem messageBy_eq_iff (hidden : Char → Bool) (e f : LexicalError) :
    e.messageBy hidden = f.messageBy hidden ↔ e.kind = f.kind ∧ e.character? = f.character? ∧
      e.position.line = f.position.line ∧ e.position.column = f.position.column := by
  rw [← Position.display_eq_iff, messageBy_eq, messageBy_eq]
  constructor
  · intro same
    obtain ⟨kind, rest⟩ := Kind.heading_append_inj same
    have both : e.character? = none ↔ f.character? = none := by
      rw [character?_eq_none_iff, character?_eq_none_iff, kind]
    refine ⟨kind, ?_⟩
    unfold detail at rest
    cases hc : e.character? with
    | none =>
      rw [hc, both.mp hc] at rest
      exact ⟨(both.mp hc).symm, by simpa using rest⟩
    | some c =>
      cases hd : f.character? with
      | none => cases hc.symm.trans (both.mpr hd)
      | some d =>
        have chars := congrArg String.toList rest
        simp only [hc, hd, Option.elim_some, String.toList_append, String.toList_ofList,
          List.append_assoc] at chars
        obtain ⟨rfl, later⟩ := Text.escapedBy_append_inj chars
        exact ⟨rfl, String.toList_inj.mp (List.append_cancel_left later)⟩
  · rintro ⟨kind, character, place⟩
    rw [kind, detail, detail, character, place]

end LexicalError

theorem pairwise_lineColumn_errors (source : Text) :
    ((Cursor.start source).placed.flatMap Placed.errors).Pairwise fun e f =>
      e.position.lineColumn ≠ f.position.lineColumn := by
  have clear : ∀ e ∈ (Cursor.start source).placed.flatMap Placed.errors,
      e.position.Clear source := by
    intro e he
    obtain ⟨p, hp, he⟩ := List.mem_flatMap.mp he
    exact ((clear_start source).1 p hp).2.2 e he
  apply (Cursor.After.start source).pairwise_errors.imp_of_mem
  intro e f he hf precedes same
  have place := (clear e he).eq_of_lineColumn (clear f hf) same
  exact precedes.offset_ne (congrArg Position.offset place)

/-- Messages are the same for errors of one kind, character, line and column, and for no others,
whichever characters are shown by their code point. The errors of one run never share a message. -/
theorem messages_tell_apart (hidden : Char → Bool) :
    (∀ e f : LexicalError, e.messageBy hidden = f.messageBy hidden ↔
      e.kind = f.kind ∧ e.character? = f.character? ∧
        e.position.line = f.position.line ∧ e.position.column = f.position.column) ∧
    ∀ (config : Config) (source : Text),
      ((tokenizeWith config source).errors.map (·.messageBy hidden)).Nodup := by
  refine ⟨LexicalError.messageBy_eq_iff hidden, ?_⟩
  intro config source
  have kept : (tokenizeWith config source).errors = _ := (records_tokenizeWith config source).errors
  rw [kept]
  apply List.pairwise_map.mpr
  apply ((pairwise_lineColumn_errors source).sublist (List.take_sublist _ _)).imp
  intro e f differ same
  obtain ⟨-, -, place⟩ := (LexicalError.messageBy_eq_iff hidden e f).mp same
  exact differ ((Position.lineColumn_eq_iff _ _).mpr place)

end Lexis
