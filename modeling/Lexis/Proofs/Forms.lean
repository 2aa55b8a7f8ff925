import Lexis.Json.Form
import Lexis.Proofs.Respelling
import Mathlib.Logic.Equiv.Defs

/-! The JSON forms of values. Each form is read back as the value, and so is every other way to
write it; what is read comes to one form in the end. -/

namespace Lexis
set_option autoImplicit false

/-- How values are written and read. -/
structure Form (α : Type) where
  toJson : α → Json
  ofJson? : Json → Option α
  shape : Shape
  /-- Whether the numbers of the value are in the range of the integers that are written. -/
  Fits : α → Prop := fun _ => True

namespace Form
variable {α : Type}

structure RoundTrips (f : Form α) : Prop where
  read_written : ∀ v, f.Fits v → f.ofJson? (f.toJson v) = some v
  fits : ∀ j v, f.ofJson? j = some v → f.Fits v
  /-- Once it is read and written, a value changes no more. -/
  canonical : ∀ j v, f.ofJson? j = some v → f.ofJson? (f.toJson v) = some v ∧
    (f.ofJson? (f.toJson v)).map f.toJson = some (f.toJson v)
  respelled : ∀ j j', Relation.EqvGen (Respelled f.shape) j j' → f.ofJson? j = f.ofJson? j'

/-- No field may be left out, at any depth. -/
def NeedsAll (f : Form α) : Prop := ∀ j, Lacks f.shape j → f.ofJson? j = none

/-- Values are read from their names, in two spellings, and from nothing else. -/
def ReadsNames (f : Form α) (name : α → String) : Prop :=
  ∀ j a, f.ofJson? j = some a ↔ j = .string (name a) ∨ j = .object [(name a, .null)]

theorem RoundTrips.of {f : Form α} (written : ∀ v, f.Fits v → f.ofJson? (f.toJson v) = some v)
    (fits : ∀ j v, f.ofJson? j = some v → f.Fits v)
    (step : ∀ j j', Respelled f.shape j j' → f.ofJson? j = f.ofJson? j') : f.RoundTrips := by
  refine ⟨written, fits, ?_, ?_⟩
  · intro j v read
    have again := written v (fits j v read)
    exact ⟨again, congrArg (Option.map f.toJson) again⟩
  · intro j j' h
    induction h with
    | rel j j' h => exact step j j' h
    | refl j => rfl
    | symm j j' _ ih => exact ih.symm
    | trans j k l _ _ ih ih' => exact ih.trans ih'

end Form

theorem Json.word?_eq_some_iff {j : Json} {n : Nat} :
    j.word? = some n ↔ j = .natural n ∧ n < UInt64.size := by
  constructor
  · intro h
    cases j with
    | integer i =>
      simp only [word?, Option.ite_none_right_eq_some, Option.some.injEq] at h
      obtain ⟨⟨pos, small⟩, rfl⟩ := h
      refine ⟨?_, small⟩
      rw [natural, Int.toNat_of_nonneg pos]
    | _ => cases h
  · rintro ⟨rfl, small⟩
    exact word?_natural small

namespace Position

def form : Form Position where
  toJson := toJson
  ofJson? := ofJson?
  shape := .record [("line", .plain), ("column", .plain), ("offset", .plain)]
  Fits p := p.line < UInt64.size ∧ p.column < UInt64.size ∧ p.offset < UInt64.size

def ofFields? : List (Option Json) → Option Position
  | [line, column, offset] => do
    return ⟨← line.elim none Json.word?, ← column.elim none Json.word?,
      ← offset.elim none Json.word?⟩
  | _ => none

theorem ofJson?_eq (j : Json) : ofJson? j = (j.record? fieldNames).bind ofFields? := by
  unfold ofJson?
  cases j.record? fieldNames with
  | none => rfl
  | some vs =>
    rcases vs with _ | ⟨_ | line, _ | ⟨_ | column, _ | ⟨_ | offset, _ | ⟨more, vs⟩⟩⟩⟩ <;>
      simp [ofFields?]

theorem ofJson?_eq_some_iff {j : Json} {p : Position} : ofJson? j = some p ↔
    ∃ line column offset, j.record? fieldNames = some ([line, column, offset].map some) ∧
      line.word? = some p.line ∧ column.word? = some p.column ∧ offset.word? = some p.offset := by
  constructor
  · intro h
    unfold ofJson? at h
    split at h
    · rename_i line column offset fields
      simp only [Option.bind_eq_bind, Option.bind_eq_some_iff, Option.pure_def,
        Option.some.injEq] at h
      obtain ⟨l, hl, c, hc, o, ho, rfl⟩ := h
      exact ⟨line, column, offset, fields, hl, hc, ho⟩
    · cases h
  · rintro ⟨line, column, offset, fields, hl, hc, ho⟩
    rw [ofJson?_eq, fields]
    simp [ofFields?, hl, hc, ho]

theorem ofJson?_respelled {j j' : Json} (h : Respelled form.shape j j') :
    ofJson? j = ofJson? j' := by
  rw [ofJson?_eq, ofJson?_eq]
  refine h.bind_record? fun vs vs' alike => ?_
  have stable (v v' : Json) (h : Respelled .plain v v') : v.word? = v'.word? := h.word?
  obtain _ | ⟨line, _ | ⟨column, _ | ⟨offset, ⟨⟩⟩⟩⟩ := alike
  rw [ofFields?, ofFields?, line.elim_eq stable, column.elim_eq stable, offset.elim_eq stable]

theorem form_roundTrips : form.RoundTrips := by
  refine .of ?_ ?_ fun j j' => ofJson?_respelled
  · rintro p ⟨line, column, offset⟩
    have fields : p.toJson.record? fieldNames =
      some ([.natural p.line, .natural p.column, .natural p.offset].map some) := rfl
    exact ofJson?_eq_some_iff.mpr ⟨_, _, _, fields, Json.word?_natural line,
      Json.word?_natural column, Json.word?_natural offset⟩
  · intro j p read
    obtain ⟨line, column, offset, -, hl, hc, ho⟩ := ofJson?_eq_some_iff.mp read
    exact ⟨(Json.word?_eq_some_iff.mp hl).2, (Json.word?_eq_some_iff.mp hc).2,
      (Json.word?_eq_some_iff.mp ho).2⟩

theorem form_needsAll : form.NeedsAll := by
  intro j lacks
  apply Option.eq_none_iff_forall_ne_some.mpr
  intro p read
  obtain ⟨line, column, offset, fields, -⟩ := ofJson?_eq_some_iff.mp read
  obtain ⟨i, v, found, within⟩ := lacks.exists_within fields
  match i, found with
  | 0, _ | 1, _ | 2, _ => exact within.not_plain

end Position

/-- A record of two fields, each with a reader of its own. -/
def Json.pair? {β γ : Type} (names : List String) (first : Json → Option β)
    (second : Json → Option γ) (j : Json) : Option (β × γ) :=
  (j.record? names).bind fun
    | [v, w] => do return (← v.elim none first, ← w.elim none second)
    | _ => none

theorem Json.pair?_eq_some_iff {β γ : Type} {first : Json → Option β} {second : Json → Option γ}
    {names : List String} {j : Json} {p : β × γ} :
    j.pair? names first second = some p ↔ ∃ v w, j.record? names = some ([v, w].map some) ∧
      first v = some p.1 ∧ second w = some p.2 := by
  unfold pair?
  constructor
  · intro h
    obtain ⟨vs, fields, h⟩ := Option.bind_eq_some_iff.mp h
    rcases vs with _ | ⟨_ | v, _ | ⟨_ | w, _ | ⟨more, vs⟩⟩⟩
    all_goals simp at h
    simp only [Option.bind_eq_some_iff, Option.some.injEq] at h
    obtain ⟨_, hv, _, hw, rfl⟩ := h
    exact ⟨v, w, fields, hv, hw⟩
  · rintro ⟨v, w, fields, hv, hw⟩
    rw [fields]
    simp [hv, hw]

theorem Json.map_pair?_eq {α β γ : Type} {first : Json → Option β} {second : Json → Option γ}
    {names : List String} {make : β × γ → α} (j : Json) :
    (j.pair? names first second).map make =
      match j.record? names with
      | some [some v, some w] => do return make (← first v, ← second w)
      | _ => none := by
  unfold pair?
  cases j.record? names with
  | none => rfl
  | some vs =>
    rcases vs with _ | ⟨_ | v, _ | ⟨_ | w, _ | ⟨more, vs⟩⟩⟩
    case cons.some.cons.some.nil =>
      show Option.map make (do return (← first v, ← second w)) =
        (do return make (← first v, ← second w))
      cases first v with
      | none => rfl
      | some b => cases second w <;> rfl
    all_goals simp

/-- The form of a value that is made of two others is a record of their forms. -/
def pairForm {α β γ : Type} (one other : String) (f : Form β) (g : Form γ) (parts : α ≃ β × γ) :
    Form α where
  toJson a := .object [(one, f.toJson (parts a).1), (other, g.toJson (parts a).2)]
  ofJson? j := (j.pair? [one, other] f.ofJson? g.ofJson?).map parts.symm
  shape := .record [(one, f.shape), (other, g.shape)]
  Fits a := f.Fits (parts a).1 ∧ g.Fits (parts a).2

section
variable {α β γ : Type} {one other : String} {f : Form β} {g : Form γ} {parts : α ≃ β × γ}

theorem pairForm_ofJson?_eq_some_iff {j : Json} {a : α} :
    (pairForm one other f g parts).ofJson? j = some a ↔
      ∃ v w, j.record? [one, other] = some ([v, w].map some) ∧
        f.ofJson? v = some (parts a).1 ∧ g.ofJson? w = some (parts a).2 := by
  rw [← Json.pair?_eq_some_iff]
  show Option.map _ _ = _ ↔ _
  rw [Option.map_eq_some_iff]
  constructor
  · rintro ⟨p, read, rfl⟩
    rwa [Equiv.apply_symm_apply]
  · intro read
    exact ⟨_, read, parts.symm_apply_apply a⟩

theorem pairForm_atKey_one : (pairForm one other f g parts).shape.atKey one = f.shape := by
  simp [pairForm, Shape.atKey]

variable (apart : one ≠ other)
include apart

theorem pairForm_atKey_other : (pairForm one other f g parts).shape.atKey other = g.shape := by
  simp [pairForm, Shape.atKey, List.lookup_cons, beq_false_of_ne apart.symm]

theorem pairForm_roundTrips (hf : f.RoundTrips) (hg : g.RoundTrips) :
    (pairForm one other f g parts).RoundTrips := by
  refine .of ?_ ?_ ?_
  · rintro a ⟨left, right⟩
    have fields : ((pairForm one other f g parts).toJson a).record? [one, other] =
        some ([f.toJson (parts a).1, g.toJson (parts a).2].map some) := by
      simp [pairForm, Json.record?_object, List.lookup_cons, beq_false_of_ne apart.symm]
    exact pairForm_ofJson?_eq_some_iff.mpr
      ⟨_, _, fields, hf.read_written _ left, hg.read_written _ right⟩
  · intro j a read
    obtain ⟨v, w, -, left, right⟩ := pairForm_ofJson?_eq_some_iff.mp read
    exact ⟨hf.fits _ _ left, hg.fits _ _ right⟩
  · intro j j' h
    apply congrArg (Option.map parts.symm)
    refine h.bind_record? fun vs vs' alike => ?_
    have stable (v v' : Json) (within : Respelled f.shape v v') : f.ofJson? v = f.ofJson? v' :=
      hf.respelled v v' (.rel v v' within)
    have stable' (v v' : Json) (within : Respelled g.shape v v') : g.ofJson? v = g.ofJson? v' :=
      hg.respelled v v' (.rel v v' within)
    obtain _ | ⟨left, _ | ⟨right, ⟨⟩⟩⟩ := alike
    rw [pairForm_atKey_one] at left
    rw [pairForm_atKey_other apart] at right
    simp only [left.elim_eq stable, right.elim_eq stable']

theorem pairForm_needsAll (hf : f.NeedsAll) (hg : g.NeedsAll) :
    (pairForm one other f g parts).NeedsAll := by
  intro j lacks
  apply Option.eq_none_iff_forall_ne_some.mpr
  intro a read
  obtain ⟨v, w, fields, left, right⟩ := pairForm_ofJson?_eq_some_iff.mp read
  obtain ⟨i, u, found, within⟩ := lacks.exists_within fields
  match i, found with
  | 0, rfl =>
    have name : (pairForm one other f g parts).shape.names[0]? = some one := rfl
    rw [Shape.atIndex_of_getElem? name, pairForm_atKey_one] at within
    cases (hf v within).symm.trans left
  | 1, rfl =>
    have name : (pairForm one other f g parts).shape.names[1]? = some other := rfl
    rw [Shape.atIndex_of_getElem? name, pairForm_atKey_other apart] at within
    cases (hg w within).symm.trans right

end

def caseForm {α : Type} (name : α → String) (ofName? : String → Option α) : Form α where
  toJson a := .string (name a)
  ofJson? j := j.caseName?.bind ofName?
  shape := .plain

section
variable {α : Type} {name : α → String} {ofName? : String → Option α}
  (ofName?_eq_some_iff : ∀ {n : String} {a : α}, ofName? n = some a ↔ name a = n)

theorem caseForm_respelled {j j' : Json} (h : Respelled .plain j j') :
    (caseForm name ofName?).ofJson? j = (caseForm name ofName?).ofJson? j' :=
  congrArg (Option.bind · ofName?) h.caseName?

include ofName?_eq_some_iff

theorem caseForm_roundTrips : (caseForm name ofName?).RoundTrips :=
  .of (fun _ _ => ofName?_eq_some_iff.mpr rfl) (fun _ _ _ => trivial)
    fun _ _ => caseForm_respelled

theorem caseForm_readsNames : (caseForm name ofName?).ReadsNames name := by
  intro j a
  constructor
  · intro h
    obtain ⟨n, hn, ha⟩ := Option.bind_eq_some_iff.mp h
    obtain rfl := ofName?_eq_some_iff.mp ha
    cases j with
    | string s =>
      obtain rfl := Option.some.inj hn
      exact .inl rfl
    | object fields =>
      rw [Json.caseName?_object.mp hn]
      exact .inr rfl
    | _ => cases hn
  · rintro (rfl | rfl)
    · exact ofName?_eq_some_iff.mpr rfl
    · exact ofName?_eq_some_iff.mpr rfl

end

theorem Form.needsAll_of_plain {α : Type} {f : Form α} (plain : f.shape = .plain) :
    f.NeedsAll := by
  intro j lacks
  rw [plain] at lacks
  exact absurd lacks Lacks.not_plain

def TokenKind.form : Form TokenKind where
  toJson := toJson
  ofJson? := ofJson?
  shape := .plain

def TriviaKind.form : Form TriviaKind where
  toJson := toJson
  ofJson? := ofJson?
  shape := .plain

def LexicalError.Kind.form : Form LexicalError.Kind where
  toJson := toJson
  ofJson? := ofJson?
  shape := .plain

def Span.form : Form Span where
  toJson := toJson
  ofJson? := ofJson?
  shape := .record [("start", Position.form.shape), ("end", Position.form.shape)]
  Fits s := Position.form.Fits s.start ∧ Position.form.Fits s.stop

def Trivia.form : Form Trivia where
  toJson := toJson
  ofJson? := ofJson?
  shape := .record [("kind", TriviaKind.form.shape), ("span", Span.form.shape)]
  Fits t := TriviaKind.form.Fits t.kind ∧ Span.form.Fits t.span

def Span.parts : Span ≃ Position × Position where
  toFun s := (s.start, s.stop)
  invFun p := ⟨p.1, p.2⟩

def Trivia.parts : Trivia ≃ TriviaKind × Span where
  toFun t := (t.kind, t.span)
  invFun p := ⟨p.1, p.2⟩

theorem Span.form_eq : form = pairForm "start" "end" Position.form Position.form parts := by
  have read : ofJson? =
      fun j => (j.pair? fieldNames Position.ofJson? Position.ofJson?).map parts.symm := by
    funext j
    rw [Json.map_pair?_eq]
    rfl
  rw [form, read]
  rfl

theorem Trivia.form_eq : form = pairForm "kind" "span" TriviaKind.form Span.form parts := by
  have read : ofJson? =
      fun j => (j.pair? fieldNames TriviaKind.ofJson? Span.ofJson?).map parts.symm := by
    funext j
    rw [Json.map_pair?_eq]
    rfl
  rw [form, read]
  rfl

namespace Config

def form : Form Config where
  toJson := toJson
  ofJson? := ofJson?
  shape := .record [("keep_trivia", .plain), ("max_errors", .plain)]

def defaults : List (String × Json) :=
  [("keep_trivia", .bool ({} : Config).keepTrivia),
    ("max_errors", .natural ({} : Config).maxErrors.toNat)]

def word64? (j : Json) : Option UInt64 := j.word?.map UInt64.ofNat

def ofFields? : List (Option Json) → Option Config
  | [keepTrivia, maxErrors] => do
    return ⟨← keepTrivia.elim (some ({} : Config).keepTrivia) Json.bool?,
      ← maxErrors.elim (some ({} : Config).maxErrors) word64?⟩
  | _ => none

theorem ofJson?_eq (j : Json) : ofJson? j = (j.record? fieldNames).bind ofFields? := by
  unfold ofJson?
  cases j.record? fieldNames with
  | none => rfl
  | some vs => rcases vs with _ | ⟨keepTrivia, _ | ⟨maxErrors, _ | ⟨more, vs⟩⟩⟩ <;> rfl

theorem ofJson?_respelled {j j' : Json} (h : Respelled form.shape j j') :
    ofJson? j = ofJson? j' := by
  rw [ofJson?_eq, ofJson?_eq]
  refine h.bind_record? fun vs vs' alike => ?_
  have stable (v v' : Json) (h : Respelled .plain v v') : word64? v = word64? v' :=
    congrArg (Option.map UInt64.ofNat) h.word?
  obtain _ | ⟨keepTrivia, _ | ⟨maxErrors, ⟨⟩⟩⟩ := alike
  rw [ofFields?, ofFields?, keepTrivia.elim_eq fun _ _ => Respelled.bool?,
    maxErrors.elim_eq stable]

theorem word64?_natural (n : UInt64) : word64? (.natural n.toNat) = some n := by
  rw [word64?, Json.word?_natural n.toNat_lt, Option.map_some, UInt64.ofNat_toNat]

theorem form_roundTrips : form.RoundTrips := by
  refine .of ?_ (fun _ _ _ => trivial) fun j j' => ofJson?_respelled
  rintro ⟨keepTrivia, maxErrors⟩ -
  have fields : (toJson ⟨keepTrivia, maxErrors⟩).record? fieldNames =
    some [some (.bool keepTrivia), some (.natural maxErrors.toNat)] := rfl
  show ofJson? (toJson ⟨keepTrivia, maxErrors⟩) = _
  rw [ofJson?_eq, fields, Option.bind_some, ofFields?, Option.elim_some, Option.elim_some,
    word64?_natural]
  rfl

theorem ofJson?_object (fields : List (String × Json)) : ofJson? (.object fields) =
    ofJson? (.object (fields ++ defaults.filter fun d => (fields.lookup d.1).isNone)) := by
  rw [ofJson?_eq, ofJson?_eq, Json.record?_object, Json.record?_object]
  have filled (v w : Option Json) : ofFields? [v, w] = ofFields?
      [v.or (defaults.lookup "keep_trivia"), w.or (defaults.lookup "max_errors")] := by
    cases v <;> cases w <;> rfl
  have added (name : String) :
      (fields ++ defaults.filter fun d => (fields.lookup d.1).isNone).lookup name =
        (fields.lookup name).or (defaults.lookup name) := lookup_append_filter defaults
  rw [fieldNames, List.map_cons, List.map_cons, List.map_nil, List.map_cons, List.map_cons,
    List.map_nil, added, added]
  exact filled _ _

theorem ofJson?_array (items : List Json) : ofJson? (.array items) =
    ofJson? (.array (items ++ (defaults.map Prod.snd).drop items.length)) := by
  rcases items with _ | ⟨v, _ | ⟨w, _ | ⟨more, items⟩⟩⟩
  · rfl
  · rfl
  · rfl
  · simp [defaults]

end Config

/-- Every value is read back from its form. What is read from any JSON value has a form that is read
as the same value, and it is read as well from all that comes from that value by other orders of
keys, unknown keys and arrays for records, at any depth. Settings have defaults for what is left
out, and positions, spans and trivia have none. -/
theorem forms_round_trip :
    (Position.form.RoundTrips ∧ Span.form.RoundTrips ∧ Trivia.form.RoundTrips ∧
      TokenKind.form.RoundTrips ∧ TriviaKind.form.RoundTrips ∧
      LexicalError.Kind.form.RoundTrips ∧ Config.form.RoundTrips) ∧
    (TokenKind.form.ReadsNames TokenKind.name ∧ TriviaKind.form.ReadsNames TriviaKind.name ∧
      LexicalError.Kind.form.ReadsNames LexicalError.Kind.name) ∧
    (Position.form.NeedsAll ∧ Span.form.NeedsAll ∧ Trivia.form.NeedsAll) ∧
    Config.toJson {} = .object Config.defaults ∧
    (∀ fields : List (String × Json), Config.ofJson? (.object fields) = Config.ofJson? (.object
      (fields ++ Config.defaults.filter fun d => (fields.lookup d.1).isNone))) ∧
    ∀ items : List Json, Config.ofJson? (.array items) = Config.ofJson? (.array
      (items ++ (Config.defaults.map Prod.snd).drop items.length)) := by
  have spans : Span.form.RoundTrips ∧ Span.form.NeedsAll := by
    rw [Span.form_eq]
    exact ⟨pairForm_roundTrips (by decide) Position.form_roundTrips Position.form_roundTrips,
      pairForm_needsAll (by decide) Position.form_needsAll Position.form_needsAll⟩
  have kinds : TriviaKind.form.RoundTrips := caseForm_roundTrips TriviaKind.ofName?_eq_some_iff
  have trivia : Trivia.form.RoundTrips ∧ Trivia.form.NeedsAll := by
    rw [Trivia.form_eq]
    exact ⟨pairForm_roundTrips (by decide) kinds spans.1,
      pairForm_needsAll (by decide) (Form.needsAll_of_plain rfl) spans.2⟩
  exact ⟨⟨Position.form_roundTrips, spans.1, trivia.1,
    caseForm_roundTrips TokenKind.ofName?_eq_some_iff, kinds,
    caseForm_roundTrips LexicalError.Kind.ofName?_eq_some_iff, Config.form_roundTrips⟩,
    ⟨caseForm_readsNames TokenKind.ofName?_eq_some_iff,
      caseForm_readsNames TriviaKind.ofName?_eq_some_iff,
      caseForm_readsNames LexicalError.Kind.ofName?_eq_some_iff⟩,
    ⟨Position.form_needsAll, spans.2, trivia.2⟩, rfl, Config.ofJson?_object, Config.ofJson?_array⟩

/-- A trivia whose keys are swapped, whose span is an array and whose last position has a key more
is read as the trivia. -/
theorem forms_round_trip_trivia :
    let start : Position := ⟨1, 0, 0⟩
    let stop : Position := ⟨1, 2, 2⟩
    let unknown : Json := .object [("line", .natural 1), ("column", .natural 2), ("tab", .null),
      ("offset", .natural 2)]
    Trivia.ofJson? (.object [("span", .array [start.toJson, unknown]),
      ("kind", TriviaKind.whitespace.toJson)]) = some ⟨.whitespace, ⟨start, stop⟩⟩ := by
  intro start stop unknown
  obtain ⟨⟨-, -, trivia, -⟩, -⟩ := forms_round_trip
  have written := trivia.read_written ⟨.whitespace, ⟨start, stop⟩⟩
    ⟨trivial, ⟨by decide, by decide, by decide⟩, ⟨by decide, by decide, by decide⟩⟩
  let kind : String × Json := ("kind", TriviaKind.whitespace.toJson)
  have swapped : Respelled Trivia.form.shape (Trivia.toJson ⟨.whitespace, ⟨start, stop⟩⟩)
      (.object [("span", Span.toJson ⟨start, stop⟩), kind]) :=
    .reorder (by decide) (.swap _ _ _)
  have listed : Respelled Trivia.form.shape (.object [("span", Span.toJson ⟨start, stop⟩), kind])
      (.object [("span", .array [start.toJson, stop.toJson]), kind]) :=
    @Respelled.field _ [] [kind] "span" _ _ (.array Shape.noConfusion rfl)
  have extended : Respelled Trivia.form.shape
      (.object [("span", .array [start.toJson, stop.toJson]), kind])
      (.object [("span", .array [start.toJson, unknown]), kind]) :=
    @Respelled.field _ [] [kind] "span" _ _ (@Respelled.item _ [start.toJson] [] _ _
      (@Respelled.unknown _ [("line", .natural 1), ("column", .natural 2)] _ "tab" .null
        (by decide)))
  have same := trivia.respelled _ _
    (.trans _ _ _ (.rel _ _ swapped) (.trans _ _ _ (.rel _ _ listed) (.rel _ _ extended)))
  exact same.symm.trans written

end Lexis
