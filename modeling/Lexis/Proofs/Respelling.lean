import Lexis.Json
import Mathlib.Data.List.Perm.Basic
import Mathlib.Logic.Relation

/-! Ways to write a JSON value anew that leave what it says of a record as it is. Which parts of a
value are records, and with which fields, is given as a shape. -/

namespace Lexis
set_option autoImplicit false

/-- Where the records are in a value, and the fields of each in order. -/
inductive Shape where
  | plain
  | record (fields : List (String × Shape))

namespace Shape

def names : Shape → List String
  | plain => []
  | record fields => fields.map Prod.fst

def atKey (shape : Shape) (key : String) : Shape :=
  match shape with
  | plain => plain
  | record fields => (fields.lookup key).getD plain

def atIndex (shape : Shape) (i : Nat) : Shape :=
  (shape.names[i]?.map shape.atKey).getD plain

end Shape

/-- One value is the other written anew in one place, at any depth. -/
inductive Respelled : Shape → Json → Json → Prop where
  /-- An object that has no field twice has its keys in another order. -/
  | reorder {shape : Shape} {fields fields' : List (String × Json)} :
    (∀ name ∈ shape.names, (fields.map Prod.fst).count name ≤ 1) → fields.Perm fields' →
      Respelled shape (.object fields) (.object fields')
  /-- A record as an object has one more key that is none of its fields. -/
  | unknown {fields : List (String × Shape)} {before after : List (String × Json)} {key : String}
    {v : Json} : key ∉ fields.map Prod.fst →
      Respelled (.record fields) (.object (before ++ after)) (.object (before ++ (key, v) :: after))
  /-- A record with all its fields is an array of their values instead of an object. -/
  | array {shape : Shape} {fields : List (String × Json)} {items : List Json} :
    shape ≠ .plain → shape.names.map (fields.lookup ·) = items.map some →
      Respelled shape (.object fields) (.array items)
  | field {shape : Shape} {before after : List (String × Json)} {key : String} {v v' : Json} :
    Respelled (shape.atKey key) v v' →
      Respelled shape (.object (before ++ (key, v) :: after))
        (.object (before ++ (key, v') :: after))
  | item {shape : Shape} {before after : List Json} {v v' : Json} :
    Respelled (shape.atIndex before.length) v v' →
      Respelled shape (.array (before ++ v :: after)) (.array (before ++ v' :: after))

/-- A record, at any depth, has not all its fields. -/
inductive Lacks : Shape → Json → Prop where
  | field {shape : Shape} {fields : List (String × Json)} {name : String} :
    name ∈ shape.names → fields.lookup name = none → Lacks shape (.object fields)
  | items {shape : Shape} {items : List Json} :
    items.length < shape.names.length → Lacks shape (.array items)
  | withinField {shape : Shape} {fields : List (String × Json)} {key : String} {v : Json} :
    fields.lookup key = some v → Lacks (shape.atKey key) v → Lacks shape (.object fields)
  | withinItem {shape : Shape} {items : List Json} {i : Nat} {v : Json} :
    items[i]? = some v → Lacks (shape.atIndex i) v → Lacks shape (.array items)

section
variable {α : Type} {name : String} {fields fields' : List (String × α)}

theorem lookup_eq_of_perm (once : (fields.map Prod.fst).count name ≤ 1)
    (same : fields.Perm fields') : fields.lookup name = fields'.lookup name := by
  induction same with
  | nil => rfl
  | cons e _ ih =>
    obtain ⟨key, v⟩ := e
    rw [List.map_cons] at once
    rw [List.lookup_cons, List.lookup_cons, ih (Nat.le_trans List.count_le_count_cons once)]
  | swap e e' fields =>
    obtain ⟨key, v⟩ := e
    obtain ⟨key', v'⟩ := e'
    simp only [List.lookup_cons]
    cases first : name == key with
    | false => rfl
    | true =>
      cases second : name == key' with
      | false => rfl
      | true =>
        obtain rfl : name = key := eq_of_beq first
        obtain rfl : name = key' := eq_of_beq second
        simp at once
  | trans same _ ih ih' =>
    have count := (same.map Prod.fst).count_eq name
    rw [ih once, ih' (count ▸ once)]

theorem lookup_append_cons_of_ne {before after : List (String × α)} {key : String} {v : α}
    (other : name ≠ key) :
    (before ++ (key, v) :: after).lookup name = (before ++ after).lookup name := by
  rw [List.lookup_append, List.lookup_append, List.lookup_cons, beq_false_of_ne other]

theorem lookup_eq_none_of_not_mem (missing : name ∉ fields.map Prod.fst) :
    fields.lookup name = none := by
  apply List.lookup_eq_none_iff.mpr
  rintro ⟨key, v⟩ mem
  apply bne_iff_ne.mpr
  rintro rfl
  exact missing (List.mem_map_of_mem mem)

theorem lookup_filter {p : String → Bool} (kept : p name) :
    (fields.filter fun e => p e.1).lookup name = fields.lookup name := by
  induction fields with
  | nil => rfl
  | cons e fields ih =>
    obtain ⟨key, v⟩ := e
    rw [List.filter_cons, List.lookup_cons]
    cases dropped : p key with
    | true => simp [List.lookup_cons, ih]
    | false =>
      have other : name ≠ key := by
        rintro rfl
        cases kept.symm.trans dropped
      simp [beq_false_of_ne other, ih]

theorem lookup_append_filter (others : List (String × α)) :
    (fields ++ others.filter fun e => (fields.lookup e.1).isNone).lookup name =
      (fields.lookup name).or (others.lookup name) := by
  rw [List.lookup_append]
  cases missing : fields.lookup name with
  | some v => rfl
  | none =>
    have kept : (fields.lookup name).isNone := Option.isNone_iff_eq_none.mpr missing
    rw [lookup_filter (p := fun key => (fields.lookup key).isNone) kept]

end

theorem Shape.atKey_of_not_mem {shape : Shape} {key : String} (missing : key ∉ shape.names) :
    shape.atKey key = plain := by
  cases shape with
  | plain => rfl
  | record fields => rw [atKey, lookup_eq_none_of_not_mem missing, Option.getD_none]

theorem Shape.atIndex_of_getElem? {shape : Shape} {i : Nat} {name : String}
    (h : shape.names[i]? = some name) : shape.atIndex i = shape.atKey name := by
  rw [atIndex, h, Option.map_some, Option.getD_some]

inductive SameField (shape : Shape) : Option Json → Option Json → Prop where
  | same (v : Option Json) : SameField shape v v
  | within {v v' : Json} : Respelled shape v v' → SameField shape (some v) (some v')

inductive Alike (shape : Shape) :
    List String → List (Option Json) → List (Option Json) → Prop where
  | nil : Alike shape [] [] []
  | cons {name : String} {v v' : Option Json} {names : List String} {vs vs' : List (Option Json)} :
    SameField (shape.atKey name) v v' → Alike shape names vs vs' →
      Alike shape (name :: names) (v :: vs) (v' :: vs')

namespace Alike
variable {shape : Shape} {names : List String}

theorem map {f f' : String → Option Json}
    (same : ∀ name, SameField (shape.atKey name) (f name) (f' name)) :
    Alike shape names (names.map f) (names.map f') := by
  induction names with
  | nil => exact .nil
  | cons name names ih => exact .cons (same name) ih

theorem refl {vs : List (Option Json)} (length : vs.length = names.length) :
    Alike shape names vs vs := by
  induction names generalizing vs with
  | nil =>
    obtain rfl := List.length_eq_zero_iff.mp length
    exact .nil
  | cons name names ih =>
    obtain ⟨v, vs, rfl⟩ := List.exists_cons_of_length_eq_add_one length
    exact .cons (.same v) (ih (Nat.succ.inj length))

theorem append_cons {before after : List (Option Json)} {v v' : Json}
    (length : (before ++ some v :: after).length = names.length)
    (within : ∀ name, names[before.length]? = some name → Respelled (shape.atKey name) v v') :
    Alike shape names (before ++ some v :: after) (before ++ some v' :: after) := by
  induction names generalizing before with
  | nil => simp at length
  | cons name names ih =>
    cases before with
    | nil => exact .cons (.within (within name rfl)) (refl (Nat.succ.inj length))
    | cons w before => exact .cons (.same w) (ih (Nat.succ.inj length) within)

end Alike

theorem Json.record?_array_eq_some_iff {names : List String} {items : List Json}
    {vs : List (Option Json)} : (array items).record? names = some vs ↔
      items.length ≤ names.length ∧
        items.map some ++ List.replicate (names.length - items.length) none = vs := by
  simp [record?]

theorem Json.length_record? {names : List String} {j : Json} {vs : List (Option Json)}
    (h : j.record? names = some vs) : vs.length = names.length := by
  cases j with
  | object fields =>
    obtain rfl := Option.some.inj h
    exact List.length_map _
  | array items =>
    obtain ⟨short, rfl⟩ := record?_array_eq_some_iff.mp h
    simp only [List.length_append, List.length_map, List.length_replicate]
    omega
  | _ => cases h

theorem Json.record?_array_of_length {names : List String} {items : List Json}
    (length : items.length = names.length) :
    (array items).record? names = some (items.map some) := by
  simp [record?, length]

theorem Json.record?_object_congr {names : List String} {fields fields' : List (String × Json)}
    (same : ∀ name ∈ names, fields.lookup name = fields'.lookup name) :
    (object fields).record? names = (object fields').record? names :=
  congrArg some (List.map_congr_left same)

theorem Json.alike_record? (shape : Shape) (j : Json) :
    Option.Rel (Alike shape shape.names) (j.record? shape.names) (j.record? shape.names) := by
  cases fields : j.record? shape.names with
  | none => exact .none
  | some vs => exact .some (Alike.refl (length_record? fields))

theorem SameField.lookup {shape : Shape} {before after : List (String × Json)} {key : String}
    {v v' : Json} (within : Respelled (shape.atKey key) v v') (name : String) :
    SameField (shape.atKey name) ((before ++ (key, v) :: after).lookup name)
      ((before ++ (key, v') :: after).lookup name) := by
  by_cases found : name = key
  · subst found
    rw [List.lookup_append, List.lookup_append]
    cases before.lookup name with
    | some w => exact .same _
    | none =>
      rw [List.lookup_cons_self, List.lookup_cons_self]
      exact .within within
  · rw [lookup_append_cons_of_ne found, lookup_append_cons_of_ne found]
    exact .same _

/-- What a record says of its fields is the same after it is written anew, up to writing these
anew. -/
theorem Respelled.record? {shape : Shape} {j j' : Json} (h : Respelled shape j j') :
    Option.Rel (Alike shape shape.names) (j.record? shape.names) (j'.record? shape.names) := by
  cases h with
  | reorder once perm =>
    rw [Json.record?_object_congr fun name mem => lookup_eq_of_perm (once name mem) perm]
    exact Json.alike_record? _ _
  | @unknown known before after key v unknown =>
    have same : ∀ name ∈ (Shape.record known).names,
        (before ++ after).lookup name = (before ++ (key, v) :: after).lookup name := by
      intro name mem
      have other : name ≠ key := by
        rintro rfl
        exact unknown mem
      rw [lookup_append_cons_of_ne other]
    rw [Json.record?_object_congr same]
    exact Json.alike_record? _ _
  | @array _ fields items _ complete =>
    have length := congrArg List.length complete
    rw [List.length_map, List.length_map] at length
    rw [Json.record?_object, complete, ← Json.record?_array_of_length length.symm]
    exact Json.alike_record? _ _
  | field within =>
    rw [Json.record?_object, Json.record?_object]
    exact .some (Alike.map (SameField.lookup within))
  | @item _ before after v v' within =>
    simp only [Json.record?, List.length_append, List.length_cons, List.map_append, List.map_cons,
      List.append_assoc, List.cons_append]
    split
    · refine .some (Alike.append_cons ?_ fun name found => ?_)
      · simp only [List.length_append, List.length_cons, List.length_map, List.length_replicate]
        omega
      · rw [List.length_map] at found
        rwa [← Shape.atIndex_of_getElem? found]
    · exact .none

section
variable {shape : Shape} {β : Type}

theorem Respelled.bind_record? {read : List (Option Json) → Option β}
    (stable : ∀ vs vs', Alike shape shape.names vs vs' → read vs = read vs') {j j' : Json}
    (h : Respelled shape j j') :
    (j.record? shape.names).bind read = (j'.record? shape.names).bind read := by
  have fields := h.record?
  generalize j.record? shape.names = vs at fields
  generalize j'.record? shape.names = vs' at fields
  cases fields with
  | none => rfl
  | some alike => exact stable _ _ alike

theorem SameField.elim_eq {read : Json → β}
    (stable : ∀ v v', Respelled shape v v' → read v = read v') {v v' : Option Json}
    (h : SameField shape v v') (default : β) : v.elim default read = v'.elim default read := by
  cases h with
  | same => rfl
  | within h => exact stable _ _ h

end

section
variable {j j' : Json} (h : Respelled .plain j j')
include h

theorem Respelled.word? : j.word? = j'.word? := by
  cases h <;> rfl

theorem Respelled.bool? : j.bool? = j'.bool? := by
  cases h <;> rfl

theorem Respelled.ne_null : j ≠ .null ∧ j' ≠ .null := by
  cases h <;> simp

end

theorem Json.caseName?_object {fields : List (String × Json)} {name : String} :
    (object fields).caseName? = some name ↔ fields = [(name, null)] := by
  constructor
  · intro h
    match fields with
    | [] => cases h
    | [(key, v)] =>
      cases v with
      | null =>
        obtain rfl : key = name := Option.some.inj h
        rfl
      | _ => cases h
    | (_, v) :: _ :: _ => cases v <;> cases h
  · rintro rfl
    rfl

theorem Respelled.caseName? {j j' : Json} (h : Respelled .plain j j') :
    j.caseName? = j'.caseName? := by
  cases h with
  | reorder _ perm =>
    -- A case as an object has one key only, which has no other order.
    apply Option.ext
    intro name
    rw [Json.caseName?_object, Json.caseName?_object]
    constructor
    · rintro rfl
      exact List.perm_singleton.mp perm.symm
    · rintro rfl
      exact List.perm_singleton.mp perm
  | array record => exact absurd rfl record
  | @field _ before after key v v' within =>
    have other {w : Json} (filled : w ≠ .null) :
        (Json.object (before ++ (key, w) :: after)).caseName? = none := by
      apply Option.eq_none_iff_forall_ne_some.mpr
      intro name h
      have mem : (key, w) ∈ [(name, Json.null)] := by
        rw [← Json.caseName?_object.mp h]
        simp
      exact filled (Prod.mk.inj (List.mem_singleton.mp mem)).2
    obtain ⟨filled, filled'⟩ := within.ne_null
    rw [other filled, other filled']
  | item => rfl

theorem Lacks.not_plain {j : Json} : ¬ Lacks .plain j := by
  intro h
  generalize plain : Shape.plain = shape at h
  induction h with
  | field mem =>
    subst plain
    cases mem
  | items short =>
    subst plain
    cases short
  | withinField _ _ ih =>
    subst plain
    exact ih rfl
  | withinItem _ _ ih =>
    subst plain
    exact ih rfl

theorem Lacks.mem_names {shape : Shape} {key : String} {j : Json}
    (h : Lacks (shape.atKey key) j) : key ∈ shape.names := by
  by_contra missing
  rw [Shape.atKey_of_not_mem missing] at h
  exact h.not_plain

theorem Lacks.exists_within {shape : Shape} {j : Json} (h : Lacks shape j) {vs : List Json}
    (all : j.record? shape.names = some (vs.map some)) :
    ∃ (i : Nat) (v : Json), vs[i]? = some v ∧ Lacks (shape.atIndex i) v := by
  have filled : none ∉ vs.map some := by simp
  cases h with
  | @field _ fields name mem missing =>
    rw [Json.record?_object, Option.some.injEq] at all
    rw [← all] at filled
    exact absurd (List.mem_map.mpr ⟨name, mem, missing⟩) filled
  | @items _ items short =>
    obtain ⟨-, all⟩ := Json.record?_array_eq_some_iff.mp all
    rw [← all] at filled
    refine absurd (List.mem_append_right _ (List.mem_replicate.mpr ⟨?_, rfl⟩)) filled
    omega
  | @withinField _ fields key v found within =>
    obtain ⟨i, bound, rfl⟩ := List.getElem_of_mem within.mem_names
    have name := List.getElem?_eq_getElem bound
    rw [Json.record?_object, Option.some.injEq] at all
    have value : (vs.map some)[i]? = some (some v) := by
      rw [← all, List.getElem?_map, name, Option.map_some, found]
    refine ⟨i, v, ?_, ?_⟩
    · simpa using value
    · rwa [Shape.atIndex_of_getElem? name]
  | @withinItem _ items i v found within =>
    obtain ⟨-, all⟩ := Json.record?_array_eq_some_iff.mp all
    have value : (vs.map some)[i]? = some (some v) := by
      rw [← all, List.getElem?_append_left, List.getElem?_map, found, Option.map_some]
      rw [List.length_map]
      exact (List.getElem?_eq_some_iff.mp found).1
    exact ⟨i, v, by simpa using value, within⟩

end Lexis
