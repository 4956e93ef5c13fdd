import Plur1bus.Engine.Json
import Plur1bus.Program.Value
import Mathlib.Data.Fintype.Defs
import Mathlib.Data.List.FinRange
import Mathlib.Logic.Function.Basic

/-!
Typed records of the ledgers. A record keeps the object it was read from beside
its typed fields, and writes a field only when its typed value is not what the
object says; everything else is written as it was read.

The kinds of fields are instances of a class that carries its two laws, and a
record type is given by the list of its fields, each with its name in the
object and its kind. A record is itself a kind, so records nest.
-/

namespace Plur1bus.Engine

open List

/-! ### Equality of values -/

mutual

def sameJson : JsonValue → JsonValue → Bool
  | .null, .null => true
  | .bool a, .bool b => a == b
  | .number a, .number b => a == b
  | .string a, .string b => a == b
  | .array a, .array b => sameItems a b
  | .object a, .object b => sameEntries a b
  | _, _ => false

def sameItems : List JsonValue → List JsonValue → Bool
  | [], [] => true
  | a :: as, b :: bs => sameJson a b && sameItems as bs
  | _, _ => false

def sameEntries : List (JsString × JsonValue) → List (JsString × JsonValue) → Bool
  | [], [] => true
  | (k, a) :: as, (l, b) :: bs => k == l && sameJson a b && sameEntries as bs
  | _, _ => false

end

mutual

theorem sameJson_iff (a b : JsonValue) : sameJson a b = true ↔ a = b := by
  cases a <;> cases b <;> simp [sameJson, sameItems_iff, sameEntries_iff]

theorem sameItems_iff (as bs : List JsonValue) : sameItems as bs = true ↔ as = bs := by
  cases as <;> cases bs <;> simp [sameItems, sameJson_iff, sameItems_iff]

theorem sameEntries_iff (as bs : List (JsString × JsonValue)) : sameEntries as bs = true ↔ as = bs := by
  cases as <;> cases bs <;> simp [sameEntries, sameJson_iff, sameEntries_iff, Prod.ext_iff]

end

instance instDecidableEqJsonValue : DecidableEq JsonValue :=
  fun a b => decidable_of_iff _ (sameJson_iff a b)

/-! ### Objects -/

abbrev Entries := List (JsString × JsonValue)

/-- The last of the fields with the name. -/
def findField (fields : Entries) (name : JsString) : Option JsonValue :=
  (fields.reverse.find? (fun e => e.1 = name)).map Prod.snd

/-- The value in the last field with the name, if there is one. -/
def replaceLast (name : JsString) (value : JsonValue) : Entries → Option Entries
  | [] => none
  | e :: rest =>
      match replaceLast name value rest with
      | some rest => some (e :: rest)
      | none => if e.1 = name then some ((e.1, value) :: rest) else none

def replaceField (fields : Entries) (name : JsString) (value : JsonValue) : Entries :=
  (replaceLast name value fields).getD (fields ++ [(name, value)])

def removeField (fields : Entries) (name : JsString) : Entries := fields.filter (fun e => e.1 ≠ name)

/-! ### Kinds of fields -/

/-- What a typed view reads and writes: what it writes it can read, and what it
reads it writes back as it was. -/
class KnownField (α : Type) where
  decEq : DecidableEq α
  decode : JsonValue → Option α
  encode : α → JsonValue
  isSome_decode : ∀ v, (decode (encode v)).isSome = true
  encode_decode : ∀ j v, decode j = some v → encode v = j

/-- A number as its token. -/
structure LedgerNumber where
  lexeme : List Char
  deriving DecidableEq

inductive TimestampValue
  | text (s : JsString)
  | number (n : LedgerNumber)
  deriving DecidableEq

def decodeString : JsonValue → Option JsString
  | .string s => some s
  | _ => none

instance instKnownFieldJsString : KnownField JsString where
  decEq := inferInstance
  decode := decodeString
  encode := .string
  isSome_decode := fun _ => rfl
  encode_decode := by
    intro j v h
    cases j <;> cases h
    rfl

def decodeNumber : JsonValue → Option LedgerNumber
  | .number lexeme => some ⟨lexeme⟩
  | _ => none

instance instKnownFieldLedgerNumber : KnownField LedgerNumber where
  decEq := inferInstance
  decode := decodeNumber
  encode := fun n => .number n.lexeme
  isSome_decode := fun _ => rfl
  encode_decode := by
    intro j v h
    cases j <;> cases h
    rfl

def decodeBool : JsonValue → Option Bool
  | .bool b => some b
  | _ => none

instance instKnownFieldBool : KnownField Bool where
  decEq := inferInstance
  decode := decodeBool
  encode := .bool
  isSome_decode := fun _ => rfl
  encode_decode := by
    intro j v h
    cases j <;> cases h
    rfl

def decodeTimestamp : JsonValue → Option TimestampValue
  | .string s => some (.text s)
  | .number lexeme => some (.number ⟨lexeme⟩)
  | _ => none

def encodeTimestamp : TimestampValue → JsonValue
  | .text s => .string s
  | .number n => .number n.lexeme

instance instKnownFieldTimestampValue : KnownField TimestampValue where
  decEq := inferInstance
  decode := decodeTimestamp
  encode := encodeTimestamp
  isSome_decode := by
    intro v
    cases v <;> rfl
  encode_decode := by
    intro j v h
    cases j <;> cases h <;> rfl

section Nested

variable {α : Type} [KnownField α]

def decodeItems : List JsonValue → Option (List α)
  | [] => some []
  | j :: js =>
      match KnownField.decode j, decodeItems js with
      | some v, some vs => some (v :: vs)
      | _, _ => none

def decodeVec : JsonValue → Option (List α)
  | .array items => decodeItems items
  | _ => none

def encodeVec (vs : List α) : JsonValue := .array (vs.map KnownField.encode)

theorem isSome_decodeItems (vs : List α) :
    (decodeItems (vs.map KnownField.encode) : Option (List α)).isSome = true := by
  induction vs with
  | nil => rfl
  | cons v vs ih =>
    obtain ⟨v', hv⟩ := Option.isSome_iff_exists.mp (KnownField.isSome_decode v)
    obtain ⟨vs', hvs⟩ := Option.isSome_iff_exists.mp ih
    rw [map_cons, decodeItems, hv, hvs]
    rfl

theorem encode_decodeItems {js : List JsonValue} {vs : List α} (h : decodeItems js = some vs) :
    vs.map KnownField.encode = js := by
  induction js generalizing vs with
  | nil =>
    cases h
    rfl
  | cons j js ih =>
    rw [decodeItems] at h
    split at h
    · rename_i v vs' hv hvs
      cases h
      rw [map_cons, KnownField.encode_decode j v hv, ih hvs]
    · cases h

instance instKnownFieldVec : KnownField (List α) where
  decEq :=
    haveI := @KnownField.decEq α _
    inferInstance
  decode := decodeVec
  encode := encodeVec
  isSome_decode := isSome_decodeItems
  encode_decode := by
    intro j vs h
    cases j with
    | array items => exact congrArg JsonValue.array (encode_decodeItems h)
    | _ => cases h

/-- A kind that may be `null`. -/
def decodeNullable : JsonValue → Option (Option α)
  | .null => some none
  | j => (KnownField.decode j).map some

def encodeNullable : Option α → JsonValue
  | none => .null
  | some v => KnownField.encode v

instance instKnownFieldOption : KnownField (Option α) where
  decEq :=
    haveI := @KnownField.decEq α _
    inferInstance
  decode := decodeNullable
  encode := encodeNullable
  isSome_decode := by
    intro v
    cases v with
    | none => rfl
    | some v =>
      have hv := KnownField.isSome_decode v
      rw [encodeNullable, decodeNullable.eq_def]
      split
      · rfl
      · rw [Option.isSome_map]
        exact hv
  encode_decode := by
    intro j v h
    rw [decodeNullable.eq_def] at h
    split at h
    · cases h
      rfl
    · obtain ⟨w, hw, rfl⟩ := Option.map_eq_some_iff.mp h
      exact KnownField.encode_decode _ w hw

end Nested

/-! ### Record types -/

/-- One line of a record type: the field's name in the object, and its kind. -/
structure FieldSpec where
  wire : String
  kind : Type
  known : KnownField kind

/-- `FieldSpec.key`: the name as the object has it. -/
def FieldSpec.key (f : FieldSpec) : JsString := Program.units f.wire

/-- A record type, with fields of different names. -/
structure Schema where
  fields : List FieldSpec
  nodup : (fields.map FieldSpec.key).Nodup

namespace Schema

variable (s : Schema)

def spec (i : Fin s.fields.length) : FieldSpec := s.fields.get i

/-- The kind of a field. -/
abbrev Kind (i : Fin s.fields.length) : Type := (s.spec i).kind

instance instKnownFieldKind (i : Fin s.fields.length) : KnownField (s.Kind i) := (s.spec i).known

end Schema

/-- A value of a record type: the typed fields and the object it was read from. -/
structure Record (s : Schema) where
  typed : (i : Fin s.fields.length) → Option (s.Kind i)
  retained : Entries

namespace Record

variable {s : Schema}

/-- What an object says of a field. -/
def decoded (s : Schema) (fields : Entries) (i : Fin s.fields.length) : Option (s.Kind i) :=
  (findField fields (s.spec i).key).bind KnownField.decode

def fromFields (s : Schema) (original : Entries) : Record s := ⟨decoded s original, original⟩

/-- A typed field is written if it is not what the retained object says. -/
def writeField (r : Record s) (fields : Entries) (i : Fin s.fields.length) : Entries :=
  let previous := decoded s r.retained i
  haveI := @KnownField.decEq (s.Kind i) _
  if r.typed i ≠ previous then
    match r.typed i with
    | some value => replaceField fields (s.spec i).key (KnownField.encode value)
    | none => removeField fields (s.spec i).key
  else fields

def encodedFields (r : Record s) : Entries := (List.finRange s.fields.length).foldl r.writeField r.retained

/-- `record.field = value`. -/
def assign (r : Record s) (i : Fin s.fields.length) (value : Option (s.Kind i)) : Record s :=
  { r with typed := Function.update r.typed i value }

/-- Assign one raw field, with the typed edits so far. -/
def setField (r : Record s) (name : JsString) (value : JsonValue) : Record s :=
  fromFields s (replaceField r.encodedFields name value)

def toJson (r : Record s) : JsonValue := .object r.encodedFields

def fromJson (s : Schema) : JsonValue → Option (Record s)
  | .object fields => some (fromFields s fields)
  | _ => none

end Record


/-! ### What a write does to the other fields -/

section Entries

variable {name other : JsString} {value : JsonValue} {fields : Entries}

theorem replaceLast_eq_none : replaceLast name value fields = none ↔ ∀ e ∈ fields, e.1 ≠ name := by
  induction fields with
  | nil => exact iff_of_true rfl (fun _ h => (by cases h))
  | cons e rest ih =>
    rw [replaceLast, forall_mem_cons]
    cases hrest : replaceLast name value rest with
    | some rest' =>
      rw [hrest] at ih
      exact iff_of_false (fun h => (by cases h)) (fun h => (by cases ih.mpr h.2))
    | none => grind

/-- The write goes into the last field with the name. -/
theorem replaceLast_eq_some {fields' : Entries} (h : replaceLast name value fields = some fields') :
    ∃ before old after, fields = before ++ (name, old) :: after ∧ (∀ e ∈ after, e.1 ≠ name) ∧
      fields' = before ++ (name, value) :: after := by
  induction fields generalizing fields' with
  | nil => cases h
  | cons e rest ih =>
    rw [replaceLast] at h
    cases hrest : replaceLast name value rest with
    | some rest' => grind
    | none =>
      rw [hrest] at h
      dsimp only at h
      split at h
      · rename_i hname
        refine ⟨[], e.2, rest, ?_, replaceLast_eq_none.mp hrest, ?_⟩
        · rw [← hname]
          rfl
        · rw [← Option.some.inj h, hname]
          rfl
      · cases h

/-- The two cases of a write: in the place of the last field of the name, or
behind all fields. -/
theorem replaceField_cases (name : JsString) (value : JsonValue) (fields : Entries) :
    (∃ before old after, fields = before ++ (name, old) :: after ∧ (∀ e ∈ after, e.1 ≠ name) ∧
        replaceField fields name value = before ++ (name, value) :: after) ∨
      ((∀ e ∈ fields, e.1 ≠ name) ∧ replaceField fields name value = fields ++ [(name, value)]) := by
  rw [replaceField]
  cases h : replaceLast name value fields with
  | none => exact Or.inr ⟨replaceLast_eq_none.mp h, rfl⟩
  | some fields' =>
    obtain ⟨before, old, after, hfields, hafter, rfl⟩ := replaceLast_eq_some h
    exact Or.inl ⟨before, old, after, hfields, hafter, rfl⟩

theorem findField_append (fields after : Entries) (name : JsString) :
    findField (fields ++ after) name = (findField after name).or (findField fields name) := by
  rw [findField, findField, findField, reverse_append, List.find?_append, Option.map_or]

theorem findField_eq_none : findField fields name = none ↔ ∀ e ∈ fields, e.1 ≠ name := by
  simp [findField]

theorem findField_cons_self (after : Entries) (hafter : ∀ e ∈ after, e.1 ≠ name) :
    findField ((name, value) :: after) name = some value := by
  have hcons : (name, value) :: after = [(name, value)] ++ after := rfl
  rw [hcons, findField_append, findField_eq_none.mpr hafter]
  simp [findField]

theorem findField_cons_other {e : JsString × JsonValue} (after : Entries) (hne : e.1 ≠ name) :
    findField (e :: after) name = findField after name := by
  have hcons : e :: after = [e] ++ after := rfl
  have hnone : findField [e] name = none := findField_eq_none.mpr (by simpa using hne)
  rw [hcons, findField_append, hnone, Option.or_none]

theorem findField_replaceField_self : findField (replaceField fields name value) name = some value := by
  rcases replaceField_cases name value fields with ⟨before, old, after, -, hafter, hwrite⟩ | ⟨-, hwrite⟩
  · rw [hwrite, findField_append, findField_cons_self after hafter, Option.some_or]
  · rw [hwrite, findField_append, findField_cons_self [] (fun _ h => (by cases h)), Option.some_or]

theorem findField_replaceField_other (hne : name ≠ other) :
    findField (replaceField fields name value) other = findField fields other := by
  rcases replaceField_cases name value fields with
    ⟨before, old, after, rfl, -, hwrite⟩ | ⟨-, hwrite⟩
  · rw [hwrite, findField_append, findField_append, findField_cons_other _ hne, findField_cons_other _ hne]
  · rw [hwrite, findField_append, findField_cons_other _ hne]
    rfl

theorem findField_removeField_self : findField (removeField fields name) name = none := by
  refine findField_eq_none.mpr (fun e he => ?_)
  exact of_decide_eq_true (mem_filter.mp he).2

theorem findField_removeField_other (hne : name ≠ other) :
    findField (removeField fields name) other = findField fields other := by
  rw [findField, findField, removeField, ← filter_reverse, List.find?_filter]
  congr 2
  funext e
  by_cases h : e.1 = other
  · simp [h, hne.symm]
  · simp [h]

/-- A write of the value that is there changes nothing. -/
theorem replaceField_self (h : findField fields name = some value) :
    replaceField fields name value = fields := by
  rcases replaceField_cases name value fields with
    ⟨before, old, after, rfl, hafter, hwrite⟩ | ⟨hnone, -⟩
  · rw [findField_append, findField_cons_self after hafter, Option.some_or] at h
    rw [hwrite, Option.some.inj h]
  · rw [findField_eq_none.mpr hnone] at h
    cases h

theorem replaceField_split {old : JsonValue} (before : Entries) {after : Entries}
    (hafter : ∀ e ∈ after, e.1 ≠ name) :
    replaceField (before ++ (name, old) :: after) name value = before ++ (name, value) :: after := by
  have hlast : replaceLast name value (before ++ (name, old) :: after) =
      some (before ++ (name, value) :: after) := by
    induction before with
    | nil => rw [nil_append, replaceLast, replaceLast_eq_none.mpr hafter, if_pos rfl, nil_append]
    | cons e before ih => rw [cons_append, replaceLast, ih, cons_append]
  rw [replaceField, hlast, Option.getD_some]

/-- Fields of other names do not see the write. -/
theorem filter_replaceField_of_neg {p : JsString → Bool} (hp : p name = false) :
    (replaceField fields name value).filter (fun e => p e.1) = fields.filter (fun e => p e.1) := by
  rcases replaceField_cases name value fields with ⟨before, old, after, rfl, -, hwrite⟩ | ⟨-, hwrite⟩
  · simp_all
  · simp_all

theorem filter_replaceField_of_pos {p : JsString → Bool} (hp : p name = true) :
    (replaceField fields name value).filter (fun e => p e.1) =
      replaceField (fields.filter (fun e => p e.1)) name value := by
  rcases replaceField_cases name value fields with
    ⟨before, old, after, rfl, hafter, hwrite⟩ | ⟨hnone, hwrite⟩
  · rw [hwrite, filter_append, filter_append, filter_cons_of_pos (by simp [hp]),
      filter_cons_of_pos (by simp [hp]), replaceField_split]
    exact fun e he => hafter e (mem_of_mem_filter he)
  · rw [hwrite, filter_append, filter_cons_of_pos (by simp [hp]), filter_nil, replaceField,
      replaceLast_eq_none.mpr (fun e he => hnone e (mem_of_mem_filter he)), Option.getD_none]

theorem filter_removeField (p : JsString → Bool) : (removeField fields name).filter (fun e => p e.1) =
      removeField (fields.filter (fun e => p e.1)) name := by
  rw [removeField, removeField, filter_filter, filter_filter]
  refine filter_congr (fun e _ => ?_)
  rw [Bool.and_comm]

theorem filter_removeField_of_neg {p : JsString → Bool} (hp : p name = false) :
    (removeField fields name).filter (fun e => p e.1) = fields.filter (fun e => p e.1) := by
  rw [removeField, filter_filter]
  refine filter_congr (fun e _ => ?_)
  by_cases h : e.1 = name
  · simp [h, hp]
  · simp [h]

end Entries

/-! ### A record as a kind of field -/

namespace Record

variable {s : Schema}

/-- What was only read is written back as it was. -/
theorem encodedFields_fromFields (fields : Entries) : (fromFields s fields).encodedFields = fields := by
  have hwrite : ∀ (fields' : Entries) i, (fromFields s fields).writeField fields' i = fields' :=
    fun fields' i => if_neg (fun h => h rfl)
  rw [encodedFields]
  induction List.finRange s.fields.length with
  | nil => rfl
  | cons i is ih =>
    rw [foldl_cons, hwrite]
    exact ih

instance instDecidableEqRecord : DecidableEq (Record s) := fun a b =>
  haveI := fun i => @KnownField.decEq (s.Kind i) _
  decidable_of_iff ((∀ i, a.typed i = b.typed i) ∧ a.retained = b.retained) (by
    rw [Record.mk.injEq, funext_iff])

instance instKnownFieldRecord : KnownField (Record s) where
  decEq := inferInstance
  decode := fromJson s
  encode := toJson
  isSome_decode := fun _ => rfl
  encode_decode := by
    intro j r h
    cases j with
    | object fields =>
      cases h
      exact congrArg JsonValue.object (encodedFields_fromFields fields)
    | _ => cases h

end Record


end Plur1bus.Engine
