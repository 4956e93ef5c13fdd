import Plur1bus.Engine.LedgerTypes

/-!
Typed edits are lossless. A field of the written object depends on its own
typed value alone, and on that only through what it encodes to, so an edit is
read back as it was made and leaves the rest of the object as it was.
-/

namespace Plur1bus.Engine.Record

open List

variable {s : Schema}

/-- Equal as JSON. -/
def Alike {α : Type} [KnownField α] (a b : Option α) : Prop :=
  a.map KnownField.encode = b.map KnownField.encode

theorem Alike.none {α : Type} [KnownField α] {a : Option α} (h : Alike a none) : a = none :=
  Option.map_eq_none_iff.mp h

/-- What is read from a written value is written again as it was. -/
theorem alike_decode {α : Type} [KnownField α] (v : α) :
    Alike (KnownField.decode (KnownField.encode v)) (some v) := by
  obtain ⟨v', hv⟩ := Option.isSome_iff_exists.mp (KnownField.isSome_decode v)
  rw [hv]
  exact congrArg some (KnownField.encode_decode _ v' hv)

theorem key_ne {i j : Fin s.fields.length} (hne : i ≠ j) : (s.spec i).key ≠ (s.spec j).key := by
  intro heq
  refine hne (Fin.ext ?_)
  have hi : i.1 < (s.fields.map FieldSpec.key).length := by rw [length_map]; exact i.2
  have hj : j.1 < (s.fields.map FieldSpec.key).length := by rw [length_map]; exact j.2
  refine (@List.Nodup.getElem_inj_iff _ _ s.nodup i.1 hi j.1 hj).mp ?_
  rw [getElem_map, getElem_map]
  exact heq

section Write

variable {r r' : Record s} {fields : Entries} {i j : Fin s.fields.length}

theorem writeField_same (h : r.typed i = decoded s r.retained i) : r.writeField fields i = fields :=
  if_neg (not_not.mpr h)

theorem writeField_some {v : s.Kind i} (hv : r.typed i = some v)
    (h : r.typed i ≠ decoded s r.retained i) :
    r.writeField fields i = replaceField fields (s.spec i).key (KnownField.encode v) := by
  rw [writeField, if_pos h, hv]

theorem writeField_none (hv : r.typed i = none) (h : r.typed i ≠ decoded s r.retained i) :
    r.writeField fields i = removeField fields (s.spec i).key := by
  rw [writeField, if_pos h, hv]

/-- The three things a write can do. -/
theorem writeField_cases (r : Record s) (fields : Entries) (i : Fin s.fields.length) :
    (r.typed i = decoded s r.retained i ∧ r.writeField fields i = fields) ∨ (∃ v, r.typed i = some v ∧
        r.writeField fields i = replaceField fields (s.spec i).key (KnownField.encode v)) ∨
      (r.typed i = none ∧ r.writeField fields i = removeField fields (s.spec i).key) := by
  have := @KnownField.decEq (s.Kind i) _
  by_cases h : r.typed i = decoded s r.retained i
  · exact Or.inl ⟨h, writeField_same h⟩
  · cases hv : r.typed i with
    | none => exact Or.inr (Or.inr ⟨rfl, writeField_none hv h⟩)
    | some v => exact Or.inr (Or.inl ⟨v, rfl, writeField_some hv h⟩)

theorem findField_writeField_other (hne : i ≠ j) :
    findField (r.writeField fields i) (s.spec j).key = findField fields (s.spec j).key := by
  rcases writeField_cases r fields i with ⟨-, hwrite⟩ | ⟨v, -, hwrite⟩ | ⟨-, hwrite⟩
  · rw [hwrite]
  · rw [hwrite, findField_replaceField_other (key_ne hne)]
  · rw [hwrite, findField_removeField_other (key_ne hne)]

/-- The field is read back as it is typed. -/
theorem decoded_writeField_self
    (hsame : findField fields (s.spec i).key = findField r.retained (s.spec i).key) :
    Alike (decoded s (r.writeField fields i) i) (r.typed i) := by
  rcases writeField_cases r fields i with ⟨heq, hwrite⟩ | ⟨v, hv, hwrite⟩ | ⟨hv, hwrite⟩
  · rw [hwrite, heq, decoded, decoded, hsame]
    rfl
  · rw [hwrite, hv, decoded, findField_replaceField_self]
    exact alike_decode v
  · rw [hwrite, hv, decoded, findField_removeField_self]
    rfl

/-- What a field writes depends on what its value encodes to. -/
theorem writeField_alike (hretained : r'.retained = r.retained) (halike : Alike (r'.typed i) (r.typed i))
    (hsame : findField fields (s.spec i).key = findField r.retained (s.spec i).key) :
    r'.writeField fields i = r.writeField fields i := by
  -- a value that encodes to what is there already writes nothing new
  have hquiet : ∀ {q : Record s}, q.retained = r.retained → ∀ v, q.typed i = some v →
      q.writeField fields i = replaceField fields (s.spec i).key (KnownField.encode v) := by
    intro q hq v hv
    rcases writeField_cases q fields i with ⟨heq, hwrite⟩ | ⟨v', hv', hwrite⟩ | ⟨hv', -⟩
    · rw [hwrite, replaceField_self]
      rw [hv, hq, decoded] at heq
      obtain ⟨value, hfind, hdecode⟩ := Option.bind_eq_some_iff.mp heq.symm
      rw [hsame, hfind, KnownField.encode_decode value v hdecode]
    · rw [hwrite, Option.some.inj (hv.symm.trans hv')]
    · rw [hv] at hv'
      cases hv'
  cases hv : r.typed i with
  | none =>
    rw [hv] at halike
    have hnone := halike.none
    rw [writeField, writeField, hretained, hv, hnone]
  | some v =>
    rw [hv] at halike
    obtain ⟨v', hv', hencode⟩ := Option.map_eq_some_iff.mp halike
    rw [hquiet hretained v' hv', hquiet rfl v hv, hencode]

/-- Fields of other names do not see the write. -/
theorem filter_writeField (p : JsString → Bool) : (r.writeField fields i).filter (fun e => p e.1) =
      if p (s.spec i).key then r.writeField (fields.filter (fun e => p e.1)) i
      else fields.filter (fun e => p e.1) := by
  have := @KnownField.decEq (s.Kind i) _
  by_cases h : r.typed i = decoded s r.retained i
  · rw [writeField_same h, writeField_same h, ite_self]
  · cases hp : p (s.spec i).key with
    | false =>
      rw [if_neg (by simp)]
      cases hv : r.typed i with
      | none => rw [writeField_none hv h, filter_removeField_of_neg hp]
      | some v => rw [writeField_some hv h, filter_replaceField_of_neg hp]
    | true =>
      rw [if_pos rfl]
      cases hv : r.typed i with
      | none => rw [writeField_none hv h, writeField_none hv h, filter_removeField]
      | some v => rw [writeField_some hv h, writeField_some hv h, filter_replaceField_of_pos hp]

end Write

/-! ### The written object -/

section Fold

variable {r r' : Record s}

theorem findField_foldl_other {j : Fin s.fields.length} (is : List (Fin s.fields.length)) (hj : j ∉ is)
    (fields : Entries) :
    findField (is.foldl r.writeField fields) (s.spec j).key = findField fields (s.spec j).key := by
  induction is generalizing fields with
  | nil => rfl
  | cons i is ih =>
    rw [foldl_cons, ih (fun h => hj (mem_cons_of_mem _ h)),
      findField_writeField_other (fun h => hj (by rw [h]; exact mem_cons_self))]

/-- The place of a field among the writes. -/
theorem finRange_split (i : Fin s.fields.length) : ∃ before after,
    List.finRange s.fields.length = before ++ i :: after ∧ i ∉ before ∧ i ∉ after := by
  obtain ⟨before, after, hsplit⟩ := append_of_mem (mem_finRange i)
  have hnodup := nodup_finRange s.fields.length
  rw [hsplit] at hnodup
  obtain ⟨-, hafter, hbefore⟩ := nodup_append.mp hnodup
  refine ⟨before, after, hsplit, fun h => hbefore i h i mem_cons_self rfl, ?_⟩
  exact (nodup_cons.mp hafter).1

/-- Every field is read back from the written object as it is typed. -/
theorem decoded_encodedFields (r : Record s) (i : Fin s.fields.length) :
    Alike (decoded s r.encodedFields i) (r.typed i) := by
  obtain ⟨before, after, hsplit, hbefore, hafter⟩ := finRange_split i
  rw [encodedFields, hsplit, foldl_append, foldl_cons, decoded, findField_foldl_other after hafter]
  exact decoded_writeField_self (findField_foldl_other before hbefore _)

theorem foldl_writeField_congr (hretained : r'.retained = r.retained) {is : List (Fin s.fields.length)}
    (htyped : ∀ j ∈ is, r'.typed j = r.typed j) (fields : Entries) :
    is.foldl r'.writeField fields = is.foldl r.writeField fields := by
  induction is generalizing fields with
  | nil => rfl
  | cons j is ih =>
    have hj : r'.writeField fields j = r.writeField fields j := by
      rw [writeField, writeField, htyped j mem_cons_self, hretained]
    rw [foldl_cons, foldl_cons, hj]
    exact ih (fun k hk => htyped k (mem_cons_of_mem _ hk)) _

/-- Records that differ in one field, and there alike, write the same object. -/
theorem encodedFields_alike (hretained : r'.retained = r.retained) {i : Fin s.fields.length}
    (htyped : ∀ j ≠ i, r'.typed j = r.typed j) (halike : Alike (r'.typed i) (r.typed i)) :
    r'.encodedFields = r.encodedFields := by
  obtain ⟨before, after, hsplit, hbefore, hafter⟩ := finRange_split i
  have hother : ∀ is : List (Fin s.fields.length), i ∉ is → ∀ j ∈ is, r'.typed j = r.typed j :=
    fun is hi j hj => htyped j (fun heq => hi (heq ▸ hj))
  rw [encodedFields, encodedFields, hsplit, foldl_append, foldl_append, foldl_cons,
    foldl_cons, hretained, foldl_writeField_congr hretained (hother before hbefore),
    writeField_alike hretained halike (findField_foldl_other before hbefore _),
    foldl_writeField_congr hretained (hother after hafter)]

/-- Records that differ in one field write the same beside it. -/
theorem filter_encodedFields (hretained : r'.retained = r.retained) {i : Fin s.fields.length}
    (htyped : ∀ j ≠ i, r'.typed j = r.typed j) :
    r'.encodedFields.filter (fun e => e.1 ≠ (s.spec i).key) =
      r.encodedFields.filter (fun e => e.1 ≠ (s.spec i).key) := by
  have hfold : ∀ (is : List (Fin s.fields.length)) (fields fields' : Entries),
      fields'.filter (fun e => e.1 ≠ (s.spec i).key) = fields.filter (fun e => e.1 ≠ (s.spec i).key) →
      (is.foldl r'.writeField fields').filter (fun e => e.1 ≠ (s.spec i).key) =
        (is.foldl r.writeField fields).filter (fun e => e.1 ≠ (s.spec i).key) := by
    intro is
    induction is with
    | nil => exact fun _ _ h => h
    | cons j is ih =>
      intro fields fields' h
      refine ih _ _ ?_
      have hfilter := fun (q : Record s) (fields : Entries) =>
        @filter_writeField s q fields j (fun key => decide (key ≠ (s.spec i).key))
      rw [hfilter, hfilter, h]
      by_cases hj : j = i
      · subst hj
        simp
      · rw [writeField, writeField, htyped j hj, hretained]
  rw [encodedFields, encodedFields, hretained]
  exact hfold _ _ _ rfl

end Fold

theorem assign_typed_self (r : Record s) (i : Fin s.fields.length) (value : Option (s.Kind i)) :
    (r.assign i value).typed i = value := by
  simp [assign]

theorem assign_typed_other (r : Record s) {i j : Fin s.fields.length} (value : Option (s.Kind i))
    (hne : j ≠ i) : (r.assign i value).typed j = r.typed j := by
  simp [assign, hne]

/-- A typed assignment: the field and its new value. -/
abbrev Edit (s : Schema) := Σ i : Fin s.fields.length, Option (s.Kind i)

def edited (r : Record s) (edits : List (Edit s)) : Record s := edits.foldl (fun r e => r.assign e.1 e.2) r

/-- For every record type, every object and every sequence of edits: what was
only read is written back exactly; a field set to a value or to nothing is read
back so, the other typed fields as they were, and the other fields of the object
are the same and in the same order; and a value equal as JSON to the one held
changes nothing. -/
theorem typed_edits_lossless (s : Schema) (o : Entries) (edits : List (Edit s)) :
    let r := (fromFields s o).edited edits
    ((fromJson s (.object o)).map toJson = some (.object o)) ∧
    (∀ i (value : Option (s.Kind i)), let written := (r.assign i value).encodedFields
      ∃ back, fromJson s (r.assign i value).toJson = some back ∧
        Alike (back.typed i) value ∧ (value = none → back.typed i = none) ∧
        (∀ j ≠ i, Alike (back.typed j) (r.typed j)) ∧
        written.filter (fun e => e.1 ≠ (s.spec i).key) =
          r.encodedFields.filter (fun e => e.1 ≠ (s.spec i).key)) ∧
    ∀ i (value : Option (s.Kind i)), Alike value (r.typed i) → (r.assign i value).toJson = r.toJson := by
  intro r
  refine ⟨?_, fun i value => ?_, fun i value halike => ?_⟩
  · exact congrArg (fun fields => some (JsonValue.object fields)) (encodedFields_fromFields o)
  · have hread := decoded_encodedFields (r.assign i value)
    refine ⟨fromFields s (r.assign i value).encodedFields, rfl, ?_, fun hnone => ?_, fun j hne => ?_,
      @filter_encodedFields s r (r.assign i value) rfl i
        (fun j hne => r.assign_typed_other value hne)⟩
    · have hi := hread i
      rw [assign_typed_self] at hi
      exact hi
    · subst hnone
      have hi := hread i
      rw [assign_typed_self] at hi
      exact hi.none
    · have hj := hread j
      rw [r.assign_typed_other value hne] at hj
      exact hj
  · refine congrArg JsonValue.object (encodedFields_alike (Eq.refl r.retained)
      (fun j hne => r.assign_typed_other value hne) ?_)
    rw [assign_typed_self]
    exact halike

end Plur1bus.Engine.Record
