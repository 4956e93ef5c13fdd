import Plur1bus.Providers.Sse
import Mathlib.Data.List.DropRight

/-!
What a stream of events says, whatever its pieces. The reference reading cuts the text into lines,
and gives an event at each blank line before which data stands: the data lines since the blank line
before, the last event name of these, and the last id of all lines so far. The parser reads this and
nothing else, unless a limit stops it.
-/

namespace Plur1bus.Providers.Sse

open Program

/-! ### The reference reading -/

/-- The value that a line gives to a field. -/
def valueIn (name : String) (line : List Char) : Option (List Char) :=
  if line = [] ∨ line.head? = some ':' then none
  else if fieldOf line = name.toList then some (valueOf line)
  else none

def valuesOf (name : String) (lines : List (List Char)) : List (List Char) := lines.filterMap (valueIn name)

/-- The lines since the last blank one. -/
def sinceBlank (before : List (List Char)) : List (List Char) := before.rtakeWhile fun line => decide (line ≠ [])

/-- The last id that can be one. -/
def lastId (before : List (List Char)) : Option (List Char) :=
  ((valuesOf "id" before).filter fun value => Char.ofNat 0 ∉ value).getLast?

/-- The event that a blank line closes. -/
def eventAt (before : List (List Char)) : Option SseEvent :=
  if valuesOf "data" (sinceBlank before) = [] then none
  else some ⟨(valuesOf "event" (sinceBlank before)).getLast?,
    ['\n'].intercalate (valuesOf "data" (sinceBlank before)), lastId before⟩

def eventsAfter : List (List Char) → List (List Char) → List SseEvent
  | _, [] => []
  | before, line :: lines =>
    (if line = [] then (eventAt before).toList else []) ++ eventsAfter (before ++ [line]) lines

/-- The events of a text. What stands after its last line end closes none. -/
def reference (text : List Char) : List SseEvent := eventsAfter [] (cutLines true [] text).1

/-! ### Lines -/

def Fields.lines (maxEventBytes : ℕ) : Fields → List (List Char) → Except String (List SseEvent × Fields)
  | s, [] => .ok ([], s)
  | s, line :: lines =>
    match s.line maxEventBytes line with
    | .error e => .error e
    | .ok (ev, s) => (Fields.lines maxEventBytes s lines).map fun r => (ev.toList ++ r.1, r.2)

variable {limit : ℕ} {s : Fields}

theorem lines_append {as bs : List (List Char)} : s.lines limit (as ++ bs) = match s.lines limit as with
      | .error e => .error e
      | .ok (evs, s') => (s'.lines limit bs).map fun r => (evs ++ r.1, r.2) := by
  induction as generalizing s with
  | nil =>
    show s.lines limit bs = (s.lines limit bs).map fun r => ([] ++ r.1, r.2)
    cases s.lines limit bs with
    | error e => rfl
    | ok r => rfl
  | cons line as ih =>
    rw [List.cons_append, Fields.lines, Fields.lines]
    cases s.line limit line with
    | error e => rfl
    | ok r =>
      dsimp only
      rw [ih]
      cases r.2.lines limit as with
      | error e => rfl
      | ok r' =>
        dsimp only
        cases hbs : r'.2.lines limit bs with
        | error e => simp only [Except.map, hbs]
        | ok r'' => simp only [Except.map, hbs, List.append_assoc]

/-- The fields hold what the lines so far say. -/
structure Fields.Reads (s : Fields) (before : List (List Char)) : Prop where
  data : s.data = valuesOf "data" (sinceBlank before)
  event : s.event = (valuesOf "event" (sinceBlank before)).getLast?
  id : s.id = lastId before

theorem sinceBlank_blank (before : List (List Char)) : sinceBlank (before ++ [[]]) = [] := by
  simp [sinceBlank]

variable {line : List Char}

theorem sinceBlank_snoc (h : line ≠ []) (before : List (List Char)) :
    sinceBlank (before ++ [line]) = sinceBlank before ++ [line] := by
  simp [sinceBlank, h]

theorem valuesOf_snoc (name : String) (before : List (List Char)) (line : List Char) :
    valuesOf name (before ++ [line]) = valuesOf name before ++ (valueIn name line).toList := by
  rw [valuesOf, valuesOf, List.filterMap_append]
  cases h : valueIn name line with
  | none => simp [h]
  | some v => simp [h]

variable {name : String}

theorem valueIn_of_named (hne : line ≠ []) (hcomment : line.head? ≠ some ':')
    (hfield : fieldOf line = name.toList) : valueIn name line = some (valueOf line) := by
  have hno : ¬ (line = [] ∨ line.head? = some ':') := fun h => h.elim hne hcomment
  rw [valueIn, if_neg hno, if_pos hfield]

theorem valueIn_of_other (h : line = [] ∨ line.head? = some ':' ∨ fieldOf line ≠ name.toList) :
    valueIn name line = none := by
  unfold valueIn
  split
  · rfl
  next hno =>
    rw [not_or] at hno
    exact if_neg (((h.resolve_left hno.1).resolve_left hno.2))

theorem lastId_snoc (before : List (List Char)) (line : List Char) : lastId (before ++ [line]) =
      (((valueIn "id" line).filter fun value => Char.ofNat 0 ∉ value).or (lastId before)) := by
  unfold lastId
  rw [valuesOf_snoc, List.filter_append, List.getLast?_append]
  cases valueIn "id" line with
  | none => rfl
  | some v =>
    by_cases hv : Char.ofNat 0 ∈ v
    · simp [hv, Option.filter_some]
    · simp [hv, Option.filter_some]

/-- The fields after a line that is not blank. -/
theorem Fields.Reads.snoc {s s' : Fields} {before : List (List Char)} {line : List Char} (hs : s.Reads before)
    (hne : line ≠ []) (hdata : s'.data = s.data ++ (valueIn "data" line).toList)
    (hevent : s'.event = (valueIn "event" line).or s.event)
    (hid : s'.id = ((valueIn "id" line).filter fun value => Char.ofNat 0 ∉ value).or s.id) :
    s'.Reads (before ++ [line]) := by
  refine ⟨?_, ?_, ?_⟩
  · rw [hdata, hs.data, sinceBlank_snoc hne, valuesOf_snoc]
  · rw [hevent, hs.event, sinceBlank_snoc hne, valuesOf_snoc, List.getLast?_append]
    cases valueIn "event" line with
    | none => rfl
    | some v => rfl
  · rw [hid, hs.id, lastId_snoc]

variable {s' : Fields} {before : List (List Char)} {ev : Option SseEvent}

/-- A line does what the reference reading says of it. -/
theorem line_reads (hs : s.Reads before) (h : s.line limit line = .ok (ev, s')) :
    ev = (if line = [] then eventAt before else none) ∧ s'.Reads (before ++ [line]) := by
  unfold Fields.line at h
  split at h
  next hblank =>
    subst hblank
    cases h
    refine ⟨?_, ?_, ?_, ?_⟩
    · rw [if_pos rfl, eventAt, hs.data, hs.event, hs.id]
    · rw [sinceBlank_blank]
      rfl
    · rw [sinceBlank_blank]
      rfl
    · rw [lastId_snoc, valueIn_of_other (.inl rfl), hs.id]
      rfl
  next hne =>
    rw [if_neg hne]
    split at h
    next hcomment =>
      cases h
      have hno : ∀ name, valueIn name line = none := fun _ => valueIn_of_other (.inr (.inl hcomment))
      refine ⟨rfl, hs.snoc hne ?_ ?_ ?_⟩
      · simp [hno]
      · simp [hno]
      · simp [hno]
    next hcomment =>
      have hyes : ∀ name : String, fieldOf line = name.toList → valueIn name line = some (valueOf line) :=
        fun _ => valueIn_of_named hne hcomment
      have hno : ∀ name : String, fieldOf line ≠ name.toList → valueIn name line = none :=
        fun _ h => valueIn_of_other (.inr (.inr h))
      dsimp only at h
      split at h
      next hdata =>
        split at h
        · cases h
        · cases h
          have hevent : fieldOf line ≠ "event".toList := by rw [hdata]; decide
          have hid : fieldOf line ≠ "id".toList := by rw [hdata]; decide
          refine ⟨rfl, hs.snoc hne ?_ ?_ ?_⟩
          · simp [hyes _ hdata]
          · simp [hno _ hevent]
          · simp [hno _ hid]
      next hdata =>
        split at h
        next hevent =>
          cases h
          have hid : fieldOf line ≠ "id".toList := by rw [hevent]; decide
          refine ⟨rfl, hs.snoc hne ?_ ?_ ?_⟩
          · simp [hno _ hdata]
          · simp [hyes _ hevent]
          · simp [hno _ hid]
        next hevent =>
          split at h
          next hid =>
            cases h
            refine ⟨rfl, hs.snoc hne ?_ ?_ ?_⟩
            · simp [hno _ hdata]
            · simp [hno _ hevent]
            · simp [hyes _ hid.1, hid.2, Option.filter_some]
          next hid =>
            cases h
            refine ⟨rfl, hs.snoc hne ?_ ?_ ?_⟩
            · simp [hno _ hdata]
            · simp [hno _ hevent]
            · by_cases hfield : fieldOf line = "id".toList
              · grind
              · simp [hno _ hfield]

/-- The events of some lines. -/
theorem lines_reads {lines : List (List Char)} {evs : List SseEvent} (hs : s.Reads before)
    (h : s.lines limit lines = .ok (evs, s')) : evs = eventsAfter before lines := by
  induction lines generalizing s before evs with
  | nil =>
    cases h
    rfl
  | cons line lines ih =>
    rw [Fields.lines] at h
    cases hline : s.line limit line with
    | error e =>
      rw [hline] at h
      cases h
    | ok r =>
      obtain ⟨ev, s₁⟩ := r
      rw [hline] at h
      dsimp only at h
      cases hrest : s₁.lines limit lines with
      | error e =>
        rw [hrest] at h
        cases h
      | ok r =>
        rw [hrest] at h
        cases h
        obtain ⟨hev, hreads⟩ := line_reads hs hline
        rw [eventsAfter, ← ih hreads hrest, hev]
        split
        · rfl
        · rfl

theorem line_not_blank (hne : line ≠ []) (h : s.line limit line = .ok (ev, s')) : ev = none := by
  unfold Fields.line at h
  rw [if_neg hne] at h
  dsimp only at h
  repeat' split at h
  all_goals cases h
  all_goals rfl

theorem line_error {e : String} (h : s.line limit line = .error e) : e = eventExceeds limit := by
  unfold Fields.line at h
  dsimp only at h
  repeat' split at h
  all_goals cases h
  rfl

theorem lines_error {lines : List (List Char)} {e : String} (h : s.lines limit lines = .error e) :
    e = eventExceeds limit := by
  induction lines generalizing s with
  | nil => cases h
  | cons line lines ih =>
    rw [Fields.lines] at h
    cases hline : s.line limit line with
    | error e' =>
      rw [hline] at h
      cases h
      exact line_error hline
    | ok r =>
      rw [hline] at h
      dsimp only at h
      cases hrest : r.2.lines limit lines with
      | error e' =>
        rw [hrest] at h
        cases h
        exact ih hrest
      | ok r' =>
        rw [hrest] at h
        cases h

end Plur1bus.Providers.Sse
