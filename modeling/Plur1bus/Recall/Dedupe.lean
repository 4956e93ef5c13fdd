import Plur1bus.Recall.Candidate
import Mathlib.Data.List.Infix
import Mathlib.Data.List.Perm.Subperm
import Mathlib.Logic.Function.Basic

/-!
Dedupe between the results. The rows are taken in order: a part of a whole that
is kept goes, a whole takes the place of its kept parts, a row of a full group
or one much like a kept row goes, and the rest is kept until there are enough.

The rows are of any type that shows itself as a candidate, so that a row can
carry the place it had in the input. How alike two texts are is a parameter,
as is the threshold's type.
-/

namespace Plur1bus.Recall

def MAX_PER_GROUP : ℤ := 2

/-- The `||` of the ids, trimmed. -/
def chunkGroupKey (row : RecallCandidate) : Option String :=
  let raw := if row.chunkGroupId ≠ "" then row.chunkGroupId else row.sourceTurnId
  let trimmed := strTrim raw
  if trimmed = "" then none else some trimmed

def turnOf (row : RecallCandidate) : Option String :=
  let turn := strTrim row.sourceTurnId
  if turn = "" then none else some turn

def isChunkPart (row : RecallCandidate) : Bool :=
  decide (strTrim row.chunkGroupId ≠ "") && (turnOf row).isSome

def isWholeOf (whole part : RecallCandidate) : Bool :=
  !isChunkPart whole && isChunkPart part && turnOf whole == turnOf part

def dedupeText (row : RecallCandidate) : String := if row.summary = "" then row.text else row.summary

/-- The counters of a map; a key that is not there counts as zero. -/
abbrev Groups := String → ℤ

variable {ρ S : Type} (view : ρ → RecallCandidate) [LE S] [DecidableLE S]
  (jaccardSimilarity : String → String → S) (threshold : S)

def adjustGroup (groups : Groups) (row : RecallCandidate) (delta : ℤ) : Groups :=
  match chunkGroupKey row with
  | none => groups
  | some key => Function.update groups key (groups key + delta)

def groupFull (groups : Groups) (row : RecallCandidate) : Bool :=
  (chunkGroupKey row).any (fun key => groups key ≥ MAX_PER_GROUP)

def nearDuplicate (out : List ρ) (row : ρ) : Bool := out.any (fun kept =>
    decide (threshold ≤ jaccardSimilarity (dedupeText (view row)) (dedupeText (view kept))) &&
      !hasDisjointValidityWindows (view row) (view kept))

/-- The rows kept so far and the counters. -/
structure Kept (ρ : Type) where
  out : List ρ
  groups : Groups

def Kept.empty : Kept ρ := ⟨[], fun _ => 0⟩

/-- A whole goes where the first of its parts was, if one is kept. -/
def replaceParts (st : Kept ρ) (row : ρ) : Option (Kept ρ) :=
  let parts := st.out.filter (fun kept => isWholeOf (view row) (view kept))
  if parts.isEmpty then none
  else
    let position := st.out.findIdx (fun kept => isWholeOf (view row) (view kept))
    let groups := parts.foldl (fun groups part => adjustGroup groups (view part) (-1)) st.groups
    let rest := st.out.filter (fun kept => !isWholeOf (view row) (view kept))
    some ⟨rest.insertIdx (min position rest.length) row, adjustGroup groups (view row) 1⟩

/-- A row is taken up: `none` for those that go on to the next row at once. -/
def afterRow (st : Kept ρ) (row : ρ) : Kept ρ :=
  if nearDuplicate view jaccardSimilarity threshold st.out row then st
  else ⟨st.out ++ [row], adjustGroup st.groups (view row) 1⟩

def dedupLoop (maxOut : ℕ) : List ρ → Kept ρ → Kept ρ
  | [], st => st
  | row :: rows, st =>
      if st.out.any (fun kept => isWholeOf (view kept) (view row)) then dedupLoop maxOut rows st
      else match replaceParts view st row with
        | some st => dedupLoop maxOut rows st
        | none =>
            if groupFull st.groups (view row) then dedupLoop maxOut rows st
            else
              let st := afterRow view jaccardSimilarity threshold st row
              if st.out.length ≥ maxOut then st else dedupLoop maxOut rows st

/-- What the loop has when it has seen these rows. -/
def dedupRun (maxOut : ℕ) (results : List ρ) : Kept ρ :=
  if maxOut = 0 then .empty
  else dedupLoop view jaccardSimilarity threshold maxOut results .empty

def dedupResults (results : List RecallCandidate) (maxOut : ℕ) : List RecallCandidate :=
  (dedupRun id jaccardSimilarity threshold maxOut results).out

end Plur1bus.Recall
