import Plur1bus.Recall.Access
import Mathlib.Data.List.Sort

/-!
The rows of the memory table: when one may surface, and what its columns add to
a score.

The 64-bit floats are a type with the operations the stages use. Nothing is
assumed of them: not that they are ordered, nor how they round.
-/

namespace Plur1bus.Recall

/-! ### Floats -/

class Double (F : Type) extends Add F, Sub F, Mul F, Div F, Min F, Max F where
  /-- The double nearest to a number. -/
  ofRat : ℚ → F
  nan : F
  sqrt : F → F
  isNaN : F → Bool
  isFinite : F → Bool
  /-- `a < b`, which is false where one of them is no number. -/
  lt : F → F → Bool
  /-- `a == b`. -/
  eq : F → F → Bool
  totalCmp : F → F → Ordering
  /-- `as i64`. -/
  toInt : F → ℤ
  /-- With three decimals. -/
  toFixed : F → String

section Floats

variable {F α : Type} [Double F]

/-- A literal of the source, or an integer converted to a double. -/
def lit (q : ℚ) : F := Double.ofRat q

/-- `sort_by(|l, r| r.total_cmp(l))`, which is stable. -/
def descending (key : α → F) (l : List α) : List α :=
  l.insertionSort (fun a b => Double.totalCmp (key b) (key a) ≠ .gt)

theorem perm_descending (key : α → F) (l : List α) : (descending key l).Perm l :=
  List.perm_insertionSort _ l

theorem mem_descending {key : α → F} {l : List α} {a : α} : a ∈ descending key l ↔ a ∈ l :=
  (perm_descending key l).mem_iff

/-- `nonzero`. -/
def nonzero (value fallback : F) : F :=
  if Double.eq value (lit 0) || Double.isNaN value then fallback else value

/-- `f64::clamp`. -/
def clampDouble (value low high : F) : F :=
  let value := if Double.lt value low then low else value
  if Double.lt high value then high else value

def cosineSimilarity (left right : List F) : F :=
  if left.length ≠ right.length then lit 0
  else
    let sums := (left.zip right).foldl
      (fun sums pair => (sums.1 + pair.1 * pair.2, sums.2.1 + pair.1 * pair.1,
        sums.2.2 + pair.2 * pair.2)) ((lit 0, lit 0, lit 0) : F × F × F)
    let denom := Double.sqrt sums.2.1 * Double.sqrt sums.2.2
    if Double.eq denom (lit 0) then lit 0 else sums.1 / denom

end Floats

/-- Rationals, with `none` for what is not finite: exact where no rounding occurs. -/
instance instDoubleF64 : Double F64 where
  add a b := a.bind fun x => b.map (x + ·)
  sub a b := a.bind fun x => b.map (x - ·)
  mul a b := a.bind fun x => b.map (x * ·)
  div a b := a.bind fun x => b.map (x / ·)
  min a b := (a.bind fun x => b.map (min x)).orElse fun _ => a.orElse fun _ => b
  max a b := (a.bind fun x => b.map (max x)).orElse fun _ => a.orElse fun _ => b
  ofRat := some
  nan := none
  sqrt a := a.map fun x => (x.num.toNat.sqrt : ℚ) / x.den.sqrt
  isNaN := Option.isNone
  isFinite := Option.isSome
  lt a b := (a.bind fun x => b.map fun y => decide (x < y)).getD false
  eq a b := (a.bind fun x => b.map fun y => decide (x = y)).getD false
  totalCmp a b := ((a.bind fun x => b.map (compare x)).getD (compare b.isSome a.isSome))
  toInt a := (a.map Rat.floor).getD 0
  toFixed a := ((a.map fun x => Rat.floor (x * 1000)).map toString).getD "NaN"

/-! ### Rows -/

/-- A number of a row, as `as_f64` and `as_i64` read it. -/
structure RowNumber (F : Type) where
  asF64 : Option F
  asI64 : Option ℤ
  deriving DecidableEq

structure MemoryRow (F : Type) where
  id : String
  text : String
  summary : String
  typeName : String
  vector : List F
  createdAt : RowNumber F
  expiresAt : RowNumber F
  validFrom : RowNumber F
  validUntil : RowNumber F
  memoryStrength : RowNumber F
  status : String
  epistemicStatus : String
  scope : String
  agentId : String
  storedBy : String
  workspaceId : String
  workspaceKey : String
  ownerUserId : String
  deriving DecidableEq

variable {F : Type} [Double F]

/-- The ownership columns of a row; a row can always be serialised. -/
def AclMemory.fromRow (row : MemoryRow F) : Option AclMemory := some
    { id := row.id
      scope := row.scope
      agentId := row.agentId
      storedBy := row.storedBy
      workspaceId := row.workspaceId
      workspaceKey := row.workspaceKey
      ownerUserId := row.ownerUserId
      typeName := row.typeName }

/-- Whether the request may read the row. -/
def allowed (p : Platform) (row : MemoryRow F) (ctx : RequestContext) : Except Rule Unit :=
  match AclMemory.fromRow row with
  | none => deny "acl.no_memory"
  | some memory => checkAccess p (some (.fromContext ctx)) (some memory)

def number (value : RowNumber F) : F := value.asF64.getD (lit 0)

def epoch (value : RowNumber F) : ℤ := value.asI64.getD (Double.toInt (number value))

/-! ### Scores -/

def distanceToScore (distance : F) : F := lit 1 / (lit 1 + distance)

def epistemicScoreBoost (raw : String) : F :=
  if raw = "trusted" then lit 0.25
  else if raw = "corroborated" then lit 0.15
  else if raw = "observed" then lit 0
  else if raw = "untrusted" then lit (-0.15)
  else if raw = "disputed" then lit (-0.4)
  else lit 0

def normalizeEpistemicStatus (value : String) : String :=
  if value ∈ ["untrusted", "observed", "corroborated", "trusted", "disputed", "invalidated"] then
    value
  else "untrusted"

def strengthAdjustment (memoryStrength : F) : F := memoryStrength - lit 1

/-! ### Live rows -/

def expiryIsLive (expiresAt : F) (nowMs : ℤ) : Bool :=
  Double.eq expiresAt (lit 0) || (Double.isFinite expiresAt && Double.lt (lit nowMs) expiresAt)

/-- From the first bound, which counts, to the second, which does not; zero is no bound. -/
def isEntryValidAt (validFrom validUntil : F) (validAt : Option ℤ) : Bool :=
  match validAt with
  | none => true
  | some point =>
    if Double.lt (lit 0) validFrom && Double.lt (lit point) validFrom then false
    else if Double.lt (lit 0) validUntil &&
        (Double.lt validUntil (lit point) || Double.eq validUntil (lit point)) then false
    else true

def isRecallEntryLive (row : MemoryRow F) (nowMs : ℤ) (validAt : Option ℤ) : Bool :=
  if row.status ≠ "" ∧ row.status ≠ "active" then false
  else if normalizeEpistemicStatus row.epistemicStatus = "invalidated" then false
  else if !expiryIsLive (number row.expiresAt) nowMs then false
  else isEntryValidAt (number row.validFrom) (number row.validUntil) validAt

end Plur1bus.Recall
