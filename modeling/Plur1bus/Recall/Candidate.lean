import Plur1bus.Language
import Mathlib.Algebra.Order.Ring.Rat

/-!
A recalled memory as the stages after the graph see it: its ownership, the ids
that tie chunk parts to their whole, its window of validity and its scores.

A number of the source's floating type is a rational, or `none` where it is not
finite; the stages treat every number that is not finite alike.
-/

namespace Plur1bus.Recall

abbrev F64 := Option ℚ

/-- What `str::trim` takes off. -/
def isWhitespace (c : Char) : Bool := (isWhite c && c.toNat ≠ 0xfeff) || c.toNat = 0x85

def strTrim (s : String) : String :=
  String.ofList (((s.toList.dropWhile isWhitespace).reverse.dropWhile isWhitespace).reverse)

def isAsciiAlphanumeric (c : Char) : Bool :=
  ('0' ≤ c && c ≤ '9') || ('A' ≤ c && c ≤ 'Z') || ('a' ≤ c && c ≤ 'z')

/-- The columns of a row that say whose it is. -/
structure AclMemory where
  id : String
  scope : String
  agentId : String
  storedBy : String
  workspaceId : String
  workspaceKey : String
  ownerUserId : String
  typeName : String
  deriving DecidableEq

structure RecallCandidate where
  id : String
  text : String
  summary : String
  category : String
  coreMemoryScore : F64
  agentId : String
  scope : String
  chunkGroupId : String
  sourceTurnId : String
  validFrom : F64
  validUntil : F64
  score : Option F64
  source : String
  graphSource : String
  rerankScore : Option F64
  ownership : AclMemory
  deriving DecidableEq

/-! ### Windows of validity -/

/-- A bound that is a positive integer a double holds exactly; any other number
is no bound. -/
def knownBound (value : F64) : Option ℤ :=
  match value with
  | some q => if q.den = 1 ∧ |q.num| ≤ MAX_SAFE_INTEGER ∧ 0 < q.num then some q.num else none
  | none => none

def boundsSeparate (stop start : Option ℤ) : Bool :=
  stop.any (fun stop => start.any (fun start => stop ≤ start))

def hasDisjointValidityWindows (left right : RecallCandidate) : Bool :=
  let leftFrom := knownBound left.validFrom
  let leftUntil := knownBound left.validUntil
  let rightFrom := knownBound right.validFrom
  let rightUntil := knownBound right.validUntil
  if leftFrom.isNone && leftUntil.isNone then false
  else if rightFrom.isNone && rightUntil.isNone then false
  else boundsSeparate leftUntil rightFrom || boundsSeparate rightUntil leftFrom

theorem hasDisjointValidityWindows_comm (left right : RecallCandidate) :
    hasDisjointValidityWindows left right = hasDisjointValidityWindows right left := by
  rw [hasDisjointValidityWindows, hasDisjointValidityWindows, Bool.or_comm]
  split <;> split <;> rfl

end Plur1bus.Recall
