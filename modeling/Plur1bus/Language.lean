import Mathlib.Data.Nat.Notation
import Mathlib.Data.Int.Notation
import Mathlib.Tactic.Common
import Mathlib.Algebra.Group.Int.Defs
import Mathlib.Algebra.GroupWithZero.Nat

/-!
Values of the source's language that several stores check: numbers, white
space, and the length of a string in UTF-16 units.
-/

namespace Plur1bus

/-- A number: an integer, or anything else a number can be. -/
inductive Number
  | int (n : ℤ)
  | other
  deriving DecidableEq, Repr

def MAX_SAFE_INTEGER : ℤ := 2 ^ 53 - 1

/-- `Number.isSafeInteger(n) && n >= least`, with the integer it is. -/
def Number.safeFrom (least : ℕ) : Number → Option ℕ
  | .int n => if (least : ℤ) ≤ n ∧ n ≤ MAX_SAFE_INTEGER then some n.toNat else none
  | .other => none

/-- The white space `trim` removes and `\s` matches. -/
def isWhite (c : Char) : Bool := (9 ≤ c.toNat && c.toNat ≤ 13) || (0x2000 ≤ c.toNat && c.toNat ≤ 0x200a) ||
    [0x20, 0xa0, 0x1680, 0x2028, 0x2029, 0x202f, 0x205f, 0x3000, 0xfeff].contains c.toNat

def trim (s : String) : String :=
  String.ofList (((s.toList.dropWhile isWhite).reverse.dropWhile isWhite).reverse)

/-- `String.prototype.length`: code points beyond the basic plane count twice. -/
def unitLength (s : String) : ℕ := (s.toList.map (fun c => if c.toNat < 0x10000 then 1 else 2)).sum

end Plur1bus
