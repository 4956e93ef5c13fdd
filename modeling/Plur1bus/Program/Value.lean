import Mathlib.Data.Nat.Notation
import Mathlib.Tactic.Common

/-!
JSON values as a program sees them after `JSON.parse`: a string is a sequence of UTF-16 code
units, lone surrogates included, and an object the list of its fields. What a number is, is
left to whoever reads them.
-/

namespace Program

/-- UTF-16 code units. -/
abbrev Units := List UInt16

/-- The code units of a literal. -/
def units (s : String) : Units := s.toList.flatMap fun c =>
    if c.toNat < 0x10000 then [UInt16.ofNat c.toNat]
    else [UInt16.ofNat (0xd800 + (c.toNat - 0x10000) / 0x400), UInt16.ofNat (0xdc00 + (c.toNat - 0x10000) % 0x400)]

inductive Value (ν : Type)
  | null
  | bool (b : Bool)
  | num (n : ν)
  | str (s : Units)
  | arr (items : List (Value ν))
  | obj (fields : List (String × Value ν))

namespace Value

variable {ν : Type}

/-- The fields of what is an object and not an array. -/
def record : Value ν → Option (List (String × Value ν))
  | .obj fields => some fields
  | _ => none

/-- What is neither `undefined` nor `null`. -/
def given : Option (Value ν) → Option (Value ν)
  | some .null => none
  | v => v

/-- `??`. -/
def orElse (v v' : Option (Value ν)) : Option (Value ν) := (given v).or v'

def string : Option (Value ν) → Option Units
  | some (.str s) => some s
  | _ => none

def array : Option (Value ν) → Option (List (Value ν))
  | some (.arr items) => some items
  | _ => none

end Value

end Program
