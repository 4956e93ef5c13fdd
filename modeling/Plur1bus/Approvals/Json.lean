import Mathlib.Logic.Basic
import Mathlib.Algebra.GroupWithZero.Nat

/-!
JSON values and texts, as far as the approval chain needs them. An object is
the list of its fields in insertion order; a text is known by what
`JSON.parse` answers on it together with its spelling, so two texts that parse
to one value may still differ, and `JSON.stringify` fixes one spelling.
-/

namespace Plur1bus

inductive Json
  | null
  | bool (b : Bool)
  | num (n : Int)
  | str (s : String)
  | arr (items : List Json)
  | obj (fields : List (String × Json))
  deriving Repr

namespace Json

mutual

def decEq : (a b : Json) → Decidable (a = b)
  | .null, .null => isTrue rfl
  | .bool b, .bool b' => decidable_of_iff (b = b') (by simp)
  | .num n, .num n' => decidable_of_iff (n = n') (by simp)
  | .str s, .str s' => decidable_of_iff (s = s') (by simp)
  | .arr items, .arr items' =>
    match decEqItems items items' with
    | isTrue h => isTrue (by rw [h])
    | isFalse h => isFalse (by simpa using h)
  | .obj fields, .obj fields' =>
    match decEqFields fields fields' with
    | isTrue h => isTrue (by rw [h])
    | isFalse h => isFalse (by simpa using h)
  | .null, .bool _ | .null, .num _ | .null, .str _ | .null, .arr _ | .null, .obj _
  | .bool _, .null | .bool _, .num _ | .bool _, .str _ | .bool _, .arr _ | .bool _, .obj _
  | .num _, .null | .num _, .bool _ | .num _, .str _ | .num _, .arr _ | .num _, .obj _
  | .str _, .null | .str _, .bool _ | .str _, .num _ | .str _, .arr _ | .str _, .obj _
  | .arr _, .null | .arr _, .bool _ | .arr _, .num _ | .arr _, .str _ | .arr _, .obj _
  | .obj _, .null | .obj _, .bool _ | .obj _, .num _ | .obj _, .str _ | .obj _, .arr _ =>
    isFalse (by simp)

def decEqItems : (a b : List Json) → Decidable (a = b)
  | [], [] => isTrue rfl
  | [], _ :: _ | _ :: _, [] => isFalse (by simp)
  | a :: as, b :: bs =>
    match decEq a b, decEqItems as bs with
    | isTrue h, isTrue h' => isTrue (by rw [h, h'])
    | isFalse h, _ => isFalse (by simp [h])
    | _, isFalse h => isFalse (by simp [h])

def decEqFields : (a b : List (String × Json)) → Decidable (a = b)
  | [], [] => isTrue rfl
  | [], _ :: _ | _ :: _, [] => isFalse (by simp)
  | (k, a) :: as, (k', b) :: bs =>
    match instDecidableEqString k k', decEq a b, decEqFields as bs with
    | isTrue hk, isTrue h, isTrue h' => isTrue (by rw [hk, h, h'])
    | isFalse h, _, _ => isFalse (by simp [h])
    | _, isFalse h, _ => isFalse (by simp [h])
    | _, _, isFalse h => isFalse (by simp [h])

end

instance : DecidableEq Json := decEq

/-- Property access: `undefined` on anything without that field. -/
def get : Json → String → Option Json
  | .obj fields, key => fields.lookup key
  | _, _ => none

/-- `typeof v === "object" && v !== null`; arrays are objects. -/
def isObject : Json → Bool
  | .obj _ | .arr _ => true
  | _ => false

def asStr? : Json → Option String
  | .str s => some s
  | _ => none

def asNum? : Json → Option Int
  | .num n => some n
  | _ => none

def asBool? : Json → Option Bool
  | .bool b => some b
  | _ => none

/-- A field that is left out of the object when its value is absent. -/
def optional (key : String) : Option Json → List (String × Json)
  | none => []
  | some v => [(key, v)]

/-- `null` for an absent value. -/
def orNull (f : α → Json) : Option α → Json
  | none => .null
  | some a => f a

end Json

structure JsonText where
  parsed : Option Json
  spelling : String
  deriving DecidableEq, Repr

def JsonText.stringify (v : Json) : JsonText where
  parsed := some v
  spelling := ""

end Plur1bus
