import Mathlib.Algebra.Order.Floor.Defs
import Mathlib.Data.Rat.Floor
import Plur1bus.Program.Runs
import Plur1bus.Program.TokenBucket
import Plur1bus.Program.Upsert

/-!
The request limiter of the API: a token bucket for each key of each route class.
Numbers are rationals and instants milliseconds. The map of buckets is the list of
its entries in their order; an entry that is written again goes to the end.
-/

namespace Plur1bus.Api.RateLimit

open Program.Keyed

structure BucketSpec where
  capacity : ℚ
  refillPerSec : ℚ
  deriving DecidableEq

inductive RateClass where
  | auth | totp | read | write | stream | rpc | expensive | upload
  deriving DecidableEq, Repr

/-- The classes in the order of the defaults. -/
def RateClass.all : List RateClass := [.auth, .totp, .read, .write, .rpc, .stream, .expensive, .upload]

def RateClass.name : RateClass → String
  | .auth => "auth"
  | .totp => "totp"
  | .read => "read"
  | .write => "write"
  | .stream => "stream"
  | .rpc => "rpc"
  | .expensive => "expensive"
  | .upload => "upload"

instance RateClass.instDecidableForall (p : RateClass → Prop) [DecidablePred p] :
    Decidable (∀ cls, p cls) :=
  decidable_of_iff (∀ cls ∈ RateClass.all, p cls)
    ⟨fun h cls => h cls (by cases cls <;> decide), fun h cls _ => h cls⟩

theorem RateClass.mem_all (cls : RateClass) : cls ∈ RateClass.all := by cases cls <;> decide

def DEFAULT_RATE_CLASSES : RateClass → BucketSpec
  | .auth => ⟨5, 1 / 12⟩
  | .totp => ⟨5, 1 / 60⟩
  | .read => ⟨120, 20⟩
  | .write => ⟨30, 5⟩
  | .rpc => ⟨60, 10⟩
  | .stream => ⟨6, 1 / 5⟩
  | .expensive => ⟨10, 1 / 6⟩
  | .upload => ⟨4, 1 / 30⟩

/-- How much wider the bucket of a shared address is. -/
def SHARED_ADDRESS_SCALE : ℚ := 10

structure Bucket where
  tokens : ℚ
  /-- `at`: the instant the tokens are as of. -/
  since : ℚ
  capacity : ℚ
  refillPerSec : ℚ
  deriving DecidableEq

inductive Verdict where
  | ok
  | refused (retryAfterSec : ℤ)
  deriving DecidableEq, Repr

/-- The class, then the name. The source joins them by a character that no class holds. -/
abbrev Key := RateClass × String

/-- The entries of the map, the least recently used first. -/
abbrev Buckets := List (Key × Bucket)

/-- A limiter: its classes, which its constructor has checked, and how many keys
it keeps. -/
structure RateLimiter where
  classes : RateClass → BucketSpec
  maxKeys : ℕ
  capacity_ge : ∀ cls, 1 ≤ (classes cls).capacity
  refill_pos : ∀ cls, 0 < (classes cls).refillPerSec

namespace RateLimiter

/-- The constructor: what is given goes over the defaults, and every class must be able to
hold a token and to gain one. -/
def new (given : RateClass → Option BucketSpec) (maxKeys : ℕ) : Except String RateLimiter :=
  let classes := fun cls => (given cls).getD (DEFAULT_RATE_CLASSES cls)
  match h : RateClass.all.find? fun cls =>
      ¬ (1 ≤ (classes cls).capacity ∧ 0 < (classes cls).refillPerSec) with
  | some cls => .error ("rate class " ++ cls.name ++
      ": capacity must be finite and >= 1, and refillPerSec finite and > 0")
  | none =>
    have hall : ∀ cls, 1 ≤ (classes cls).capacity ∧ 0 < (classes cls).refillPerSec := fun cls => by
      simpa using List.find?_eq_none.mp h cls cls.mem_all
    .ok { classes, maxKeys, capacity_ge := fun cls => (hall cls).1, refill_pos := fun cls => (hall cls).2 }

/-- The limiter of the defaults; they pass the check. -/
def ofDefaults (maxKeys : ℕ) : RateLimiter where
  classes := DEFAULT_RATE_CLASSES
  maxKeys
  capacity_ge := by decide +kernel
  refill_pos := by decide +kernel

theorem new_defaults (maxKeys : ℕ) : new (fun _ => none) maxKeys = .ok (ofDefaults maxKeys) := by
  unfold new
  dsimp only
  split
  · rename_i cls hfind
    have hbad := List.find?_some hfind
    have hgood := And.intro ((ofDefaults maxKeys).capacity_ge cls) ((ofDefaults maxKeys).refill_pos cls)
    simp only [decide_eq_true_eq] at hbad
    exact absurd hgood hbad
  · rfl

end RateLimiter

/-- What `#evict` asks of a bucket. -/
def Bucket.full (b : Bucket) (now : ℚ) : Prop :=
  b.tokens + max 0 (now - b.since) / 1000 * b.refillPerSec ≥ b.capacity

instance Bucket.full.instDecidable (b : Bucket) (now : ℚ) : Decidable (b.full now) :=
  inferInstanceAs (Decidable (_ ≥ _))

/-- `while (size >= maxKeys)`: the oldest goes. -/
def dropOldest (maxKeys : ℕ) : Buckets → Buckets
  | [] => []
  | r :: rows => if (r :: rows).length ≥ maxKeys then dropOldest maxKeys rows else r :: rows

/-- `#evict`. -/
def evict (maxKeys : ℕ) (now : ℚ) (rows : Buckets) : Buckets :=
  dropOldest maxKeys (rows.filter fun r => ¬ r.2.full now)

/-- The bucket of a scale. -/
def specOf (base : BucketSpec) (scale : ℚ) : BucketSpec :=
  if scale = 1 then base else ⟨base.capacity * scale, base.refillPerSec * scale⟩

/-- A bucket as it is found: a new one is full, an old one is filled up to now. -/
def refill (spec : BucketSpec) (now : ℚ) : Option Bucket → Bucket
  | none => ⟨spec.capacity, now, spec.capacity, spec.refillPerSec⟩
  | some b => { b with
      tokens := min spec.capacity (b.tokens + max 0 (now - b.since) / 1000 * spec.refillPerSec)
      since := now }

/-- The token is taken, or how long to wait for it is answered. -/
def draw (spec : BucketSpec) (b : Bucket) : Bucket × Verdict :=
  if b.tokens ≥ 1 then ({ b with tokens := b.tokens - 1 }, .ok)
  else (b, .refused (max 1 ⌈(1 - b.tokens) / spec.refillPerSec⌉))

/-- Everything `take` does but for making room, which is left to `room`. -/
def takeWith (room : Buckets → Buckets) (spec : BucketSpec) (k : Key) (now : ℚ) (rows : Buckets) :
    Buckets × Verdict :=
  let found := (rowAt Prod.fst k rows).map Prod.snd
  let rows := if found.isNone then room rows else rows
  let (b, verdict) := draw spec (refill spec now found)
  (rows.filter (fun r => r.1 ≠ k) ++ [(k, b)], verdict)

namespace RateLimiter

def take (l : RateLimiter) (rows : Buckets) (cls : RateClass) (key : String) (scale now : ℚ) :
    Buckets × Verdict :=
  takeWith (fun rows => if rows.length ≥ l.maxKeys then evict l.maxKeys now rows else rows)
    (specOf (l.classes cls) scale) (cls, key) now rows

/-- `takeAll`: the buckets are drawn on in turn, up to the first that refuses. -/
def takeAll (l : RateLimiter) (rows : Buckets) (cls : RateClass) (now : ℚ) : List String → Buckets × Verdict
  | [] => (rows, .ok)
  | key :: keys =>
    match l.take rows cls key 1 now with
    | (rows, .ok) => l.takeAll rows cls now keys
    | (rows, .refused retryAfterSec) => (rows, .refused retryAfterSec)

end RateLimiter

/-! ### Sequences of calls

The scale belongs to the key: a key is always taken with the same one. -/

structure Take where
  cls : RateClass
  key : String
  now : ℚ
  deriving DecidableEq

def Take.id (x : Take) : Key := (x.cls, x.key)

section Calls

variable (l : RateLimiter) (scale : Key → ℚ)

/-- The capacity and the refill of a key. -/
def specAt (k : Key) : BucketSpec := specOf (l.classes k.1) (scale k)

/-- One call of the code. -/
def call (rows : Buckets) (x : Take) : Buckets × Verdict := l.take rows x.cls x.key (scale x.id) x.now

/-- The calls with their answers, from an empty map on. -/
def answers (rows : Buckets) : List Take → List (Take × Verdict)
  | [] => []
  | x :: xs => (x, (call l scale rows x).2) :: answers (call l scale rows x).1 xs

/-- The map after calls, and the answer to a call that comes after them. -/
def run (rows : Buckets) (xs : List Take) : Buckets := xs.foldl (fun rows x => (call l scale rows x).1) rows

def answerTo (before : List Take) (x : Take) : Verdict := (call l scale (run l scale [] before) x).2

/-- The limiter that has room for every key and never drops one. -/
def idealCall (rows : Buckets) (x : Take) : Buckets × Verdict :=
  takeWith (fun rows => rows) (specAt l scale x.id) x.id x.now rows

def idealAnswers (rows : Buckets) : List Take → List (Take × Verdict)
  | [] => []
  | x :: xs => (x, (idealCall l scale rows x).2) :: idealAnswers (idealCall l scale rows x).1 xs

def idealAct (rows : Buckets) (x : Take) : Buckets := (idealCall l scale rows x).1

/-- At most `maxKeys` keys have a bucket that is not full once the call is made. -/
def Roomy (rows : Buckets) (x : Take) : Prop :=
  ((idealAct l scale rows x).filter fun r => ¬ r.2.full x.now).length ≤ l.maxKeys

instance Roomy.instDecidable (rows : Buckets) (x : Take) : Decidable (Roomy l scale rows x) :=
  inferInstanceAs (Decidable (_ ≤ _))

/-- Never more than `maxKeys` keys have a bucket that is not full. -/
def AlwaysRoomy (xs : List Take) : Prop := Program.Along (idealAct l scale) (Roomy l scale) [] xs

instance AlwaysRoomy.instDecidable (xs : List Take) : Decidable (AlwaysRoomy l scale xs) :=
  inferInstanceAs (Decidable (Program.Along _ _ _ _))

end Calls

/-- The clock does not go back. -/
def Nondecreasing (xs : List Take) : Prop := xs.Pairwise fun x y => x.now ≤ y.now

instance Nondecreasing.instDecidable (xs : List Take) : Decidable (Nondecreasing xs) :=
  inferInstanceAs (Decidable (List.Pairwise _ _))

/-- `takeAll` makes calls of `take`, for the first keys it is given. -/
theorem takeAll_eq_run (l : RateLimiter) (rows : Buckets) (cls : RateClass) (now : ℚ)
    (keys : List String) : ∃ n, (l.takeAll rows cls now keys).1 =
      run l (fun _ => 1) rows ((keys.take n).map fun key => ⟨cls, key, now⟩) := by
  induction keys generalizing rows with
  | nil => exact ⟨0, rfl⟩
  | cons key keys ih =>
    rw [RateLimiter.takeAll]
    rcases htake : l.take rows cls key 1 now with ⟨rows', _ | retryAfterSec⟩
    · obtain ⟨n, hn⟩ := ih rows'
      refine ⟨n + 1, hn.trans ?_⟩
      rw [List.take_succ_cons, List.map_cons, run, run, List.foldl_cons, call]
      simp only [htake]
    · refine ⟨1, ?_⟩
      show rows' = (l.take rows cls key 1 now).1
      rw [htake]

/-- How many calls for the key were answered with ok from one instant to another. -/
def oks (k : Key) (t₁ t₂ : ℚ) (answered : List (Take × Verdict)) : ℕ :=
  answered.countP fun a => a.1.id = k ∧ t₁ ≤ a.1.now ∧ a.1.now ≤ t₂ ∧ a.2 = .ok

end Plur1bus.Api.RateLimit
