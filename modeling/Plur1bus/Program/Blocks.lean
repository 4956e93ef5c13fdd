import Mathlib.Data.Int.ConditionallyCompleteOrder
import Mathlib.Data.Int.Notation
import Mathlib.Data.Set.Basic
import Mathlib.Order.Monotone.Basic
import Mathlib.Order.SuccPred.IntervalSucc
import Mathlib.Tactic.Common

/-!
A line cut into blocks, seen through a monotone function. The integers are cut
into blocks `[first n, next n)`; a function `f` of time goes through the
integers without ever turning back. Then the times at which `f` is in a block
are an interval as well, from the first time at or past `first` to the first
time at or past `next`, and these intervals follow on each other even where
`f` jumps over whole blocks. The first time is found by bisection.
-/

namespace Program

/-! ### Bisection -/

/-- The search of a place where a test begins to hold, between one where it
does not and one where it does; the test may throw. -/
def bisect {ε : Type} (test : ℤ → Except ε Bool) (lo hi : ℤ) : Except ε ℤ := if 1 < hi - lo then
    let mid := lo + (hi - lo) / 2
    match test mid with
    | .error e => .error e
    | .ok true => bisect test lo mid
    | .ok false => bisect test mid hi
  else .ok hi
termination_by (hi - lo).toNat
decreasing_by
  · omega
  · omega

/-- What is known of the ends stays known, until they are neighbours. -/
theorem bisect_finds {ε : Type} {test : ℤ → Except ε Bool} {P : ℤ → Prop} [DecidablePred P] {lo hi : ℤ}
    (htest : ∀ t, lo < t → t < hi → test t = .ok (decide (P t))) (hlt : lo < hi) (hlo : ¬P lo) (hhi : P hi) :
    ∃ s, bisect test lo hi = .ok s ∧ lo < s ∧ s ≤ hi ∧ P s ∧ ¬P (s - 1) := by
  fun_induction bisect test lo hi with
  | case1 lo hi hwide mid e hmid =>
      have hmid' : test mid = _ := htest mid (by omega) (by omega)
      rw [hmid'] at hmid
      cases hmid
  | case2 lo hi hwide mid hmid ih => grind
  | case3 lo hi hwide mid hmid ih => grind
  | case4 lo hi hnarrow =>
      have hnext : hi - 1 = lo := by omega
      exact ⟨hi, rfl, hlt, Int.le_refl _, hhi, hnext ▸ hlo⟩

/-! ### First times -/

variable {f : ℤ → ℤ} {times : Set ℤ} {n n' s s' t : ℤ}

/-- From `s` on, and not before, `f` is at `n` or past it. -/
def FirstAt (f : ℤ → ℤ) (times : Set ℤ) (n s : ℤ) : Prop := s ∈ times ∧ ∀ t ∈ times, n ≤ f t ↔ s ≤ t

namespace FirstAt

theorem unique (h : FirstAt f times n s) (h' : FirstAt f times n s') : s = s' :=
  Int.le_antisymm ((h.2 s' h'.1).mp ((h'.2 s' h'.1).mpr (Int.le_refl _)))
    ((h'.2 s h.1).mp ((h.2 s h.1).mpr (Int.le_refl _)))

/-- Where `f` does not turn back, the place at which it passes `n` is the first time. -/
theorem of_step (hf : MonotoneOn f times) (hs : s ∈ times) (hp : s - 1 ∈ times) (hat : n ≤ f s)
    (hbefore : f (s - 1) < n) : FirstAt f times n s := by
  refine ⟨hs, fun t ht => ⟨fun hn => ?_, fun hle => Int.le_trans hat (hf hs ht hle)⟩⟩
  by_contra hlt
  have hle : f t ≤ f (s - 1) := hf ht hp (by omega)
  omega

/-- `f` is between two numbers between their first times. -/
theorem mem_Ico (h : FirstAt f times n s) (h' : FirstAt f times n' s') (ht : t ∈ times) :
    (n ≤ f t ∧ f t < n') ↔ s ≤ t ∧ t < s' := by
  have hfirst := h.2 t ht
  have hnext := h'.2 t ht
  omega

end FirstAt

/-! ### Blocks -/

/-- Every integer is in its block, and the block is that of all its members. -/
structure Blocks (first next : ℤ → ℤ) : Prop where
  lower : ∀ n, first n ≤ n
  upper : ∀ n, n < next n
  same : ∀ n m, first n ≤ m → m < next n → first m = first n ∧ next m = next n

namespace Blocks

variable {first next : ℤ → ℤ}

theorem first_first (h : Blocks first next) (n : ℤ) : first (first n) = first n :=
  (h.same n (first n) (Int.le_refl _) (by have := h.lower n; have := h.upper n; omega)).1

theorem monotone (h : Blocks first next) (hle : n ≤ n') : first n ≤ first n' := by
  by_contra hlt
  -- The beginning of the one block would be inside the other.
  have hinside := h.same n' (first n) (by omega) (by have := h.lower n; have := h.upper n'; omega)
  rw [h.first_first] at hinside
  omega

/-- Blocks with one beginning are one block. -/
theorem next_eq (h : Blocks first next) (heq : first n = first n') : next n = next n' := by
  have hn := h.same n (first n) (Int.le_refl _) (by have := h.lower n; have := h.upper n; omega)
  have hn' := h.same n' (first n') (Int.le_refl _) (by have := h.lower n'; have := h.upper n'; omega)
  rw [← hn.2, ← hn'.2, heq]

/-- What follows on a block begins one. -/
theorem first_next (h : Blocks first next) (n : ℤ) : first (next n) = next n := by
  have hlower := h.lower (next n)
  by_contra hne
  have hlo := h.lower n
  have hup := h.upper n
  have hlast := h.same n (next n - 1) (by omega) (by omega)
  have hover := h.same (next n) (next n - 1) (by omega) (by have := h.upper (next n); omega)
  have hbeyond := h.upper (next n)
  omega

/-- The members of a block are those with its beginning. -/
theorem mem_iff (h : Blocks first next) {m : ℤ} : first m = first n ↔ first n ≤ m ∧ m < next n := by
  constructor
  · intro heq
    rw [← heq, ← h.next_eq heq]
    exact ⟨h.lower m, h.upper m⟩
  · rintro ⟨hl, hu⟩
    exact (h.same n m hl hu).1

/-- At the first time past a block another block begins, whichever it is. -/
theorem first_at_next (h : Blocks first next) (hf : MonotoneOn f times) (hs : FirstAt f times (next n) s) :
    FirstAt f times (first (f s)) s := by
  have hpast : next n ≤ f s := (hs.2 s hs.1).mpr (Int.le_refl _)
  have hle : next n ≤ first (f s) := h.first_next n ▸ h.monotone hpast
  exact ⟨hs.1, fun t ht =>
    ⟨fun hn => (hs.2 t ht).mp (Int.le_trans hle hn), fun hst => Int.le_trans (h.lower _) (hf hs.1 ht hst)⟩⟩

end Blocks

end Program
