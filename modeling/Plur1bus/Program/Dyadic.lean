import Mathlib.Data.Nat.Bitwise
import Mathlib.Algebra.Order.Ring.Nat
import Mathlib.Tactic.Ring

/-!
Aligned blocks of numbers. The block of height `h` around a number holds the `2 ^ h` numbers that
agree with it but for their last `h` bits. Two blocks are nested or have nothing in common, and a
block is its lower half and its upper half.
-/

namespace Program

def InBlock (h base n : ℕ) : Prop := n / 2 ^ h = base / 2 ^ h

/-- The least number of the block. -/
def floorTo (h n : ℕ) : ℕ := n / 2 ^ h * 2 ^ h

theorem InBlock.refl (h base : ℕ) : InBlock h base base := rfl

theorem InBlock.symm {h a b : ℕ} (hab : InBlock h a b) : InBlock h b a := Eq.symm hab

theorem InBlock.trans {h a b c : ℕ} (hab : InBlock h a b) (hbc : InBlock h b c) : InBlock h a c :=
  Eq.trans hbc hab

variable {base n : ℕ}

theorem inBlock_zero : InBlock 0 base n ↔ n = base := by
  simp [InBlock]

theorem inBlock_congr {h a b : ℕ} (hab : InBlock h a b) : InBlock h a n ↔ InBlock h b n :=
  ⟨fun hn => hab.symm.trans hn, fun hn => hab.trans hn⟩

theorem InBlock.mono {h k : ℕ} (hn : InBlock h base n) (hk : h ≤ k) : InBlock k base n := by
  obtain ⟨d, rfl⟩ := Nat.exists_eq_add_of_le hk
  show n / 2 ^ (h + d) = base / 2 ^ (h + d)
  rw [Nat.pow_add, ← Nat.div_div_eq_div_mul, ← Nat.div_div_eq_div_mul, hn]

/-- A block that shares a number with a block that is not lower lies inside of it. -/
theorem InBlock.nested {h k a b : ℕ} (ha : InBlock h a n) (hb : InBlock k b n) (hk : h ≤ k) :
    InBlock k b a :=
  hb.trans (ha.mono hk).symm

theorem InBlock.lt {h k : ℕ} (hn : InBlock h base n) (hk : h ≤ k) (hbase : base < 2 ^ k) : n < 2 ^ k := by
  have hup := hn.mono hk
  rw [InBlock, Nat.div_eq_of_lt hbase] at hup
  exact (Nat.div_eq_zero_iff_lt (Nat.two_pow_pos k)).mp hup

theorem inBlock_floorTo (h n : ℕ) : InBlock h n (floorTo h n) := Nat.mul_div_cancel _ (Nat.two_pow_pos h)

theorem floorTo_le {h : ℕ} (hn : InBlock h base n) : floorTo h base ≤ n := by
  rw [floorTo, ← hn]
  exact Nat.div_mul_le_self n (2 ^ h)

theorem floorTo_eq_iff {h a b : ℕ} : floorTo h a = floorTo h b ↔ InBlock h b a :=
  Nat.mul_left_inj (Nat.two_pow_pos h).ne'

theorem floorTo_floorTo {h k : ℕ} (n : ℕ) (hk : h ≤ k) : floorTo k (floorTo h n) = floorTo k n :=
  floorTo_eq_iff.mpr ((inBlock_floorTo h n).mono hk)

/-! ### Halves -/

theorem floorTo_succ_div (h base : ℕ) : floorTo (h + 1) base / 2 ^ h = 2 * (base / 2 ^ (h + 1)) := by
  have hmul : floorTo (h + 1) base = 2 * (base / 2 ^ (h + 1)) * 2 ^ h := by
    rw [floorTo, Nat.pow_succ]
    ring
  rw [hmul, Nat.mul_div_cancel _ (Nat.two_pow_pos h)]

theorem upper_div (h base : ℕ) : (floorTo (h + 1) base + 2 ^ h) / 2 ^ h = 2 * (base / 2 ^ (h + 1)) + 1 := by
  rw [Nat.add_div_right _ (Nat.two_pow_pos h), floorTo_succ_div]

theorem inBlock_succ_iff {h : ℕ} :
    InBlock (h + 1) base n ↔ InBlock h (floorTo (h + 1) base) n ∨ InBlock h (floorTo (h + 1) base + 2 ^ h) n := by
  have hhalf : n / 2 ^ (h + 1) = n / 2 ^ h / 2 := by rw [Nat.pow_succ, Nat.div_div_eq_div_mul]
  rw [InBlock, InBlock, InBlock, floorTo_succ_div, upper_div, hhalf]
  omega

theorem lower_lt_upper {h m : ℕ} (hm : InBlock h (floorTo (h + 1) base) m)
    (hn : InBlock h (floorTo (h + 1) base + 2 ^ h) n) : m < n := by
  rw [InBlock, floorTo_succ_div] at hm
  rw [InBlock, upper_div] at hn
  have hlt : m / 2 ^ h < n / 2 ^ h := by omega
  exact Nat.lt_of_div_lt_div hlt

theorem floorTo_or (h base : ℕ) : floorTo (h + 1) base ||| 1 <<< h = floorTo (h + 1) base + 2 ^ h := by
  have hlt : 2 ^ h < 2 ^ (h + 1) := Nat.pow_lt_pow_right (by omega) (by omega)
  rw [Nat.one_shiftLeft, floorTo, ← Nat.shiftLeft_eq, Nat.shiftLeft_add_eq_or_of_lt hlt]

/-! ### Windows

The `k` bits above the last `s`. -/

def window (s k n : ℕ) : ℕ := n / 2 ^ s % 2 ^ k

theorem window_lt (s k n : ℕ) : window s k n < 2 ^ k := Nat.mod_lt _ (Nat.two_pow_pos k)

/-- A number is what stands above a window, the window, and what stands below. -/
theorem eq_window (s k n : ℕ) : n = 2 ^ s * (2 ^ k * (n / 2 ^ (s + k)) + window s k n) + n % 2 ^ s := by
  have hup : n / 2 ^ (s + k) = n / 2 ^ s / 2 ^ k := by rw [Nat.pow_add, Nat.div_div_eq_div_mul]
  rw [hup, window, Nat.div_add_mod, Nat.div_add_mod]

theorem inBlock_iff_window {s k h : ℕ} (hk : h ≤ k) (hup : InBlock (s + k) base n) :
    InBlock (s + h) base n ↔ InBlock h (window s k base) (window s k n) := by
  have hsame : n / 2 ^ s / 2 ^ k = base / 2 ^ s / 2 ^ k := by
    rw [Nat.div_div_eq_div_mul, Nat.div_div_eq_div_mul, ← Nat.pow_add]
    exact hup
  obtain ⟨d, rfl⟩ := Nat.exists_eq_add_of_le hk
  have hread : ∀ m, m / 2 ^ h = 2 ^ d * (m / 2 ^ (h + d)) + m % 2 ^ (h + d) / 2 ^ h := by
    intro m
    conv_lhs => rw [← Nat.div_add_mod m (2 ^ (h + d))]
    rw [Nat.pow_add, Nat.mul_assoc, Nat.add_comm, Nat.add_mul_div_left _ _ (Nat.two_pow_pos h), Nat.add_comm]
  have hn := hread (n / 2 ^ s)
  have hb := hread (base / 2 ^ s)
  rw [hsame] at hn
  show n / 2 ^ (s + h) = base / 2 ^ (s + h) ↔ window s (h + d) n / 2 ^ h = window s (h + d) base / 2 ^ h
  rw [Nat.pow_add, ← Nat.div_div_eq_div_mul, ← Nat.div_div_eq_div_mul, hn, hb, window, window]
  omega

/-- Another window put in the place of the one that is there. -/
theorem put_window {s k c : ℕ} (hc : c < 2 ^ k) : Nat.ldiff base ((2 ^ k - 1) <<< s) ||| c <<< s =
      2 ^ s * (2 ^ k * (base / 2 ^ (s + k)) + c) + base % 2 ^ s := by
  have hlow : base % 2 ^ s < 2 ^ s := Nat.mod_lt _ (Nat.two_pow_pos s)
  apply Nat.eq_of_testBit_eq
  intro i
  rw [Nat.testBit_two_pow_mul_add _ hlow, Nat.testBit_two_pow_mul_add _ hc, Nat.testBit_or, Nat.testBit_ldiff,
    Nat.testBit_shiftLeft, Nat.testBit_shiftLeft, Nat.testBit_two_pow_sub_one, Nat.testBit_div_two_pow,
    Nat.testBit_mod_two_pow]
  by_cases hi : i < s
  · have hno : ¬ s ≤ i := by omega
    simp [hi, hno]
  · have hle : s ≤ i := by omega
    have hsum : i - s - k + (s + k) = i ∨ i - s < k := by omega
    obtain hsum | hsum := hsum
    · by_cases hk : i - s < k
      · simp [hi, hle, hk]
      · have hpow : c < 2 ^ (i - s) := Nat.lt_of_lt_of_le hc (Nat.pow_le_pow_right (by omega) (by omega))
        simp [hi, hle, hk, hsum, Nat.testBit_lt_two_pow hpow]
    · simp [hi, hle, hsum]

theorem window_put {s k c : ℕ} (base : ℕ) (hc : c < 2 ^ k) :
    window s k (2 ^ s * (2 ^ k * (base / 2 ^ (s + k)) + c) + base % 2 ^ s) = c := by
  have hlow : base % 2 ^ s < 2 ^ s := Nat.mod_lt _ (Nat.two_pow_pos s)
  rw [window, Nat.mul_add_div (Nat.two_pow_pos s), Nat.div_eq_of_lt hlow, Nat.add_zero, Nat.mul_add_mod,
    Nat.mod_eq_of_lt hc]

theorem above_put {s k c : ℕ} (base : ℕ) (hc : c < 2 ^ k) :
    InBlock (s + k) base (2 ^ s * (2 ^ k * (base / 2 ^ (s + k)) + c) + base % 2 ^ s) := by
  have hlow : base % 2 ^ s < 2 ^ s := Nat.mod_lt _ (Nat.two_pow_pos s)
  rw [InBlock, Nat.pow_add, ← Nat.div_div_eq_div_mul, Nat.mul_add_div (Nat.two_pow_pos s), Nat.div_eq_of_lt hlow,
    Nat.add_zero, Nat.mul_add_div (Nat.two_pow_pos k), Nat.div_eq_of_lt hc, Nat.add_zero]

/-! ### The least number of a set -/

/-- The least number of which `S` holds, or none when there is none. -/
def IsLowest (S : ℕ → Prop) : Option ℕ → Prop
  | none => ∀ n, ¬ S n
  | some m => S m ∧ ∀ n, S n → m ≤ n

variable {r : Option ℕ}

theorem IsLowest.unique {S : ℕ → Prop} {r' : Option ℕ} (h : IsLowest S r) (h' : IsLowest S r') :
    r = r' := by
  cases r with
  | none =>
    cases r' with
    | none => rfl
    | some n => exact absurd h'.1 (h n)
  | some m =>
    cases r' with
    | none => exact absurd h.1 (h' m)
    | some n => exact congrArg some (Nat.le_antisymm (h.2 n h'.1) (h'.2 m h.1))

theorem IsLowest.congr {S T : ℕ → Prop} (h : IsLowest S r) (hST : ∀ n, S n ↔ T n) : IsLowest T r := by
  have heq : S = T := funext fun n => propext (hST n)
  exact heq ▸ h

/-- The least number of two sets, all of the first before all of the second. -/
theorem IsLowest.first {S T : ℕ → Prop} {m : ℕ} (h : IsLowest S (some m)) (hlt : ∀ a b, S a → T b → a < b) :
    IsLowest (fun n => S n ∨ T n) (some m) := by
  refine ⟨.inl h.1, fun n hn => ?_⟩
  obtain hn | hn := hn
  · exact h.2 n hn
  · exact (hlt m n h.1 hn).le

theorem IsLowest.second {S T : ℕ → Prop} (hS : IsLowest S none) (hT : IsLowest T r) :
    IsLowest (fun n => S n ∨ T n) r :=
  hT.congr fun n => ⟨.inr, fun hn => hn.resolve_left (hS n)⟩

/-- Where a number is judged by a window of it, the least number of a block is the least window put
into the block's base. -/
theorem IsLowest.of_window {P Q : ℕ → Prop} {s k h : ℕ} (hh : h ≤ s + k)
    (hfloor : floorTo h base = base) (hPQ : ∀ n, InBlock h base n → (P n ↔ Q (window s k n)))
    (hr : IsLowest (fun c => InBlock (h - s) (window s k base) c ∧ Q c) r) :
    IsLowest (fun n => InBlock h base n ∧ P n) (r.map fun c => Nat.ldiff base ((2 ^ k - 1) <<< s) ||| c <<< s) := by
  have hwindow : ∀ n, InBlock h base n → InBlock (h - s) (window s k base) (window s k n) := by
    intro n hn
    obtain hs | hs := Nat.le_total s h
    · have hsum : s + (h - s) = h := by omega
      apply (inBlock_iff_window (by omega) (hn.mono hh)).mp
      rwa [hsum]
    · have hup : n / 2 ^ s = base / 2 ^ s := hn.mono hs
      rw [window, window, hup]
      exact InBlock.refl _ _
  cases r with
  | none =>
    intro n hn
    exact hr (window s k n) ⟨hwindow n hn.1, (hPQ n hn.1).mp hn.2⟩
  | some c =>
    obtain ⟨⟨hc, hQ⟩, hmin⟩ := hr
    have hlt : c < 2 ^ k := hc.lt (by omega) (window_lt s k base)
    rw [Option.map_some, put_window hlt]
    have hin : InBlock h base (2 ^ s * (2 ^ k * (base / 2 ^ (s + k)) + c) + base % 2 ^ s) := by
      obtain hs | hs := Nat.le_total s h
      · have hsum : s + (h - s) = h := by omega
        have hiff := inBlock_iff_window (h := h - s) (by omega) (above_put (s := s) base hlt)
        rw [hsum, window_put base hlt] at hiff
        exact hiff.mpr hc
      · have hsame : c = window s k base := by
          rwa [Nat.sub_eq_zero_of_le hs, inBlock_zero] at hc
        rw [hsame, ← eq_window]
        exact InBlock.refl _ _
    refine ⟨⟨hin, ?_⟩, ?_⟩
    · rw [hPQ _ hin, window_put base hlt]
      exact hQ
    · rintro n ⟨hn, hP⟩
      have hle := hmin (window s k n) ⟨hwindow n hn, (hPQ n hn).mp hP⟩
      obtain hs | hs := Nat.le_total s h
      · -- the base ends in zeros
        have hzero : base % 2 ^ s = 0 := by
          rw [← hfloor, floorTo, Nat.mul_mod, Nat.mod_eq_zero_of_dvd (Nat.pow_dvd_pow 2 hs), Nat.mul_zero, Nat.zero_mod]
        have hup : n / 2 ^ (s + k) = base / 2 ^ (s + k) := hn.mono hh
        calc 2 ^ s * (2 ^ k * (base / 2 ^ (s + k)) + c) + base % 2 ^ s
            ≤ 2 ^ s * (2 ^ k * (n / 2 ^ (s + k)) + window s k n) := by
              rw [hzero, hup, Nat.add_zero]
              exact Nat.mul_le_mul_left _ (by omega)
          _ ≤ n := by
              conv_rhs => rw [eq_window s k n]
              exact Nat.le_add_right _ _
      · have hsame : c = window s k base := by
          rwa [Nat.sub_eq_zero_of_le hs, inBlock_zero] at hc
        rw [hsame, ← eq_window, ← hfloor]
        exact floorTo_le hn

end Program
