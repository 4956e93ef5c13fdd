import Mathlib.Data.List.Lex
import Mathlib.Data.Nat.Basic
import Mathlib.Tactic.IntervalCases

/-!
Decimal numerals padded with zeros to a fixed width. As long as a number fits
in the width, the numerals sort as the numbers do.
-/

namespace Program

open List

def padded (w n : ℕ) : List Char := List.replicate (w - (Nat.toDigits 10 n).length) '0' ++ Nat.toDigits 10 n

theorem padded_succ {w n : ℕ} (hw : 0 < w) :
    padded (w + 1) n = padded w (n / 10) ++ [(n % 10).digitChar] := by
  by_cases hn : n < 10
  · have hdiv : n / 10 = 0 := by omega
    have hmod : n % 10 = n := by omega
    obtain ⟨v, rfl⟩ : ∃ v, w = v + 1 := ⟨w - 1, by omega⟩
    rw [hdiv, hmod, padded, padded, Nat.toDigits_of_lt_base hn, Nat.toDigits_zero]
    simp only [length_singleton, Nat.add_sub_cancel, replicate_succ']
  · have hle : 10 ≤ n := by omega
    rw [padded, padded, Nat.toDigits_of_base_le (by omega) hle, length_append,
      length_singleton, Nat.add_sub_add_right, append_assoc]

theorem length_padded {w n : ℕ} (hw : 0 < w) (hn : n < 10 ^ w) : (padded w n).length = w := by
  induction w generalizing n with
  | zero => omega
  | succ w ih =>
    by_cases hw' : 0 < w
    · have hdiv : n / 10 < 10 ^ w := by rw [pow_succ] at hn; omega
      rw [padded_succ hw', length_append, ih hw' hdiv, length_singleton]
    · obtain rfl : w = 0 := by omega
      rw [padded, Nat.toDigits_of_lt_base (by omega)]
      rfl

theorem digitChar_lt {a b : ℕ} (hab : a < b) (hb : b < 10) : a.digitChar < b.digitChar := by
  interval_cases b <;> interval_cases a <;> decide

theorem append_lt_append_of_lt {l m : List Char} (hlen : l.length = m.length) (h : l < m)
    (s t : List Char) : l ++ s < m ++ t := by
  induction l generalizing m with
  | nil =>
    obtain rfl : m = [] := length_eq_zero_iff.mp hlen.symm
    exact absurd h (not_lt_nil _)
  | cons a l ih =>
    cases m with
    | nil => simp at hlen
    | cons b m =>
      have hlen' : l.length = m.length := by simpa using hlen
      rw [cons_append, cons_append, cons_lt_cons_iff]
      rcases cons_lt_cons_iff.mp h with hab | ⟨hab, hlm⟩
      · exact .inl hab
      · exact .inr ⟨hab, ih hlen' hlm⟩

theorem append_singleton_lt (l : List Char) {a b : Char} (h : a < b) : l ++ [a] < l ++ [b] := by
  induction l with
  | nil => exact cons_lt_cons_iff.mpr (.inl h)
  | cons c l ih => exact cons_lt_cons_iff.mpr (.inr ⟨rfl, ih⟩)

theorem padded_lt {w a b : ℕ} (hw : 0 < w) (hab : a < b) (hb : b < 10 ^ w) : padded w a < padded w b := by
  induction w generalizing a b with
  | zero => omega
  | succ w ih =>
    by_cases hw' : 0 < w
    · rw [padded_succ hw', padded_succ hw']
      have hbdiv : b / 10 < 10 ^ w := by rw [pow_succ] at hb; omega
      by_cases hdiv : a / 10 = b / 10
      · rw [hdiv]
        exact append_singleton_lt _ (digitChar_lt (by omega) (by omega))
      · have hlt : a / 10 < b / 10 := by omega
        have hlen : (padded w (a / 10)).length = (padded w (b / 10)).length := by
          rw [length_padded hw' (hlt.trans hbdiv), length_padded hw' hbdiv]
        exact append_lt_append_of_lt hlen (ih hw' hlt hbdiv) _ _
    · obtain rfl : w = 0 := by omega
      have hb' : b < 10 := by omega
      rw [padded, padded, Nat.toDigits_of_lt_base hb', Nat.toDigits_of_lt_base (hab.trans hb')]
      exact cons_lt_cons_iff.mpr (.inl (digitChar_lt hab hb'))

theorem digitChar_inj {a b : ℕ} (ha : a < 10) (hb : b < 10) (h : a.digitChar = b.digitChar) : a = b := by
  by_contra hne
  rcases Nat.lt_or_gt_of_ne hne with hlt | hgt
  · exact Char.lt_irrefl _ (h ▸ digitChar_lt hlt hb)
  · exact Char.lt_irrefl _ (h ▸ digitChar_lt hgt ha)

theorem toDigits_injective : Function.Injective (Nat.toDigits 10) := by
  intro a b h
  simpa using congrArg (fun digits => Nat.ofDigitChars 10 digits 0) h

/-- A numeral is that of one number, also where it is longer than the width. -/
theorem padded_injective {w : ℕ} (hw : 0 < w) : Function.Injective (padded w) := by
  induction w with
  | zero => omega
  | succ w ih =>
    intro a b h
    by_cases hw' : 0 < w
    · rw [padded_succ hw', padded_succ hw'] at h
      obtain ⟨hfront, hlast⟩ := append_inj' h rfl
      have hdiv := ih hw' hfront
      have hmod := digitChar_inj (Nat.mod_lt a (by omega)) (Nat.mod_lt b (by omega)) (singleton_inj.mp hlast)
      omega
    · obtain rfl : w = 0 := by omega
      have hlong : ∀ n, padded (0 + 1) n = Nat.toDigits 10 n := by
        intro n
        have hpos : 0 < (Nat.toDigits 10 n).length := length_pos_iff.mpr Nat.toDigits_ne_nil
        rw [padded, show 0 + 1 - (Nat.toDigits 10 n).length = 0 by omega]
        rfl
      rw [hlong, hlong] at h
      exact toDigits_injective h

end Program
