import Mathlib.Algebra.BigOperators.Group.List.Basic
import Mathlib.Data.List.Nodup
import Mathlib.Tactic.Abel

/-!
Sums over rows that have a key of their own. A ledger keeps such a sum in a
field of its own; the field stays right if each step changes it by what the
step changes in the sum, and these are the changes: a row behind the others, a
row that weighs something else, rows taken out.
-/

namespace Program.Keyed

open List

variable {α κ M : Type} [AddCommMonoid M] {key : α → κ} {w w' : α → M} {rows : List α}

/-- The sum of a weight over the rows that meet a condition. -/
def sumOf (p : α → Bool) (w : α → M) (rows : List α) : M := ((rows.filter p).map w).sum

variable {p q : α → Bool}

@[simp] theorem sumOf_nil : sumOf p w [] = 0 := rfl

theorem sumOf_cons {r : α} : sumOf p w (r :: rows) = (if p r then w r else 0) + sumOf p w rows := by
  unfold sumOf
  rw [filter_cons]
  split <;> simp

theorem sumOf_append {rows' : List α} : sumOf p w (rows ++ rows') = sumOf p w rows + sumOf p w rows' := by
  simp [sumOf]

/-- One row behind the others. -/
theorem sumOf_snoc {r : α} : sumOf p w (rows ++ [r]) = sumOf p w rows + if p r then w r else 0 := by
  rw [sumOf_append, sumOf_cons, sumOf_nil, add_zero]

theorem sumOf_congr (hp : ∀ r ∈ rows, p r = q r) (hw : ∀ r ∈ rows, p r = true → w r = w' r) :
    sumOf p w rows = sumOf q w' rows := by
  induction rows with
  | nil => rfl
  | cons r rows ih =>
      obtain ⟨hpr, hp⟩ := forall_mem_cons.mp hp
      obtain ⟨hwr, hw⟩ := forall_mem_cons.mp hw
      rw [sumOf_cons, sumOf_cons, ih hp hw, ← hpr]
      split
      · rename_i h
        rw [hwr h]
      · rfl

theorem sumOf_eq_zero (h : ∀ r ∈ rows, p r = false) : sumOf p w rows = 0 := by
  unfold sumOf
  rw [filter_eq_nil_iff.mpr fun r hr => (by simp [h r hr])]
  rfl

/-- The row at one place becomes another one; both sides get what the other counts
for there. -/
theorem sumOf_modify {f : α → α} {i : ℕ} {r : α} (h : rows[i]? = some r) :
    sumOf p w (rows.modify i f) + (if p r then w r else 0) =
      sumOf p w rows + if p (f r) then w (f r) else 0 := by
  induction rows generalizing i with
  | nil => cases h
  | cons r' rows ih =>
    cases i with
    | zero =>
      cases h
      rw [modify_zero_cons, sumOf_cons, sumOf_cons]
      abel
    | succ i =>
      rw [modify_succ_cons, sumOf_cons, sumOf_cons, add_assoc, add_assoc]
      exact congrArg (_ + ·) (ih h)

/-- Rows that do not count may be taken out. -/
theorem sumOf_filter (h : ∀ r ∈ rows, p r = true → q r = true) : sumOf p w (rows.filter q) = sumOf p w rows := by
  unfold sumOf
  rw [filter_filter]
  refine congrArg (fun l => (l.map w).sum) (filter_congr fun r hr => ?_)
  by_cases hp : p r = true
  · rw [hp, h r hr hp]
    rfl
  · rw [Bool.not_eq_true] at hp
    rw [hp]
    rfl

/-- Each row is rewritten in place, and counts as before. -/
theorem sumOf_map {f : α → α} (hp : ∀ r ∈ rows, p (f r) = p r) :
    sumOf p w (rows.map f) = sumOf p (fun r => w (f r)) rows := by
  induction rows with
  | nil => rfl
  | cons r rows ih =>
      obtain ⟨hpr, hp⟩ := forall_mem_cons.mp hp
      rw [map_cons, sumOf_cons, sumOf_cons, hpr, ih hp]

/-- The weight of one row changes. -/
theorem sumOf_change {r : α} (hn : (rows.map key).Nodup) (hr : r ∈ rows)
    (hw : ∀ x ∈ rows, key x ≠ key r → w' x = w x) :
    sumOf p w' rows + (if p r then w r else 0) = sumOf p w rows + if p r then w' r else 0 := by
  induction rows with
  | nil => cases hr
  | cons x rows ih =>
      obtain ⟨hx, hn⟩ := nodup_cons.mp hn
      obtain ⟨hwx, hwrows⟩ := forall_mem_cons.mp hw
      rw [sumOf_cons, sumOf_cons]
      obtain rfl | hr := mem_cons.mp hr
      · -- The other rows have other keys.
        have hrest : sumOf p w' rows = sumOf p w rows := by
          refine sumOf_congr (fun _ _ => rfl) fun y hy _ => hwrows y hy fun hkey => ?_
          exact hx (hkey ▸ mem_map_of_mem hy)
        rw [hrest]
        abel
      · grind

end Program.Keyed
