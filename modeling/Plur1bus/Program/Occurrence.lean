import Mathlib.Data.List.Infix
import Mathlib.Data.Nat.Notation
import Mathlib.Tactic.Common

/-!
Occurrences of one list in another: the first at or after a place, and what it
means that a word cannot overlap itself.
-/

namespace Program.Occurrence

open List

variable {α : Type}

/-- The word stands in `value` at place `i`. -/
def OccursAt (needle value : List α) (i : ℕ) : Prop := needle <+: value.drop i

theorem OccursAt.end_le {needle value : List α} {i : ℕ} (hne : needle ≠ [])
    (h : OccursAt needle value i) : i + needle.length ≤ value.length := by
  have hle := h.length_le
  have hpos := length_pos_of_ne_nil hne
  rw [length_drop] at hle
  omega

theorem OccursAt.getElem? {needle value : List α} {i k : ℕ} (h : OccursAt needle value i)
    (hk : k < needle.length) : value[i + k]? = needle[k]? := by
  obtain ⟨rest, hrest⟩ := h
  rw [← List.getElem?_drop, ← hrest, List.getElem?_append_left hk]

/-- A word whose first letter does not come back in it cannot overlap itself. -/
theorem OccursAt.apart {needle value : List α} {i j : ℕ} (hi : OccursAt needle value i)
    (hj : OccursAt needle value j) (hlt : i < j) (hne : needle ≠ [])
    (hhead : ∀ k, 0 < k → k < needle.length → needle[k]? ≠ needle[0]?) :
    i + needle.length ≤ j := by
  by_contra hover
  have hk : j - i < needle.length := by omega
  have hfirst := hj.getElem? (length_pos_of_ne_nil hne)
  have hinner := hi.getElem? hk
  rw [Nat.add_sub_cancel' hlt.le] at hinner
  exact hhead (j - i) (by omega) hk (hinner.symm.trans hfirst)

/-- An occurrence read from its end. -/
theorem occursAt_iff_suffix_take {needle value : List α} {i : ℕ} :
    OccursAt needle value i ∧ i + needle.length ≤ value.length ↔
      needle <:+ value.take (i + needle.length) ∧ i + needle.length ≤ value.length := by
  refine and_congr_left (fun hle => ?_)
  rw [OccursAt, prefix_iff_eq_take, suffix_iff_eq_drop, length_take,
    Nat.min_eq_left hle, Nat.add_sub_cancel, drop_take, Nat.add_sub_cancel_left]

/-! ### Searching -/

section Search

variable [DecidableEq α]

/-- The place of the first occurrence. -/
def indexOf? (needle : List α) : List α → Option ℕ
  | [] => if needle.isEmpty then some 0 else none
  | c :: s => if needle.isPrefixOf (c :: s) then some 0 else (indexOf? needle s).map (· + 1)

/-- The first occurrence that starts at `start` or later. -/
def find (value needle : List α) (start : ℕ) : Option ℕ :=
  if start ≤ value.length then (indexOf? needle (value.drop start)).map (start + ·) else none

theorem indexOf?_some {needle s : List α} {i : ℕ} (h : indexOf? needle s = some i) :
    OccursAt needle s i ∧ i ≤ s.length ∧ ∀ j < i, ¬OccursAt needle s j := by
  induction s generalizing i with
  | nil =>
    rw [indexOf?] at h
    split at h
    · cases h
      rw [List.isEmpty_iff] at *
      subst needle
      exact ⟨List.nil_prefix, le_rfl, fun j hj => absurd hj (Nat.not_lt_zero j)⟩
    · cases h
  | cons c s ih =>
    rw [indexOf?] at h
    split at h
    · cases h
      exact ⟨List.isPrefixOf_iff_prefix.mp ‹_›, Nat.zero_le _, fun j hj => absurd hj (Nat.not_lt_zero j)⟩
    · rename_i hno
      obtain ⟨k, hk, rfl⟩ := Option.map_eq_some_iff.mp h
      obtain ⟨hat, hle, hfirst⟩ := ih hk
      refine ⟨hat, Nat.succ_le_succ hle, fun j hj hocc => ?_⟩
      cases j with
      | zero => exact hno (List.isPrefixOf_iff_prefix.mpr hocc)
      | succ j => exact hfirst j (by omega) hocc

theorem indexOf?_none {needle s : List α} (h : indexOf? needle s = none) (j : ℕ) :
    ¬OccursAt needle s j := by
  induction s generalizing j with
  | nil =>
    rw [indexOf?] at h
    split at h
    · cases h
    · rename_i hne
      intro hocc
      rw [OccursAt, drop_nil] at hocc
      exact hne (List.isEmpty_iff.mpr (prefix_nil.mp hocc))
  | cons c s ih =>
    rw [indexOf?] at h
    split at h
    · cases h
    · rename_i hno
      intro hocc
      cases j with
      | zero => exact hno (List.isPrefixOf_iff_prefix.mpr hocc)
      | succ j => exact ih (Option.map_eq_none_iff.mp h) j hocc

theorem find_some {value needle : List α} {start i : ℕ} (h : find value needle start = some i) :
    start ≤ i ∧ OccursAt needle value i ∧ ∀ j, start ≤ j → j < i → ¬OccursAt needle value j := by
  rw [find] at h
  split at h
  · obtain ⟨k, hk, rfl⟩ := Option.map_eq_some_iff.mp h
    obtain ⟨hat, -, hfirst⟩ := indexOf?_some hk
    refine ⟨Nat.le_add_right _ _, ?_, fun j hj hlt hocc => ?_⟩
    · rwa [OccursAt, drop_drop] at hat
    · apply hfirst (j - start) (by omega)
      rwa [OccursAt, drop_drop, Nat.add_sub_cancel' hj]
  · cases h

theorem find_none {value needle : List α} {start : ℕ} (hne : needle ≠ [])
    (h : find value needle start = none) (j : ℕ) (hj : start ≤ j) : ¬OccursAt needle value j := by
  intro hocc
  rw [find] at h
  split at h
  · apply indexOf?_none (Option.map_eq_none_iff.mp h) (j - start)
    rwa [OccursAt, drop_drop, Nat.add_sub_cancel' hj]
  · rw [OccursAt, drop_eq_nil_of_le (by omega)] at hocc
    exact hne (prefix_nil.mp hocc)

end Search

end Program.Occurrence
