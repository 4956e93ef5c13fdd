import Mathlib.Data.List.Range
import Mathlib.Data.List.Nodup
import Plur1bus.Program.Numbering

/-!
Tables of rows that belong to owners. An owner's rows are numbered from one in
the order in which they were inserted, and the owner keeps the count. A row is
only ever appended with the next number, or removed together with all rows of
its owner.
-/

namespace Program

open List

variable {α κ : Type} [DecidableEq κ] {own : α → κ} {num : α → ℕ} {k : κ} {n : ℕ} {l : List α}

/-- The rows of owner `k` are numbered `1, …, n`, in this order. -/
def Numbered (own : α → κ) (num : α → ℕ) (k : κ) (n : ℕ) (l : List α) : Prop :=
  (l.filter (own · = k)).map num = List.range' 1 n

theorem numbered_zero (h : ∀ a ∈ l, own a ≠ k) : Numbered own num k 0 l := by
  have hnil : l.filter (own · = k) = [] := by simpa [filter_eq_nil_iff] using h
  simp [Numbered, hnil]

theorem Numbered.append (h : Numbered own num k n l) {a : α} (ha : own a = k)
    (hn : num a = n + 1) : Numbered own num k (n + 1) (l ++ [a]) := by
  unfold Numbered at *
  rw [filter_append, map_append, h, List.range'_concat]
  simp [ha, hn, Nat.add_comm]

theorem Numbered.append_other (h : Numbered own num k n l) {a : α} (ha : own a ≠ k) :
    Numbered own num k n (l ++ [a]) := by
  simpa [Numbered, ha] using h

theorem Numbered.filter_other (h : Numbered own num k n l) {j : κ} (hj : j ≠ k) :
    Numbered own num k n (l.filter (own · ≠ j)) := by
  have hsame : (l.filter (own · ≠ j)).filter (own · = k) = l.filter (own · = k) := by
    rw [filter_filter]
    refine filter_congr fun a _ => ?_
    by_cases ha : own a = k <;> simp [ha, hj.symm]
  rwa [Numbered, hsame]

theorem Numbered.map (h : Numbered own num k n l) {f : α → α} (hown : ∀ a, own (f a) = own a)
    (hnum : ∀ a, num (f a) = num a) : Numbered own num k n (l.map f) := by
  have hsame : (l.map f).filter (own · = k) = (l.filter (own · = k)).map f := by
    rw [filter_map]
    congr 1
    exact filter_congr fun a _ => by simp [hown]
  have hcomp : num ∘ f = num := funext hnum
  rw [Numbered, hsame, List.map_map, hcomp]
  exact h

theorem Numbered.bounds (h : Numbered own num k n l) {a : α} (ha : a ∈ l) (hk : own a = k) :
    1 ≤ num a ∧ num a ≤ n := by
  have hmem : num a ∈ (l.filter (own · = k)).map num :=
    mem_map_of_mem (mem_filter.mpr ⟨ha, by simpa using hk⟩)
  rw [h, mem_range'_1] at hmem
  omega

theorem Numbered.inj (h : Numbered own num k n l) {a b : α} (ha : a ∈ l) (hb : b ∈ l)
    (hak : own a = k) (hbk : own b = k) (hab : num a = num b) : a = b := by
  have hnodup : ((l.filter (own · = k)).map num).Nodup := h ▸ nodup_range'
  exact inj_on_of_nodup_map hnodup (mem_filter.mpr ⟨ha, by simpa using hak⟩)
    (mem_filter.mpr ⟨hb, by simpa using hbk⟩) hab

theorem Numbered.sorted (h : Numbered own num k n l) :
    (l.filter (own · = k)).Pairwise (fun a b => num a < num b) := by
  have hlt : (List.range' 1 n).Pairwise (· < ·) := pairwise_lt_range'
  rw [← h] at hlt
  exact pairwise_map.mp hlt

/-- Reading an owner's rows by number is reading them in the table's order. -/
theorem Numbered.byNumber_eq (h : Numbered own num k n l) :
    byNumber num (l.filter (own · = k)) = l.filter (own · = k) :=
  List.Pairwise.insertionSort_eq (h.sorted.imp le_of_lt)

/-- Rows of a table with distinct keys that all have one key are at most one. -/
theorem length_filter_le_one {ι : Type} {key : α → ι} (hn : (l.map key).Nodup) (p : α → Bool)
    (h : ∀ a ∈ l, ∀ b ∈ l, p a → p b → key a = key b) : (l.filter p).length ≤ 1 := by
  have hn' : ((l.filter p).map key).Nodup := hn.sublist (filter_sublist.map key)
  have h' : ∀ a ∈ l.filter p, ∀ b ∈ l.filter p, key a = key b := by grind
  match hl : l.filter p with
  | [] => simp
  | [_] => simp
  | a :: b :: rest =>
    rw [hl] at hn' h'
    have hab := h' a (by simp) b (by simp)
    simp [hab] at hn'

end Program
