import Plur1bus.Program.Sums
import Plur1bus.Program.Upsert
import Mathlib.Data.List.Dedup

/-!
Sums by key. `groupSums` answers one row for each key that occurs, with what
the rows of the key weigh together; adding such rows to a table that has one
row a key moves the sums over and changes none of them.
-/

namespace Program.Keyed

open List

section Conditions

variable {α M : Type} [AddCommMonoid M] {p q : α → Bool} {w : α → M} {rows : List α}

/-- Rows that meet one of two conditions, if no row meets both. -/
theorem sumOf_or (h : ∀ r ∈ rows, p r = true → q r = false) :
    sumOf (fun r => p r || q r) w rows = sumOf p w rows + sumOf q w rows := by
  induction rows with
  | nil => simp
  | cons r rows ih =>
      obtain ⟨hr, h⟩ := forall_mem_cons.mp h
      rw [sumOf_cons, sumOf_cons, sumOf_cons, ih h]
      by_cases hp : p r = true
      · grind
      · grind

/-- The rows that meet a second condition, and those that do not. -/
theorem sumOf_split (q : α → Bool) :
    sumOf p w rows = sumOf (fun r => p r && q r) w rows + sumOf (fun r => p r && !q r) w rows := by
  rw [← sumOf_or fun r _ h => (by simp only [Bool.and_eq_true] at h; simp [h])]
  refine sumOf_congr (fun r _ => ?_) fun _ _ _ => rfl
  cases p r <;> cases q r <;> rfl

/-- A condition on the rows can be asked before. -/
theorem sumOf_of_filter : sumOf p w (rows.filter q) = sumOf (fun r => p r && q r) w rows := by
  unfold sumOf
  rw [filter_filter]

/-- Rows made of other rows. -/
theorem sumOf_made {β : Type} {f : β → α} {rows : List β} :
    sumOf p w (rows.map f) = sumOf (fun r => p (f r)) (fun r => w (f r)) rows := by
  induction rows with
  | nil => rfl
  | cons r rows ih => rw [map_cons, sumOf_cons, sumOf_cons, ih]

/-- A condition on the rows can be put into the weight. -/
theorem sumOf_and : sumOf (fun r => p r && q r) w rows = sumOf p (fun r => if q r then w r else 0) rows := by
  induction rows with
  | nil => rfl
  | cons r rows ih =>
      rw [sumOf_cons, sumOf_cons, ih]
      cases p r <;> cases q r <;> rfl

end Conditions

variable {α κ M : Type} [DecidableEq κ]

section Groups

variable [AddCommMonoid M]

/-- One row a key: `SELECT key, SUM(w) … GROUP BY key`. -/
def groupSums (key : α → κ) (w : α → M) (rows : List α) : List (κ × M) :=
  (rows.map key).dedup.map fun k => (k, sumOf (fun r => key r = k) w rows)

variable {key : α → κ} {w : α → M} {rows : List α}

theorem groupSums_keys : (groupSums key w rows).map Prod.fst = (rows.map key).dedup := by
  unfold groupSums
  rw [List.map_map]
  exact map_id _

theorem sumOf_keys {ks : List κ} (hn : ks.Nodup) (p : κ → Bool) :
    sumOf (fun g => p g.1) Prod.snd (ks.map fun k => (k, sumOf (fun r => key r = k) w rows)) =
      sumOf (fun r => p (key r) && decide (key r ∈ ks)) w rows := by
  induction ks with
  | nil =>
      rw [map_nil, sumOf_nil, sumOf_eq_zero]
      intro r _
      simp
  | cons k ks ih =>
      obtain ⟨hk, hn⟩ := nodup_cons.mp hn
      rw [map_cons, sumOf_cons, ih hn]
      -- The rows of the key `k` stand apart from those of the other keys.
      have hfirst : (if p k then sumOf (fun r => key r = k) w rows else 0) =
          sumOf (fun r => p (key r) && decide (key r = k)) w rows := by
        by_cases hp : p k = true
        · grind
        · rw [if_neg hp, sumOf_eq_zero]
          intro r _
          by_cases hr : key r = k <;> simp [hr, hp]
      rw [hfirst, ← sumOf_or]
      · refine sumOf_congr (fun r _ => ?_) fun _ _ _ => rfl
        rw [← Bool.and_or_distrib_left, ← Bool.decide_or]
        simp only [mem_cons]
      · intro r _ h
        simp only [Bool.and_eq_true, decide_eq_true_eq] at h
        simp [h.2, hk]

/-- The groups weigh what their rows weigh. -/
theorem sumOf_groupSums (p : κ → Bool) :
    sumOf (fun g => p g.1) Prod.snd (groupSums key w rows) = sumOf (fun r => p (key r)) w rows := by
  unfold groupSums
  rw [sumOf_keys (nodup_dedup _)]
  refine sumOf_congr (fun r hr => ?_) fun _ _ _ => rfl
  have hmem : key r ∈ (rows.map key).dedup := mem_dedup.mpr (mem_map_of_mem hr)
  simp [hmem]

/-- The row of a key answers the weight of the key; without one there is nothing to weigh. -/
theorem rowAt_groupSums (k : κ) :
    ((rowAt Prod.fst k (groupSums key w rows)).map Prod.snd).getD 0 = sumOf (fun r => key r = k) w rows := by
  cases hrow : rowAt Prod.fst k (groupSums key w rows) with
  | none =>
      rw [sumOf_eq_zero, Option.map_none, Option.getD_none]
      intro r hr
      have hmem : key r ∈ (groupSums key w rows).map Prod.fst := by
        rw [groupSums_keys]
        exact mem_dedup.mpr (mem_map_of_mem hr)
      obtain ⟨g, hg, hgr⟩ := mem_map.mp hmem
      exact decide_eq_false (hgr ▸ rowAt_eq_none.mp hrow g hg)
  | some g =>
      obtain ⟨hg, rfl⟩ := rowAt_some hrow
      obtain ⟨k, -, rfl⟩ := mem_map.mp hg
      rfl

end Groups

section Added

variable [AddCancelCommMonoid M] {key : α → κ} {merge : α → α → α} {w : α → M}

/-- A row added to the row of its key. -/
theorem sumOf_upsert {a : α} {rows : List α} (p : κ → Bool) (hn : (rows.map key).Nodup)
    (hkey : ∀ r, key r = key a → key (merge r a) = key a) (hw : ∀ r, w (merge r a) = w r + w a) :
    sumOf (fun r => p (key r)) w (upsert key merge a rows) =
      sumOf (fun r => p (key r)) w rows + if p (key a) then w a else 0 := by
  cases hrow : rowAt key (key a) rows with
  | none => rw [upsert_of_new hrow, sumOf_snoc]
  | some old =>
      obtain ⟨hold, hk⟩ := rowAt_some hrow
      rw [upsert_of_old hrow, sumOf_map]
      · have hothers : ∀ r ∈ rows, key r ≠ key old → w (if key r = key a then merge r a else r) = w r := by
          intro r _ hr
          rw [if_neg (hk ▸ hr)]
        have hchange : sumOf (fun r => p (key r)) (fun r => w (if key r = key a then merge r a else r)) rows +
            (if p (key old) then w old else 0) = sumOf (fun r => p (key r)) w rows +
              if p (key old) then w (if key old = key a then merge old a else old) else 0 :=
          sumOf_change hn hold hothers
        simp only [hk, if_true, hw] at hchange
        by_cases hp : p (key a) = true
        · grind
        · rw [if_neg hp, if_neg hp] at hchange
          rw [if_neg hp]
          simpa using hchange
      · intro r _
        split
        · rename_i h
          rw [hkey r h, h]
        · rfl

/-- Rows added one after another: each sum grows by what they weigh. -/
theorem sumOf_upserts {as : List α} {rows : List α} (p : κ → Bool) (hn : (rows.map key).Nodup)
    (hkey : ∀ r a, key r = key a → key (merge r a) = key a) (hw : ∀ r a, w (merge r a) = w r + w a) :
    sumOf (fun r => p (key r)) w (as.foldl (fun rows a => upsert key merge a rows) rows) =
      sumOf (fun r => p (key r)) w rows + sumOf (fun r => p (key r)) w as := by
  induction as generalizing rows with
  | nil => rw [foldl_nil, sumOf_nil, add_zero]
  | cons a as ih =>
      rw [foldl_cons, ih (nodup_keys_upsert (fun r h => hkey r a h) hn),
        sumOf_upsert p hn (fun r h => hkey r a h) fun r => hw r a, sumOf_cons, add_assoc]

theorem nodup_keys_upserts {as : List α} {rows : List α} (hn : (rows.map key).Nodup)
    (hkey : ∀ r a, key r = key a → key (merge r a) = key a) :
    ((as.foldl (fun rows a => upsert key merge a rows) rows).map key).Nodup := by
  induction as generalizing rows with
  | nil => exact hn
  | cons a as ih => exact ih (nodup_keys_upsert (fun r h => hkey r a h) hn)

end Added

end Program.Keyed
