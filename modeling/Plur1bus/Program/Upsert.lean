import Mathlib.Data.List.Nodup
import Mathlib.Data.List.Basic
import Mathlib.Tactic.Common

/-!
Rows under a key of their own: a row is written over the one with its key, or
put behind the others. A map that remembers the order of its keys is the case
in which the new row replaces the old one whole.
-/

namespace Program.Keyed

open List

variable {α κ : Type} [DecidableEq κ] (key : α → κ) (merge : α → α → α)

/-- The row with a key. -/
def rowAt (k : κ) (rows : List α) : Option α := rows.find? (fun r => key r = k)

/-- Write `a` over the row with its key, or append it. -/
def upsert (a : α) (rows : List α) : List α := if rows.any (fun r => key r = key a) then
    rows.map (fun r => if key r = key a then merge r a else r)
  else rows ++ [a]

variable {key merge}

variable {k : κ} {rows : List α}

theorem rowAt_eq_none : rowAt key k rows = none ↔ ∀ r ∈ rows, key r ≠ k := by
  simp [rowAt]

variable {r : α}

theorem rowAt_some (h : rowAt key k rows = some r) : r ∈ rows ∧ key r = k := by
  rw [rowAt] at h
  have hk := List.find?_some h
  exact ⟨mem_of_find?_eq_some h, of_decide_eq_true hk⟩

theorem rowAt_eq_some (hn : (rows.map key).Nodup) : rowAt key k rows = some r ↔ r ∈ rows ∧ key r = k := by
  refine ⟨rowAt_some, ?_⟩
  rintro ⟨hr, rfl⟩
  cases hfind : rowAt key (key r) rows with
  | none => exact absurd rfl (rowAt_eq_none.mp hfind r hr)
  | some r' =>
    obtain ⟨hr', hk⟩ := rowAt_some hfind
    rw [inj_on_of_nodup_map hn hr hr' hk.symm]

/-- The row with a key, once the rows of a key are taken out. -/
theorem rowAt_filter_ne {k' : κ} :
    rowAt key k (rows.filter fun r => key r ≠ k') = if k = k' then none else rowAt key k rows := by
  grind [rowAt]

theorem rowAt_append {rows' : List α} :
    rowAt key k (rows ++ rows') = (rowAt key k rows).or (rowAt key k rows') := List.find?_append

variable {a : α}

theorem upsert_of_new (h : rowAt key (key a) rows = none) : upsert key merge a rows = rows ++ [a] := by
  rw [upsert, if_neg]
  simpa [rowAt] using h

theorem upsert_of_old (h : rowAt key (key a) rows = some r) :
    upsert key merge a rows = rows.map (fun r => if key r = key a then merge r a else r) := by
  rw [upsert, if_pos]
  rw [List.any_eq_true]
  exact ⟨r, (rowAt_some h).1, decide_eq_true (rowAt_some h).2⟩

/-- A row written over itself changes nothing. -/
theorem upsert_self (hn : (rows.map key).Nodup) (ha : a ∈ rows) (hm : merge a a = a) :
    upsert key merge a rows = rows := by
  rw [upsert_of_old ((rowAt_eq_some hn).mpr ⟨ha, rfl⟩)]
  conv_rhs => rw [← map_id rows]
  refine map_congr_left (fun r hr => ?_)
  split
  · rename_i hk
    rw [inj_on_of_nodup_map hn hr ha hk]
    exact hm
  · rfl

theorem keys_upsert (hm : ∀ r, key r = key a → key (merge r a) = key a) :
    (upsert key merge a rows).map key =
      if rowAt key (key a) rows = none then rows.map key ++ [key a] else rows.map key := by
  split
  · rename_i h
    rw [upsert_of_new h, map_append, map_cons, map_nil]
  · rename_i h
    obtain ⟨r, hr⟩ := Option.ne_none_iff_exists'.mp h
    rw [upsert_of_old hr, List.map_map]
    refine map_congr_left (fun r _ => ?_)
    rw [Function.comp_apply]
    split
    · rename_i hk
      rw [hm r hk, hk]
    · rfl

theorem nodup_keys_upsert {a : α} {rows : List α}
    (hm : ∀ r, key r = key a → key (merge r a) = key a) (hn : (rows.map key).Nodup) :
    ((upsert key merge a rows).map key).Nodup := by
  grind [upsert]

/-- Looking for a row of another key finds what it found before. -/
theorem find?_upsert {p : α → Bool} (hm : ∀ r, key r = key a → key (merge r a) = key a)
    (hp : ∀ r, key r = key a → p r = false) : (upsert key merge a rows).find? p = rows.find? p := by
  cases h : rowAt key (key a) rows with
  | none => rw [upsert_of_new h, List.find?_append, List.find?_singleton, hp a rfl]; simp
  | some r =>
    rw [upsert_of_old h]
    clear h
    induction rows with
    | nil => rfl
    | cons b rows ih => grind

/-- What holds of the old rows and of the new one, merged or not, holds of all. -/
theorem forall_mem_upsert {P : α → Prop} (h : ∀ r ∈ rows, P r) (ha : P a)
    (hm : ∀ r ∈ rows, key r = key a → P (merge r a)) : ∀ r ∈ upsert key merge a rows, P r := by
  grind [upsert]

/-- A map answers with what was put in last. -/
theorem mem_upsert_replace (h : r ∈ upsert key (fun _ new => new) a rows) :
    r = a ∨ (r ∈ rows ∧ key r ≠ key a) := by
  grind [upsert]

theorem rowAt_replace : rowAt key k (upsert key (fun _ new => new) a rows) =
      if k = key a then some a else rowAt key k rows := by
  split
  · rename_i hk
    cases h : rowAt key (key a) rows with
    | none =>
      rw [upsert_of_new h, hk, rowAt, List.find?_append]
      rw [rowAt] at h
      rw [h]
      simp
    | some r =>
      rw [upsert_of_old h, hk]
      induction rows with
      | nil => cases h
      | cons b rows ih =>
        by_cases hb : key b = key a
        · simp [rowAt, hb]
        · have hrest : rowAt key (key a) rows = some r := by simpa [rowAt, hb] using h
          have := ih hrest
          simpa [rowAt, hb] using this
  · rename_i hk
    exact find?_upsert (fun _ _ => rfl)
      (fun r hr => decide_eq_false (fun h => hk (h.symm.trans hr)))

end Program.Keyed
