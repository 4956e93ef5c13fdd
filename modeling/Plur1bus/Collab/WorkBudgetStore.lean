import Plur1bus.Collab.WorkBudget

/-!
What one call does to the store. A reserve that throws leaves it as it was,
however far up the check was that refused; one that goes through adds the tokens
at every level of the budget, and each level had room for them. The first settle
or release of a reservation takes the tokens away again at the same levels, and
every later one finds its flag down and does nothing.
-/

namespace Plur1bus.Collab.WorkBudget

open List

/-- The same change of the counters at every budget of a path. -/
def shift (cells : ℕ → Cell) (path : List ℕ) (used reserved : ℤ) (c : ℕ) : Cell :=
  if c ∈ path then ⟨(cells c).used + used, (cells c).reserved + reserved⟩ else cells c

theorem shift_nil (cells : ℕ → Cell) (used reserved : ℤ) : shift cells [] used reserved = cells := by
  funext c
  simp [shift]

variable {cell : ℕ} {path : List ℕ}

/-- What the levels above do is not seen at the own level, and the other way round. -/
theorem update_shift (cells : ℕ → Cell) (h : cell ∉ path) (used reserved : ℤ) :
    Function.update (shift cells path used reserved) cell
      ⟨(cells cell).used + used, (cells cell).reserved + reserved⟩ =
      shift cells (cell :: path) used reserved := by
  funext c
  by_cases hc : c = cell
  · subst hc
    simp [shift]
  · simp [shift, hc]

theorem shift_update (cells : ℕ → Cell) (h : cell ∉ path) (used reserved : ℤ) :
    shift (Function.update cells cell
      ⟨(cells cell).used + used, (cells cell).reserved + reserved⟩) path used reserved =
      shift cells (cell :: path) used reserved := by
  funext c
  by_cases hc : c = cell
  · subst hc
    simp [shift, h]
  · simp [shift, hc]

theorem shift_sum (cells : ℕ → Cell) (path : List ℕ) (used reserved : ℤ) (c : ℕ) :
    (shift cells path used reserved c).used + (shift cells path used reserved c).reserved =
      (cells c).used + (cells c).reserved + if c ∈ path then used + reserved else 0 := by
  unfold shift
  split_ifs
  · show (cells c).used + used + ((cells c).reserved + reserved) = _
    omega
  · omega

/-! ### Reserving -/

theorem reserve_none (tokens : Number) (b : Budget) (s : Store)
    (h : (reserve tokens b s).1 = none) : (reserve tokens b s).2 = s := by
  induction b with
  | nil => cases h
  | cons level parent ih =>
    rw [reserve] at h ⊢
    cases htokens : tokens.safeFrom 0 with
    | none => rfl
    | some n => grind

/-- What a reserve that goes through leaves behind. -/
structure Reserved (n : ℕ) (b : Budget) (s : Store) (r : Reservation) (s' : Store) : Prop where
  cells_eq : r.map Link.cell = b.map Level.cell
  tokens : ∀ link ∈ r, link.tokens = n
  fresh : ∀ link ∈ r, s.flags ≤ link.active ∧ link.active < s'.flags
  later : s.flags ≤ s'.flags
  own : (r.map Link.active).Nodup
  counted : s'.cells = shift s.cells (b.map Level.cell) 0 n
  active : ∀ flag, s'.active flag = (s.active flag || (r.map Link.active).contains flag)
  room : ∀ level ∈ b, (s.cells level.cell).used + (s.cells level.cell).reserved + n ≤ level.limit

variable {s : Store} {r : Reservation}

theorem reserve_some {tokens : Number} {b : Budget} {s' : Store} (hb : (b.map Level.cell).Nodup)
    (h : reserve tokens b s = (some r, s')) : Reserved ((tokens.safeFrom 0).getD 0) b s r s' := by
  induction b generalizing r s' with
  | nil =>
    obtain ⟨hr, rfl⟩ := Prod.mk.inj h
    cases hr
    refine ⟨rfl, by simp, by simp, le_refl _, nodup_nil, (shift_nil _ _ _).symm, by simp, by simp⟩
  | cons level parent ih =>
    rw [map_cons, nodup_cons] at hb
    rw [reserve] at h
    cases htokens : tokens.safeFrom 0 with
    | none =>
      rw [htokens] at h
      cases h
    | some n =>
      simp only [htokens] at h
      rw [htokens] at ih
      by_cases hfull : (s.cells level.cell).used + (s.cells level.cell).reserved + n > level.limit
      · rw [if_pos hfull] at h
        cases h
      · rw [if_neg hfull] at h
        rcases hup : reserve tokens parent s with ⟨_ | upstream, above⟩
        · rw [hup] at h
          cases h
        · rw [hup] at h
          obtain ⟨hr, rfl⟩ := Prod.mk.inj h
          cases hr
          have hrec := ih hb.2 hup
          have hown : above.cells level.cell = s.cells level.cell := by
            rw [hrec.counted, shift, if_neg hb.1]
          refine ⟨?_, ?_, ?_, ?_, ?_, ?_, ?_, ?_⟩
          · rw [map_cons, map_cons, hrec.cells_eq]
          · exact forall_mem_cons.mpr ⟨rfl, hrec.tokens⟩
          · refine forall_mem_cons.mpr ⟨⟨hrec.later, Nat.lt_succ_self _⟩, fun link hlink => ?_⟩
            exact ⟨(hrec.fresh link hlink).1, Nat.lt_succ_of_lt (hrec.fresh link hlink).2⟩
          · exact Nat.le_succ_of_le hrec.later
          · rw [map_cons, nodup_cons]
            refine ⟨?_, hrec.own⟩
            rintro hin
            obtain ⟨link, hlink, hsame⟩ := mem_map.mp hin
            have := (hrec.fresh link hlink).2
            simp only [Store.count_flags] at hsame
            omega
          · show Function.update above.cells level.cell _ = _
            rw [hown, hrec.counted, map_cons, Option.getD_some, update_shift _ hb.1]
          · intro flag
            show Function.update above.active above.flags true flag = _
            by_cases hflag : flag = above.flags
            · simp [hflag]
            · rw [Function.update_of_ne hflag, hrec.active]
              simp [hflag]
          · refine forall_mem_cons.mpr ⟨?_, hrec.room⟩
            simp only [Option.getD_some]
            omega

/-! ### Settling and releasing -/

theorem release_eq_settle (r : Reservation) (s : Store) : release r s = settle 0 r s := by
  induction r generalizing s with
  | nil => rfl
  | cons link upstream ih =>
    rw [release, settle]
    split_ifs
    · exact ih _
    · rfl

/-- A reservation whose flag is down does nothing more. -/
theorem settle_closed {actual : ℕ} (h : ∀ link ∈ r, s.active link.active = false) :
    settle actual r s = s := by
  cases r with
  | nil => rfl
  | cons link upstream =>
    rw [settle, h link mem_cons_self]
    rfl

/-- What the first settle does; a release does the same with nothing spent. -/
structure Closed (n actual : ℕ) (r : Reservation) (s s' : Store) : Prop where
  counted : s'.cells = shift s.cells (r.map Link.cell) actual (-n)
  active : ∀ flag, s'.active flag = (s.active flag && !(r.map Link.active).contains flag)
  flags : s'.flags = s.flags

theorem settle_active {n actual : ℕ} (hcells : (r.map Link.cell).Nodup)
    (hown : (r.map Link.active).Nodup) (htokens : ∀ link ∈ r, link.tokens = n)
    (hactive : ∀ link ∈ r, s.active link.active = true) : Closed n actual r s (settle actual r s) := by
  induction r generalizing s with
  | nil => exact ⟨(shift_nil _ _ _).symm, by simp [settle], rfl⟩
  | cons link upstream ih =>
    rw [map_cons, nodup_cons] at hcells hown
    obtain ⟨hlink, hup⟩ := forall_mem_cons.mp htokens
    obtain ⟨hon, honUp⟩ := forall_mem_cons.mp hactive
    rw [settle, if_pos hon]
    -- lowering the own flag leaves those above up
    have hrec := @ih (Store.count { s with active := Function.update s.active link.active false }
        link.cell actual (-link.tokens)) hcells.2 hown.2 hup (fun l hl => by
      show Function.update s.active link.active false l.active = true
      rw [Function.update_of_ne, honUp l hl]
      rintro hsame
      exact hown.1 (hsame ▸ mem_map_of_mem hl))
    refine ⟨?_, ?_, hrec.flags⟩
    · rw [hrec.counted, map_cons, ← shift_update _ hcells.1, hlink]
      rfl
    · intro flag
      rw [hrec.active]
      show (Function.update s.active link.active false flag && _) = _
      by_cases hflag : flag = link.active
      · simp [hflag]
      · rw [Function.update_of_ne hflag]
        simp [hflag]

end Plur1bus.Collab.WorkBudget
