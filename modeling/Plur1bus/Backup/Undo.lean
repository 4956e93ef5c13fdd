import Plur1bus.Backup.Running

/-!
The way back. The log is undone from its end; what is left of it says what is still to be
put back, and what has been put back is as it was. If one step cannot be undone the others
still are, and nothing is lost.
-/

namespace Plur1bus.Backup

open Program FileTree List

variable {β : Type} {env : Env β} {m : Manifest} {staging pre : Path} {h₀ home home' : Node β}
  {mark : Option (Option β)} {ok : Bool} {rest : List (ℕ × Done)} {n : ℕ} {d : Done}

/-- `rem` is still to be undone; `ok` says that the rest could be. -/
structure Undoing (m : Manifest) (staging pre : Path) (h₀ : Node β) (mark : Option (Option β))
    (ok : Bool) (rem : List (ℕ × Done)) (home : Node β) : Prop where
  beside : Beside m staging h₀ mark home
  logged : ∀ x ∈ rem, Logged m staging pre h₀ home x.2
  nodup : (rem.map fun x => x.2.live).Nodup
  numbers : (rem.map Prod.fst).Nodup
  whole : ∀ t ∈ m.slots, t ∉ rem.map (fun x => x.2.live) → find t h₀ ≠ none →
    find t home = find t h₀ ∨ find (pre ++ t) home = find t h₀
  back : ok = true → ∀ t ∈ m.slots, t ∉ rem.map (fun x => x.2.live) → find t home = find t h₀
  rejected : entry (find (rejectedAt staging) home) = none ∨
    entry (find (rejectedAt staging) home) = some none
  free : ∀ x ∈ rem, x.2.placed = true → find (rejectedAt staging ++ [toString x.1]) home = none

theorem Undoing.kept {rem : List (ℕ × Done)} (h : Undoing m staging pre h₀ mark ok rem home)
    (hmark : mark ≠ none) : Kept m pre h₀ home := by
  refine ⟨fun t ht hlive => ?_, .inl (h.beside.marked hmark)⟩
  by_cases hmem : t ∈ rem.map fun x => x.2.live
  · obtain ⟨x, hx, rfl⟩ := mem_map.mp hmem
    exact .inr ((h.logged x hx).whole hlive)
  · exact h.whole t ht hmem hlive

/-- A step that is not undone is passed over. -/
theorem Undoing.skip (h : Undoing m staging pre h₀ mark ok ((n, d) :: rest) home) :
    Undoing m staging pre h₀ mark false rest home where
  beside := h.beside
  logged := fun x hx => h.logged x (mem_cons_of_mem _ hx)
  nodup := (nodup_cons.mp h.nodup).2
  numbers := (nodup_cons.mp h.numbers).2
  whole := by
    intro t ht hnot hlive
    by_cases heq : t = d.live
    · subst heq
      exact .inr ((h.logged _ mem_cons_self).whole hlive)
    · refine h.whole t ht ?_ hlive
      rw [map_cons, mem_cons, not_or]
      exact ⟨heq, hnot⟩
  back := fun hok => (by cases hok)
  rejected := h.rejected
  free := fun x hx => h.free x (mem_cons_of_mem _ hx)

/-- The log of a swap, from its end. -/
theorem Swapping.undoing {seen : List Path} {done : List Done}
    (h : Swapping m staging pre h₀ mark seen done home) :
    Undoing m staging pre h₀ mark true (done.zipIdx.map fun x => (x.2, x.1)).reverse home := by
  have hlives : ((done.zipIdx.map fun x => (x.2, x.1)).reverse.map fun x => x.2.live) =
      (done.map Done.live).reverse := by
    rw [map_reverse, List.map_map]
    congr 1
    have hfst : done.zipIdx.map Prod.fst = done := zipIdx_map_fst 0 done
    conv_rhs => rw [← hfst, List.map_map]
    rfl
  have hnumbers : ((done.zipIdx.map fun x => (x.2, x.1)).reverse.map Prod.fst).Nodup := by
    rw [map_reverse, List.map_map, nodup_reverse]
    have hsnd : done.zipIdx.map (Prod.fst ∘ fun x => (x.2, x.1)) = List.range' 0 done.length :=
      zipIdx_map_snd 0 done
    rw [hsnd]
    exact nodup_range'
  have hmem : ∀ t, t ∉ (done.map Done.live).reverse → t ∉ done.map Done.live := fun t hnot hin =>
    hnot (mem_reverse.mpr hin)
  refine ⟨h.beside, ?_, ?_, hnumbers, ?_, ?_, ?_, ?_⟩
  · intro x hx
    obtain ⟨y, hy, rfl⟩ := mem_map.mp (mem_reverse.mp hx)
    exact (h.logged y.1 (fst_mem_of_mem_zipIdx hy)).1
  · rw [hlives, nodup_reverse]
    exact h.nodup
  · rw [hlives]
    exact fun t ht hnot _ => .inl (h.others t ht (hmem t hnot)).1
  · rw [hlives]
    exact fun _ t ht hnot => (h.others t ht (hmem t hnot)).1
  · rw [h.rejected]
    exact .inl rfl
  · intro x _ _
    rw [find_append, h.rejected]
    exact find_none _

theorem toString_injective {a b : ℕ} (h : toString a = toString b) : a = b := by
  have hdigits : Nat.toDigits 10 a = Nat.toDigits 10 b := by
    rw [← Nat.toList_repr, ← Nat.toList_repr]
    exact congrArg String.toList h
  rw [← @Nat.ofDigitChars_ten_toDigits a, hdigits, Nat.ofDigitChars_ten_toDigits]

section Steps

variable (L : Layout m staging pre) (hmark : mark ≠ none)

include L in
/-- The directory for what is put away can be created at any time. -/
theorem Undoing.grow {rem : List (ℕ × Done)} (h : Undoing m staging pre h₀ mark ok rem home)
    (hmark : mark ≠ none) (n : ℕ) :
    Undoing m staging pre h₀ mark ok rem (grow ((rejectedAt staging).take n) home) := by
  have hpre : (rejectedAt staging).take n <+: rejectedAt staging := List.take_prefix n _
  have hlive : ∀ t ∈ m.slots, find t (FileTree.grow ((rejectedAt staging).take n) home) = find t home :=
    fun t ht => find_grow_of_outside (fun hp => (L.staging_live ht _).2 (hp.trans hpre)) home
  have haside : ∀ p, find (pre ++ p) (FileTree.grow ((rejectedAt staging).take n) home) =
      find (pre ++ p) home := fun p =>
    find_grow_of_outside (fun hp => (L.aside_staging p _).1 (hp.trans hpre)) home
  refine ⟨h.beside.grow (.inl hmark), ?_, h.nodup, h.numbers, ?_, ?_, ?_, ?_⟩
  · intro x hx
    have hl := h.logged x hx
    exact hl.frame (hlive _ hl.slot) (haside _)
  · intro t ht hnot hold
    rw [hlive t ht, haside]
    exact h.whole t ht hnot hold
  · intro hok t ht hnot
    rw [hlive t ht]
    exact h.back hok t ht hnot
  · cases hfind : find (rejectedAt staging) home with
    | none => exact entry_find_grow_of_none hfind _
    | some t =>
      rw [entry_find_grow hfind, ← hfind]
      exact h.rejected
  · intro x hx hplaced
    rw [find_grow_of_outside]
    · exact h.free x hx hplaced
    · grind

include L in
/-- What was placed is put away. -/
theorem Undoing.reject (h : Undoing m staging pre h₀ mark ok ((n, d) :: rest) home)
    (hr : rename d.live (rejectedAt staging ++ [toString n]) home = some home') :
    Undoing m staging pre h₀ mark ok ((n, { d with placed := false }) :: rest) home' := by
  have hl := h.logged (n, d) mem_cons_self
  have hapart : Apart d.live (rejectedAt staging ++ [toString n]) := by
    rw [append_assoc]
    exact (L.staging_live hl.slot _).symm
  have hlive : ∀ t ∈ m.slots, t ≠ d.live → find t home' = find t home := by
    intro t ht hne
    refine find_rename_apart hapart hr (L.apart _ hl.slot t ht hne.symm) ?_
    rw [append_assoc]
    exact L.staging_live ht _
  have haside : ∀ p, find (pre ++ p) home' = find (pre ++ p) home := by
    intro p
    refine find_rename_apart hapart hr (L.aside_live hl.slot p).symm ?_
    rw [append_assoc]
    exact (L.aside_staging p _).symm
  have hnot : d.live ∉ rest.map fun x => x.2.live := (nodup_cons.mp h.nodup).1
  refine ⟨h.beside.rename hapart hr ?_ ?_ ?_, ?_, h.nodup, h.numbers, ?_, ?_, ?_, ?_⟩
  · refine ⟨L.marker _ hl.slot, fun hp => L.markerTrees.2.1 (List.IsPrefix.trans ?_ hp)⟩
    rw [append_assoc]
    exact prefix_append staging _
  · refine ⟨(L.stagingTree _ hl.slot).2, fun hp => ?_⟩
    have hle := hp.length_le
    simp only [length_append, length_singleton] at hle
    omega
  · refine fun t ht => ⟨L.not_above hl.slot ht, .inl ?_⟩
    rw [append_assoc]
    exact (L.staging_live ht _).1
  · intro x hx
    rw [mem_cons] at hx
    obtain rfl | hx := hx
    · refine ⟨hl.slot, fun _ => find_rename_src hapart hr, fun hp => (by cases hp), ?_, hl.unmoved⟩
      intro p hp
      obtain ⟨rfl, hsome, hfind⟩ := hl.moved p hp
      exact ⟨rfl, hsome, (haside _).trans hfind⟩
    · have hlx := h.logged x (mem_cons_of_mem _ hx)
      have hne : x.2.live ≠ d.live := fun heq => hnot (mem_map.mpr ⟨x, hx, heq⟩)
      exact hlx.frame (hlive _ hlx.slot hne) (haside _)
  · intro t ht hnot' hold
    have hne : t ≠ d.live := fun heq => hnot' (heq ▸ mem_cons_self)
    rw [hlive t ht hne, haside]
    exact h.whole t ht hnot' hold
  · intro hok t ht hnot'
    have hne : t ≠ d.live := fun heq => hnot' (heq ▸ mem_cons_self)
    rw [hlive t ht hne]
    exact h.back hok t ht hnot'
  · rw [entry_find_rename hapart hr (L.staging_live hl.slot _).2]
    · exact h.rejected
    · simp_all
  · intro x hx hplaced
    rw [mem_cons] at hx
    obtain rfl | hx := hx
    · cases hplaced
    have hne : n ≠ x.1 := fun heq => (nodup_cons.mp h.numbers).1 (mem_map.mpr ⟨x, hx, heq.symm⟩)
    rw [find_rename_apart hapart hr]
    · exact h.free x (mem_cons_of_mem _ hx) hplaced
    · rw [append_assoc]
      exact (L.staging_live hl.slot _).symm
    · refine Apart.append_left ⟨fun hp => hne ?_, fun hp => hne ?_⟩ _
      · exact toString_injective (cons_prefix_cons.mp hp).1
      · exact (toString_injective (cons_prefix_cons.mp hp).1).symm

include L in
/-- What was moved aside is moved back. -/
theorem Undoing.moveBack {p : Path} (h : Undoing m staging pre h₀ mark ok ((n, d) :: rest) home)
    (hp : d.movedTo = some p) (hr : rename p d.live home = some home') :
    Undoing m staging pre h₀ mark ok rest home' := by
  have hl := h.logged (n, d) mem_cons_self
  obtain ⟨rfl, hsome, hfind⟩ := hl.moved p hp
  have hapart : Apart (pre ++ d.live) d.live := L.aside_live hl.slot d.live
  have hlive : ∀ t ∈ m.slots, t ≠ d.live → find t home' = find t home := fun t ht hne =>
    find_rename_apart hapart hr (L.aside_live ht _) (L.apart _ hl.slot t ht hne.symm)
  have haside : ∀ t ∈ m.slots, t ≠ d.live → find (pre ++ t) home' = find (pre ++ t) home :=
    fun t ht hne => find_rename_apart hapart hr (L.aside_aside hl.slot ht hne.symm)
      (L.aside_live hl.slot t).symm
  have hstaging : ∀ q, find (staging ++ q) home' = find (staging ++ q) home := fun q =>
    find_rename_apart hapart hr (L.aside_staging _ q) (L.staging_live hl.slot q).symm
  have hback : find d.live home' = find d.live h₀ := (find_rename_dst hapart hr).trans hfind
  have hnot : d.live ∉ rest.map fun x => x.2.live := (nodup_cons.mp h.nodup).1
  have hcons : ∀ t, t ≠ d.live → t ∉ rest.map (fun x => x.2.live) →
      t ∉ ((n, d) :: rest).map fun x => x.2.live := by
    intro t hne hnot'
    rw [map_cons, mem_cons, not_or]
    exact ⟨hne, hnot'⟩
  refine ⟨h.beside.rename hapart hr ?_ ?_ ?_, ?_, (nodup_cons.mp h.nodup).2,
    (nodup_cons.mp h.numbers).2, ?_, ?_, ?_, ?_⟩
  · exact ⟨fun hpre => L.markerTrees.1.1 ((prefix_append pre _).trans hpre), L.marker _ hl.slot⟩
  · exact ⟨fun hpre => L.trees.1 ((prefix_append pre _).trans hpre), (L.stagingTree _ hl.slot).2⟩
  · exact fun t ht => ⟨.inl (L.aside_live ht _).1, L.not_above hl.slot ht⟩
  · intro x hx
    have hlx := h.logged x (mem_cons_of_mem _ hx)
    have hne : x.2.live ≠ d.live := fun heq => hnot (mem_map.mpr ⟨x, hx, heq⟩)
    exact hlx.frame (hlive _ hlx.slot hne) (haside _ hlx.slot hne)
  · intro t ht hnot' hold
    by_cases heq : t = d.live
    · exact .inl (heq ▸ hback)
    · rw [hlive t ht heq, haside t ht heq]
      exact h.whole t ht (hcons t heq hnot') hold
  · intro hok t ht hnot'
    by_cases heq : t = d.live
    · exact heq ▸ hback
    · rw [hlive t ht heq]
      exact h.back hok t ht (hcons t heq hnot')
  · rw [hstaging]
    exact h.rejected
  · intro x hx hplaced
    rw [append_assoc, hstaging, ← append_assoc]
    exact h.free x (mem_cons_of_mem _ hx) hplaced

/-- Where nothing was, nothing is. -/
theorem Undoing.leave (h : Undoing m staging pre h₀ mark ok ((n, d) :: rest) home)
    (hd : d.placed = false) (hp : d.movedTo = none) : Undoing m staging pre h₀ mark ok rest home := by
  have hl := h.logged (n, d) mem_cons_self
  have hskip := h.skip
  refine ⟨h.beside, hskip.logged, hskip.nodup, hskip.numbers, hskip.whole, fun hok t ht hnot => ?_,
    h.rejected, hskip.free⟩
  by_cases heq : t = d.live
  · subst heq
    exact (hl.unplaced hd).trans (hl.unmoved hp).symm
  · refine h.back hok t ht ?_
    rw [map_cons, mem_cons, not_or]
    exact ⟨heq, hnot⟩

/-- Some step of the way back fails. -/
def Faulty (env : Env β) : Prop := ∃ n, env.undoFault n = true

include L hmark in
theorem triple_rejectPlaced (hplaced : d.placed = true) :
    Triple (On fun _ home => Undoing m staging pre h₀ mark ok ((n, d) :: rest) home)
      (rejectPlaced env staging n d)
      (fun _ => On fun _ home =>
        Undoing m staging pre h₀ mark ok ((n, { d with placed := false }) :: rest) home)
      (fun _ => On fun _ home => Undoing m staging pre h₀ mark ok ((n, d) :: rest) home ∧ Faulty env)
      (fun d => Kept m pre h₀ d.home) := by
  have hdst : staging ++ [".rejected", toString n] = rejectedAt staging ++ [toString n] := by simp
  unfold rejectPlaced
  refine Triple.bind (Q := fun _ => On fun _ home =>
    Undoing m staging pre h₀ mark ok ((n, d) :: rest) home ∧
      reaches (rejectedAt staging ++ [toString n]) home = true) (triple_operate ?_ ?_ ?_ ?_) fun _ => ?_
  · intro _ home home' hh hrun
    unfold mkdirs at hrun
    split at hrun
    · cases hrun
    next hblocked =>
      cases hrun
      have hfull := hh.grow L hmark (rejectedAt staging).length
      rw [take_length] at hfull
      exact ⟨hfull, reaches_grow (Bool.not_eq_true _ ▸ hblocked) _⟩
  · intro _ home hh hrun
    unfold mkdirs at hrun
    rw [blocked_append_singleton hh.beside.stagingTree hh.rejected] at hrun
    cases hrun
  · exact fun k _ home hh hfault => ⟨hh.grow L hmark k, hfault⟩
  · exact fun k _ home hh => (hh.grow L hmark k).kept hmark
  rw [hdst]
  refine triple_operate ?_ ?_ ?_ ?_
  · exact fun _ home home' hh hrun => hh.1.reject L hrun
  · rintro _ home ⟨hh, hreaches⟩ hrun
    have hl := hh.logged (n, d) mem_cons_self
    obtain ⟨u, -, -, hsome, hfind⟩ := hl.placed hplaced
    obtain ⟨t, ht⟩ := Option.isSome_iff_exists.mp hsome
    have hapart : Apart d.live (rejectedAt staging ++ [toString n]) := by
      rw [append_assoc]
      exact (L.staging_live hl.slot _).symm
    obtain ⟨home', hok⟩ := rename_of_none hapart (hfind.trans ht) hreaches
      (hh.free (n, d) mem_cons_self hplaced)
    cases hok.symm.trans hrun
  · exact fun k _ home hh hfault => ⟨hh.1, hfault⟩
  · exact fun k _ home hh => hh.1.kept hmark

include L hmark in
theorem triple_undoMove (hunplaced : d.placed = false) {R : Failure → Disk β → Prop} :
    Triple (On fun _ home => Undoing m staging pre h₀ mark ok ((n, d) :: rest) home)
      (undoMove env d)
      (fun b => On fun _ home => Undoing m staging pre h₀ mark (ok && b) rest home ∧ (b = false → Faulty env))
      R (fun d => Kept m pre h₀ d.home) := by
  unfold undoMove
  cases hp : d.movedTo with
  | none =>
    refine Triple.pure fun w hh => ⟨?_, fun hb => (by cases hb)⟩
    rw [Bool.and_true]
    exact Undoing.leave hh hunplaced hp
  | some p =>
    have hmove : Triple (On fun _ home => Undoing m staging pre h₀ mark ok ((n, d) :: rest) home)
        (renames env env.undoFault p d.live)
        (fun _ => On fun _ home => Undoing m staging pre h₀ mark ok rest home)
        (fun _ => On fun _ home => Undoing m staging pre h₀ mark ok ((n, d) :: rest) home ∧ Faulty env)
        (fun d => Kept m pre h₀ d.home) := by
      refine triple_operate ?_ ?_ ?_ ?_
      · exact fun _ home home' hh hrun => hh.moveBack L hp hrun
      · intro _ home hh hrun
        have hl := hh.logged (n, d) mem_cons_self
        obtain ⟨rfl, hsome, hfind⟩ := hl.moved p hp
        obtain ⟨t, ht⟩ := Option.isSome_iff_exists.mp hsome
        have hlive : find d.live h₀ ≠ none := by
          rw [ht]
          exact Option.some_ne_none t
        obtain ⟨home', hok⟩ := rename_of_none (L.aside_live hl.slot _) (hfind.trans ht)
          (hh.beside.reach _ hl.slot hlive) (hl.unplaced hunplaced)
        cases hok.symm.trans hrun
      · exact fun k _ home hh hfault => ⟨hh, hfault⟩
      · exact fun k _ home hh => hh.kept hmark
    refine Triple.attempt_bind hmove (fun _ => Triple.pure fun w hh => ?_) fun _ => Triple.pure fun w hh => ?_
    · rw [Bool.and_true]
      exact ⟨hh, fun hb => (by cases hb)⟩
    · rw [Bool.and_false]
      exact ⟨Undoing.skip hh.1, fun _ => hh.2⟩

include L hmark in
theorem triple_undo {R : Failure → Disk β → Prop} :
    Triple (On fun _ home => Undoing m staging pre h₀ mark ok ((n, d) :: rest) home)
      (undo env staging n d)
      (fun b => On fun _ home => Undoing m staging pre h₀ mark (ok && b) rest home ∧ (b = false → Faulty env))
      R (fun d => Kept m pre h₀ d.home) := by
  unfold undo
  refine Triple.ite (fun hplaced => ?_) fun hplaced => ?_
  · refine Triple.attempt_bind (triple_rejectPlaced L hmark hplaced) (fun _ => ?_) fun _ => ?_
    · exact triple_undoMove (d := { d with placed := false }) L hmark rfl
    · refine Triple.pure fun w hh => ?_
      rw [Bool.and_false]
      exact ⟨Undoing.skip hh.1, fun _ => hh.2⟩
  · exact triple_undoMove L hmark (Bool.not_eq_true _ ▸ hplaced)

include L hmark in
theorem triple_rollBack (rem : List (ℕ × Done)) {R : Failure → Disk β → Prop} :
    Triple (On fun _ home => Undoing m staging pre h₀ mark ok rem home) (rollBack env staging rem)
      (fun b => On fun _ home => Undoing m staging pre h₀ mark (ok && b) [] home ∧ (b = false → Faulty env))
      R (fun d => Kept m pre h₀ d.home) := by
  induction rem generalizing ok with
  | nil =>
    refine Triple.pure fun w hh => ⟨?_, fun hb => (by cases hb)⟩
    rw [Bool.and_true]
    exact hh
  | cons x rest ih =>
    obtain ⟨n, d⟩ := x
    unfold rollBack
    refine Triple.bind (triple_undo L hmark) fun here => ?_
    refine Triple.of_pre fun w₀ hw₀ => ?_
    refine Triple.bind ((@ih (ok && here)).pre fun w hw => hw ▸ hw₀.1) fun others => ?_
    refine Triple.pure fun w hw => ?_
    rw [← Bool.and_assoc]
    refine ⟨hw.1, fun hb => ?_⟩
    rw [Bool.and_eq_false_iff] at hb
    obtain hb | hb := hb
    · exact hw₀.2 hb
    · exact hw.2 hb

end Steps

end Plur1bus.Backup
