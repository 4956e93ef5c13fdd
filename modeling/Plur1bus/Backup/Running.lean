import Plur1bus.Backup.Swap

/-!
The swap as a program: whatever operation fails or is cut off, what it leaves is a swap that
has come some way, and if nothing fails every unit is in place and every slot was looked at.
-/

namespace Plur1bus.Backup

open Program FileTree List

variable {β : Type} {env : Env β} {m : Manifest} {staging pre : Path} {h₀ home : Node β}
  {mark : Option (Option β)} {seen : List Path} {done : List Done}

/-- A condition on the log and the home. -/
def On (K : List Done → Node β → Prop) (d : Disk β) : Prop := K d.done d.home

/-- What a crash may leave: every slot that was live is whole, in its place or aside, and
without the marker nothing was moved. -/
structure Kept (m : Manifest) (pre : Path) (h₀ home : Node β) : Prop where
  whole : ∀ t ∈ m.slots, find t h₀ ≠ none → find t home = find t h₀ ∨ find (pre ++ t) home = find t h₀
  marked : find REAPPLY_MARKER home ≠ none ∨ ∀ t ∈ m.slots, find t home = find t h₀

theorem Beside.marked (h : Beside m staging h₀ mark home) (hmark : mark ≠ none) :
    find REAPPLY_MARKER home ≠ none := by
  intro hnone
  have hm := h.marker
  rw [hnone] at hm
  exact hmark hm.symm

/-- A logged slot is in its place or aside. -/
theorem Logged.whole {d : Done} (h : Logged m staging pre h₀ home d) (hlive : find d.live h₀ ≠ none) :
    find (pre ++ d.live) home = find d.live h₀ := by
  cases hd : d.movedTo with
  | none => exact absurd (h.unmoved hd) hlive
  | some p =>
    obtain ⟨rfl, -, hfind⟩ := h.moved p hd
    exact hfind

theorem Swapping.kept (h : Swapping m staging pre h₀ mark seen done home) (hmark : mark ≠ none) :
    Kept m pre h₀ home := by
  refine ⟨fun t ht hlive => ?_, .inl (h.beside.marked hmark)⟩
  by_cases hmem : t ∈ done.map Done.live
  · obtain ⟨d, hd, rfl⟩ := mem_map.mp hmem
    exact .inr ((h.logged d hd).1.whole hlive)
  · exact .inl (h.others t ht hmem).1

theorem triple_read_any {α γ : Type} {f : Disk β → α} {k : α → Op β γ} {P C : Disk β → Prop}
    {Q : γ → Disk β → Prop} {R : Failure → Disk β → Prop}
    (hk : ∀ v, Triple (fun d => P d ∧ f d = v) (k v) Q R C) : Triple P (read f >>= k) Q R C :=
  Triple.gets_any hk

section Operate

variable {fails : ℕ → Bool} {run : Node β → Option (Node β)} {part : ℕ → Node β → Node β}
  {K K' : List Done → Node β → Prop} {R : List Done → Node β → Prop} {C : Node β → Prop}

/-- An operation is done, fails, or is interrupted. -/
theorem triple_operate (hrun : ∀ done home home', K done home → run home = some home' → K' done home')
    (hnone : ∀ done home, K done home → run home = none → R done home)
    (hfault : ∀ n done home, K done home → (∃ n, fails n = true) → R done (part n home))
    (hcut : ∀ n done home, K done home → C (part n home)) :
    Triple (On K) (operate env fails run part) (fun _ => On K') (fun _ => On R) (fun d => C d.home) := by
  unfold operate
  refine triple_read_any fun d => ?_
  cases hfails : fails d.ticks with
  | true =>
    refine Triple.bind (Q := fun _ => On R) (Triple.effect ?_ ?_) fun _ => Triple.raise fun _ => id
    · rintro _ ⟨hK, rfl⟩
      exact hfault _ _ _ hK ⟨_, hfails⟩
    · exact fun n d' hd' => hcut n _ _ hd'.1
  | false =>
    cases hhome : run d.home with
    | none =>
      refine Triple.raise ?_
      rintro _ ⟨hK, rfl⟩
      exact hnone _ _ hK hhome
    | some home =>
      refine Triple.effect ?_ ?_
      · rintro _ ⟨hK, rfl⟩
        exact hrun _ _ _ hK hhome
      · exact fun n d' hd' => hcut n _ _ hd'.1

end Operate

/-- The log grows. -/
theorem triple_setDone {K K' : List Done → Node β → Prop} {f : List Done → List Done}
    {R : Failure → Disk β → Prop} {C : Disk β → Prop}
    (h : ∀ done home, K done home → K' (f done) home) :
    Triple (On K) (setDone f) (fun _ => On K') R C :=
  Triple.modify (fun _ => rfl) fun _ hw => h _ _ hw

section Swap

variable (L : Layout m staging pre) (hmark : mark ≠ none) {F : List Done → Prop}

/-- The swap has come some way. -/
abbrev Begun (m : Manifest) (staging pre : Path) (h₀ : Node β) (mark : Option (Option β))
    (done : List Done) (home : Node β) : Prop :=
  ∃ seen, Swapping m staging pre h₀ mark seen done home

theorem Harmless.take {p : Path} (hp : Harmless m staging pre p) (n : ℕ) :
    Harmless m staging pre (p.take n) :=
  ⟨fun t ht hpre => hp.live t ht (hpre.trans (List.take_prefix n p)),
    fun t ht hpre => hp.aside t ht (hpre.trans (List.take_prefix n p)),
    fun u hu hpre => hp.staged u hu (hpre.trans (List.take_prefix n p)),
    fun hpre => hp.rejected (hpre.trans (List.take_prefix n p))⟩

include hmark in
theorem triple_createDirs {p : Path} (hp : Harmless m staging pre p) :
    Triple (On fun done home => Swapping m staging pre h₀ mark seen done home ∧ F done)
      (createDirs env env.fault p)
      (fun _ => On fun done home => Swapping m staging pre h₀ mark seen done home ∧ F done)
      (fun _ => On (Begun m staging pre h₀ mark)) (fun d => Kept m pre h₀ d.home) := by
  refine triple_operate ?_ ?_ ?_ ?_
  · rintro done home home' ⟨hh, hF⟩ hrun
    unfold mkdirs at hrun
    split at hrun
    · cases hrun
    · cases hrun
      exact ⟨hh.grow (.inl hmark) hp, hF⟩
  · exact fun done home hh _ => ⟨seen, hh.1⟩
  · exact fun n done home hh _ => ⟨seen, hh.1.grow (.inl hmark) (hp.take n)⟩
  · exact fun n done home hh => (hh.1.grow (.inl hmark) (hp.take n)).kept hmark

include L hmark in
/-- A slot is moved aside, or is not there. -/
theorem triple_moveAside {t : Path} (ht : t ∈ m.slots) (hnew : t ∉ seen) :
    Triple (On fun done home => Swapping m staging pre h₀ mark seen done home ∧ F done)
      (moveAside env pre t)
      (fun r => On fun done home => F done ∧
        ((r = none ∧ find t home = none ∧ Swapping m staging pre h₀ mark seen done home) ∨
          r = some (pre ++ t) ∧ Swapping m staging pre h₀ mark (seen ++ [t])
            (done ++ [⟨t, some (pre ++ t), false⟩]) home))
      (fun _ => On (Begun m staging pre h₀ mark)) (fun d => Kept m pre h₀ d.home) := by
  unfold moveAside
  refine triple_read_any fun v => ?_
  cases v with
  | none => exact Triple.pure fun d hd => ⟨hd.1.2, .inl ⟨rfl, hd.2, hd.1.1⟩⟩
  | some tree =>
    refine Triple.bind ((triple_createDirs hmark (L.harmless_aside ht)).pre fun d hd => hd.1) fun _ => ?_
    refine Triple.bind (Q := fun _ => On fun done home => F done ∧
      Swapping m staging pre h₀ mark (seen ++ [t]) (done ++ [⟨t, some (pre ++ t), false⟩]) home)
      (triple_operate ?_ ?_ ?_ ?_) fun _ => ?_
    · exact fun done home home' hh hrun => ⟨hh.2, hh.1.aside L ht hnew hrun⟩
    · exact fun done home hh _ => ⟨seen, hh.1⟩
    · exact fun n done home hh _ => ⟨seen, hh.1⟩
    · exact fun n done home hh => hh.1.kept hmark
    · exact Triple.pure fun d hd => ⟨hd.1, .inr ⟨rfl, hd.2⟩⟩

/-- The log only grows. -/
def Grows (F : List Done → Prop) : Prop := ∀ done d, F done → F (done ++ [d])

include L hmark in
theorem triple_moveLog {t : Path} (ht : t ∈ m.slots) (hnew : t ∉ seen) (hF : Grows F) :
    Triple (On fun done home => Swapping m staging pre h₀ mark seen done home ∧ F done)
      (moveLog env pre t)
      (fun _ => On fun done home => Swapping m staging pre h₀ mark (seen ++ [t]) done home ∧ F done)
      (fun _ => On (Begun m staging pre h₀ mark)) (fun d => Kept m pre h₀ d.home) := by
  unfold moveLog
  refine Triple.bind (triple_moveAside L hmark ht hnew) fun r => ?_
  cases r with
  | none =>
    refine Triple.pure ?_
    rintro d ⟨hFd, ⟨-, hnone, hh⟩ | ⟨hno, -⟩⟩
    · exact ⟨(hh.pass ht hnew hnone).2, hFd⟩
    · cases hno
  | some p =>
    unfold logMoved
    refine triple_setDone ?_
    rintro done home ⟨hFd, ⟨hno, -⟩ | ⟨hp, hh⟩⟩
    · cases hno
    · cases hp
      exact ⟨hh, hF _ _ hFd⟩

include L hmark in
theorem triple_moveAll {ts : List Path} (hts : ∀ t ∈ ts, t ∈ m.slots) (hnodup : (seen ++ ts).Nodup)
    (hF : Grows F) :
    Triple (On fun done home => Swapping m staging pre h₀ mark seen done home ∧ F done)
      (moveAll env pre ts)
      (fun _ => On fun done home => Swapping m staging pre h₀ mark (seen ++ ts) done home ∧ F done)
      (fun _ => On (Begun m staging pre h₀ mark)) (fun d => Kept m pre h₀ d.home) := by
  induction ts generalizing seen with
  | nil =>
    rw [append_nil]
    exact Triple.pure fun _ => id
  | cons t ts ih =>
    have hnew : t ∉ seen := by
      intro hmem
      exact disjoint_of_nodup_append hnodup hmem mem_cons_self
    have hassoc : seen ++ t :: ts = seen ++ [t] ++ ts := by simp
    unfold moveAll
    rw [hassoc]
    rw [hassoc] at hnodup
    refine Triple.bind (triple_moveLog L hmark (hts t mem_cons_self) hnew hF) fun _ => ?_
    exact ih (fun t' ht' => hts t' (mem_cons_of_mem t ht')) hnodup

/-- A slot that was looked at and is not a unit's target is gone. -/
theorem Swapping.gone (h : Swapping m staging pre h₀ mark seen done home) {s : Path}
    (hs : s ∈ m.slots) (hseen : s ∈ seen) (hunit : ∀ u ∈ m.units, u.target ≠ s) :
    find s home = none := by
  by_cases hmem : s ∈ done.map Done.live
  · obtain ⟨d, hd, rfl⟩ := mem_map.mp hmem
    have hl := (h.logged d hd).1
    cases hplaced : d.placed with
    | false => exact hl.unplaced hplaced
    | true =>
      obtain ⟨u, hu, heq, -⟩ := hl.placed hplaced
      exact absurd heq (hunit u hu)
  · rw [(h.others s hs hmem).1]
    exact h.passed s hseen hmem

/-- The slot a covered path lies in, once it was looked at. -/
def Covered (m : Manifest) (seen : List Path) (a : Path) : Prop :=
  ∃ s ∈ m.slots, s ∈ seen ∧ (∀ u ∈ m.units, u.target ≠ s) ∧ s <+: a

include L hmark in
/-- What is in a sidecar went aside with it. -/
theorem triple_moveAbsent {as : List Path}
    (has : ∀ a ∈ as, (m.covers a = false ∧ a ∈ m.slots) ∨ m.covers a = true ∧ Covered m seen a)
    (hnodup : (seen ++ as.filter fun a => !m.covers a).Nodup) (hF : Grows F) :
    Triple (On fun done home => Swapping m staging pre h₀ mark seen done home ∧ F done)
      (moveAll env pre as)
      (fun _ => On fun done home =>
        Swapping m staging pre h₀ mark (seen ++ as.filter fun a => !m.covers a) done home ∧ F done)
      (fun _ => On (Begun m staging pre h₀ mark)) (fun d => Kept m pre h₀ d.home) := by
  induction as generalizing seen with
  | nil =>
    rw [filter_nil, append_nil]
    exact Triple.pure fun _ => id
  | cons a as ih =>
    have hrest := fun a' ha' => has a' (mem_cons_of_mem a ha')
    unfold moveAll
    obtain ⟨hnot, hslot⟩ | ⟨hcovers, hcovered⟩ := has a mem_cons_self
    · have hcons : (a :: as).filter (fun a => !m.covers a) = a :: as.filter fun a => !m.covers a := by
        rw [filter_cons, hnot]
        rfl
      have hassoc : ∀ l : List Path, seen ++ a :: l = seen ++ [a] ++ l := fun l => by simp
      rw [hcons, hassoc] at hnodup ⊢
      have hnew : a ∉ seen := by
        intro hmem
        rw [← hassoc] at hnodup
        exact disjoint_of_nodup_append hnodup hmem mem_cons_self
      refine Triple.bind (triple_moveLog L hmark hslot hnew hF) fun _ => ih ?_ hnodup
      intro a' ha'
      obtain h | ⟨hc, s, hs, hseen, hunit, hpre⟩ := hrest a' ha'
      · exact .inl h
      · exact .inr ⟨hc, s, hs, mem_append_left _ hseen, hunit, hpre⟩
    · have hcons : (a :: as).filter (fun a => !m.covers a) = as.filter fun a => !m.covers a := by
        rw [filter_cons, hcovers]
        rfl
      rw [hcons] at hnodup ⊢
      refine Triple.bind (Q := fun _ => On fun done home =>
        Swapping m staging pre h₀ mark seen done home ∧ F done) ?_ fun _ => ih hrest hnodup
      obtain ⟨s, hs, hseen, hunit, r, rfl⟩ := hcovered
      unfold moveLog moveAside
      refine Triple.bind (Q := fun v => On fun done home =>
        (Swapping m staging pre h₀ mark seen done home ∧ F done) ∧ v = none)
        (triple_read_any fun v => ?_) fun v => ?_
      · cases v with
        | none => exact Triple.pure fun d hd => ⟨hd.1, rfl⟩
        | some tree =>
          refine Triple.of_pre fun d hd => ?_
          have hgone := hd.1.1.gone hs hseen hunit
          have hfind := hd.2
          rw [find_append, hgone, find_none] at hfind
          cases hfind
      · cases v with
        | none => exact Triple.pure fun d hd => hd.1
        | some p => exact Triple.of_pre fun d hd => (by cases hd.2)

/-- The units are in their places. -/
def Placed (us : List ArchiveUnit) (done : List Done) : Prop :=
  ∀ u ∈ us, ∃ d ∈ done, d.live = u.target ∧ d.placed = true

theorem placed_grows (us : List ArchiveUnit) : Grows (Placed us) := by
  intro done d h u hu
  obtain ⟨d', hd', hlive, hplaced⟩ := h u hu
  exact ⟨d', mem_append_left _ hd', hlive, hplaced⟩

theorem Placed.modify {us : List ArchiveUnit} {i : ℕ} (h : Placed us done) :
    Placed us (done.modify i fun d => { d with placed := true }) := by
  intro u hu
  obtain ⟨d, hd, hlive, hplaced⟩ := h u hu
  obtain ⟨j, hj⟩ := mem_iff_getElem?.mp hd
  by_cases hij : i = j
  · subst hij
    refine ⟨{ d with placed := true }, ?_, hlive, rfl⟩
    refine mem_of_getElem? (i := i) ?_
    rw [List.getElem?_modify_eq, hj]
    rfl
  · refine ⟨d, ?_, hlive, hplaced⟩
    refine mem_of_getElem? (i := j) ?_
    rw [List.getElem?_modify_ne _ _ hij]
    exact hj

include L hmark in
/-- A unit is swapped in. -/
theorem triple_swapUnit {us : List ArchiveUnit} {u : ArchiveUnit} (hu : u ∈ m.units)
    (hslots : ∀ t ∈ u.slots, t ∈ m.slots) (hnodup : (seen ++ u.slots).Nodup) (i : ℕ) :
    Triple (On fun done home => Swapping m staging pre h₀ mark seen done home ∧ Placed us done)
      (swapUnit env staging pre i u)
      (fun _ => On fun done home => Swapping m staging pre h₀ mark (seen ++ u.slots) done home ∧
        Placed (us ++ [u]) done)
      (fun _ => On (Begun m staging pre h₀ mark)) (fun d => Kept m pre h₀ d.home) := by
  have ht : u.target ∈ m.slots := hslots _ mem_cons_self
  have hassoc : seen ++ u.slots = seen ++ [u.target] ++ u.sidecars := by simp [ArchiveUnit.slots]
  have hnew : u.target ∉ seen := by
    intro hmem
    exact disjoint_of_nodup_append hnodup hmem mem_cons_self
  rw [hassoc] at hnodup ⊢
  unfold swapUnit
  refine Triple.bind (triple_moveAside L hmark ht hnew) fun movedTo => ?_
  refine triple_read_any fun idx => ?_
  -- The entry of the unit stays where it is while the sidecars are logged.
  let F : List Done → Prop := fun done =>
    Placed us done ∧ done[idx]? = some ⟨u.target, movedTo, false⟩
  have hF : Grows F := by
    rintro done d ⟨hplaced, hidx⟩
    refine ⟨placed_grows us done d hplaced, ?_⟩
    rw [List.getElem?_append_left (List.getElem?_eq_some_iff.mp hidx).1]
    exact hidx
  refine Triple.bind (Q := fun _ => On fun done home =>
    Swapping m staging pre h₀ mark (seen ++ [u.target]) done home ∧ F done) ?_ fun _ => ?_
  · refine Triple.modify (fun _ => rfl) ?_
    rintro w ⟨⟨hplaced, hh⟩, rfl⟩
    have hidx : (w.disk.done ++ [⟨u.target, movedTo, false⟩])[w.disk.done.length]? =
        some ⟨u.target, movedTo, false⟩ := by
      simp
    refine ⟨?_, placed_grows us _ _ hplaced, hidx⟩
    obtain ⟨rfl, hnone, hh⟩ | ⟨rfl, hh⟩ := hh
    · exact hh.logNone ht hnew hnone
    · exact hh
  refine Triple.bind (triple_moveAll L hmark (fun t hmem => hslots t (mem_cons_of_mem _ hmem))
    hnodup hF) fun _ => ?_
  refine Triple.bind (Q := fun _ => On fun done home =>
    Swapping m staging pre h₀ mark (seen ++ [u.target] ++ u.sidecars) done home ∧ F done) ?_ fun _ => ?_
  · unfold failPoint
    refine Triple.ite (fun _ => Triple.raise ?_) fun _ => Triple.pure fun _ => id
    exact fun d hd => ⟨_, hd.1⟩
  refine Triple.bind (triple_createDirs hmark (L.harmless_target ht)) fun _ => ?_
  refine Triple.bind (Q := fun _ => On fun done home =>
    Swapping m staging pre h₀ mark (seen ++ [u.target] ++ u.sidecars)
      (done.modify idx fun d => { d with placed := true }) home ∧ F done)
    (triple_operate ?_ ?_ ?_ ?_) fun _ => ?_
  · intro done home home' hh hrun
    exact ⟨hh.1.place L hu ht hh.2.2 rfl rfl hrun, hh.2⟩
  · exact fun done home hh _ => ⟨_, hh.1⟩
  · exact fun n done home hh _ => ⟨_, hh.1⟩
  · exact fun n done home hh => hh.1.kept hmark
  refine Triple.bind (Q := fun _ => On fun done home =>
    Swapping m staging pre h₀ mark (seen ++ [u.target] ++ u.sidecars) done home ∧
      Placed (us ++ [u]) done) (triple_setDone ?_) fun _ => ?_
  · rintro done home ⟨hh, hplaced, hidx⟩
    refine ⟨hh, fun u' hu' => ?_⟩
    rw [mem_append, mem_singleton] at hu'
    obtain hu' | rfl := hu'
    · exact hplaced.modify u' hu'
    · refine ⟨⟨u'.target, movedTo, true⟩, ?_, rfl, rfl⟩
      refine mem_of_getElem? (i := idx) ?_
      rw [List.getElem?_modify_eq, hidx]
      rfl
  · unfold failPoint
    refine Triple.ite (fun _ => Triple.raise ?_) fun _ => Triple.pure fun _ => id
    exact fun d hd => ⟨_, hd.1⟩

include L hmark in
theorem triple_swapUnits {us rest : List ArchiveUnit} (hunits : m.units = us ++ rest)
    (hseen : seen = us.flatMap ArchiveUnit.slots) (i : ℕ) :
    Triple (On fun done home => Swapping m staging pre h₀ mark seen done home ∧ Placed us done)
      (swapUnits env staging pre i rest)
      (fun _ => On fun done home =>
        Swapping m staging pre h₀ mark (m.units.flatMap ArchiveUnit.slots) done home ∧ Placed m.units done)
      (fun _ => On (Begun m staging pre h₀ mark)) (fun d => Kept m pre h₀ d.home) := by
  induction rest generalizing us seen i with
  | nil =>
    rw [append_nil] at hunits
    subst hunits hseen
    exact Triple.pure fun _ => id
  | cons u rest ih =>
    have hu : u ∈ m.units := by
      rw [hunits]
      exact mem_append_right _ mem_cons_self
    have hslots : ∀ t ∈ u.slots, t ∈ m.slots := fun t ht =>
      mem_append_left _ (mem_flatMap.mpr ⟨u, hu, ht⟩)
    have hseen' : seen ++ u.slots = (us ++ [u]).flatMap ArchiveUnit.slots := by
      rw [flatMap_append, flatMap_singleton, hseen]
    have hnodup : (seen ++ u.slots).Nodup := by
      have hall := L.nodup
      rw [Manifest.slots, hunits, append_cons, flatMap_append, ← hseen'] at hall
      exact hall.of_append_left.of_append_left
    unfold swapUnits
    refine Triple.bind (triple_swapUnit L hmark hu hslots hnodup i) fun _ => ?_
    exact ih (by rw [hunits, append_cons]) hseen' (i + 1)

theorem Layout.covered (L : Layout m staging pre) {a : Path} (ha : m.covers a = true) :
    Covered m (m.units.flatMap ArchiveUnit.slots) a := by
  obtain ⟨u, hu, hany⟩ := List.any_eq_true.mp ha
  obtain ⟨s, hs, hpre⟩ := List.any_eq_true.mp hany
  have hseen : s ∈ m.units.flatMap ArchiveUnit.slots := mem_flatMap.mpr ⟨u, hu, mem_cons_of_mem _ hs⟩
  exact ⟨s, mem_append_left _ hseen, hseen, L.sidecars u hu s hs, List.isPrefixOf_iff_prefix.mp hpre⟩

include L hmark in
theorem triple_swap : Triple (On fun done home => Swapping m staging pre h₀ mark [] done home)
      (swap env staging pre m)
      (fun _ => On fun done home => Swapping m staging pre h₀ mark m.slots done home ∧ Placed m.units done)
      (fun _ => On (Begun m staging pre h₀ mark)) (fun d => Kept m pre h₀ d.home) := by
  unfold swap
  refine Triple.bind ((triple_swapUnits L hmark (nil_append _).symm rfl 0).pre ?_) fun _ => ?_
  · exact fun d hd => ⟨hd, fun u hu => absurd hu not_mem_nil⟩
  refine triple_moveAbsent L hmark ?_ L.nodup (placed_grows m.units)
  intro a ha
  cases hcovers : m.covers a with
  | true => exact .inr ⟨rfl, L.covered hcovers⟩
  | false =>
    refine .inl ⟨rfl, mem_append_right _ (mem_filter.mpr ⟨ha, ?_⟩)⟩
    rw [hcovers]
    rfl

end Swap

end Plur1bus.Backup
