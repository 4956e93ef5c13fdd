import Plur1bus.Backup.Undo

/-!
A restore as a whole. The marker is written before anything is moved and goes only after
everything is back, so whatever a crash leaves, a home without the marker is the old one. A
restore that fails has put everything back, unless a step of the way back failed too; one
that succeeds has the units in place and what they replaced under the pre-restore tree.
-/

namespace Plur1bus.Backup

open Program FileTree List

variable {β : Type} {env : Env β} {m : Manifest} {staging pre : Path} {h₀ home home' : Node β}
  {mark : Option (Option β)} {seen : List Path} {done : List Done} {R : Failure → Disk β → Prop}

/-- Every slot is as it was. -/
def Intact (m : Manifest) (h₀ home : Node β) : Prop := ∀ t ∈ m.slots, find t home = find t h₀

theorem Intact.kept (h : Intact m h₀ home) : Kept m pre h₀ home := ⟨fun t ht _ => .inl (h t ht), .inr h⟩

variable {p : Path} {f : Node β → Node β}

theorem Intact.alter_apart (h : Intact m h₀ home) (hp : ∀ t ∈ m.slots, Apart p t) :
    Intact m h₀ (alter p f home) := by
  intro t ht
  rw [find_alter_apart (hp t ht)]
  exact h t ht

/-- A marker that was not there goes, or stays, and no slot is touched. -/
theorem Intact.alter_marker (L : Layout m staging pre) (h : Intact m h₀ home)
    (hnone : find REAPPLY_MARKER h₀ = none) (hf : ∀ o, f o = o ∨ f o = none) :
    Intact m h₀ (alter REAPPLY_MARKER f home) := by
  intro t ht
  by_cases hbelow : REAPPLY_MARKER <+: t
  · -- Where the marker is, nothing was.
    obtain ⟨r, rfl⟩ := hbelow
    have hf₀ : f none = none := (hf none).elim id id
    have hold := h _ ht
    rw [find_append, find_append, hnone, find_none] at hold
    rw [find_append, find_alter_of_none hf₀, find_append, hnone, find_none]
    obtain hsame | hgone := hf (find REAPPLY_MARKER home)
    · rw [hsame]
      exact hold
    · rw [hgone]
      exact find_none r
  · rw [find_alter_apart ⟨hbelow, L.marker t ht⟩]
    exact h t ht

section Removes

variable {part : ℕ → FileTree String β → Option (FileTree String β)} {p : Path}
  {K K' : List Done → Node β → Prop} {C : Node β → Prop}

theorem triple_removes (hrun : ∀ done home, K done home → K' done (remove p home))
    (hnone : ∀ done home, K done home → find p home = none → K' done home)
    (hfault : ∀ n done home, K done home → Faulty env → K' done (alter p (fun o => o.bind (part n)) home))
    (hcut : ∀ n done home, K done home → C (alter p (fun o => o.bind (part n)) home)) :
    Triple (On K) (removes env part p) (fun _ => On K') R (fun d => C d.home) := by
  unfold removes
  have hop : Triple (On K) (operate env env.undoFault
      (fun h => if (find p h).isSome then some (remove p h) else none)
      fun n h => alter p (fun o => o.bind (part n)) h) (fun _ => On K') (fun _ => On K')
      (fun d => C d.home) := by
    refine triple_operate ?_ ?_ hfault hcut
    · intro done home home' hK hif
      split at hif
      · cases hif
        exact hrun done home hK
      · cases hif
    · simp_all
  exact Triple.attempt_bind hop (fun _ => Triple.pure fun _ => id) fun _ => Triple.pure fun _ => id

/-- What does not depend on the removed tree stays. -/
theorem triple_removeTree (hK : ∀ f done home, K done home → K done (alter p f home))
    (hC : ∀ done home, K done home → C home) :
    Triple (On K) (removeTree env p) (fun _ => On K) R (fun d => C d.home) :=
  triple_removes (fun done home => hK _ done home) (fun _ _ h _ => h) (fun _ done home h _ => hK _ done home h)
    fun _ done home h => hC done _ (hK _ done home h)

end Removes

/-! ### The marker -/

/-- Nothing was moved, and the marker is what `mark` says. -/
abbrev Unmoved (m : Manifest) (staging pre : Path) (h₀ : Node β) (mark : Option (Option β))
    (done : List Done) (home : Node β) : Prop :=
  done = [] ∧ Swapping m staging pre h₀ mark [] done home

theorem Unmoved.intact (h : Unmoved m staging pre h₀ mark done home) : Intact m h₀ home := by
  obtain ⟨rfl, h⟩ := h
  exact fun t ht => (h.others t ht not_mem_nil).1

theorem Fresh.unmoved (hfresh : Fresh staging pre h₀) :
    Unmoved m staging pre h₀ (entry (find REAPPLY_MARKER h₀)) [] h₀ := by
  refine ⟨rfl, ⟨rfl, fun t _ hlive => ?_, hfresh.stagingTree⟩, hfresh.rejected, ?_, nodup_nil, ?_, ?_, ?_⟩
  · obtain ⟨tree, htree⟩ := Option.ne_none_iff_exists'.mp hlive
    exact reaches_of_find htree
  · exact fun d hd => absurd hd not_mem_nil
  · intro t _ _
    rw [find_append, hfresh.asideTree]
    exact ⟨rfl, find_none t⟩
  · exact fun t ht => absurd ht not_mem_nil
  · exact fun _ _ _ => rfl

/-- Its directory holds no slot. -/
theorem Layout.harmless_marker (L : Layout m staging pre) :
    Harmless m staging pre REAPPLY_MARKER.dropLast := by
  have hpre : REAPPLY_MARKER.dropLast <+: REAPPLY_MARKER := List.dropLast_prefix _
  refine ⟨fun t ht hp => L.marker t ht (hp.trans hpre), fun t _ hp => ?_, fun u _ hp => ?_, fun hp => ?_⟩
  · exact L.markerTrees.1.1 (((prefix_append pre t).trans hp).trans hpre)
  · exact L.markerTrees.2.1 (((prefix_append staging _).trans hp).trans hpre)
  · exact L.markerTrees.2.1 (((prefix_append staging _).trans hp).trans hpre)

theorem entry_eq_none {o : Node β} (h : entry o = none) : o = none := by
  cases o with
  | none => rfl
  | some t => cases t <;> cases h

/-- The marker is put where nothing was. -/
theorem Unmoved.put (L : Layout m staging pre) (hnone : find REAPPLY_MARKER h₀ = none)
    (h : Unmoved m staging pre h₀ none done home) (hput : putMarker env home = some home') :
    Unmoved m staging pre h₀ (some (some env.marker)) done home' := by
  have hintact : Intact m h₀ home := h.intact
  obtain ⟨rfl, h⟩ := h
  unfold putMarker at hput
  split at hput
  next hreaches =>
    cases hput
    have hfind : find REAPPLY_MARKER home = none := entry_eq_none h.beside.marker
    have hafter : find REAPPLY_MARKER (alter REAPPLY_MARKER (fun _ => some (.file env.marker)) home) =
        some (.file env.marker) := find_alter hreaches _
    have hslot : ∀ t ∈ m.slots, find t (alter REAPPLY_MARKER (fun _ => some (.file env.marker)) home) =
        find t h₀ := by
      intro t ht
      by_cases hbelow : REAPPLY_MARKER <+: t
      · obtain ⟨r, rfl⟩ := hbelow
        have hr : r ≠ [] := by
          rintro rfl
          exact L.marker _ ht (by simp)
        rw [find_append, hafter, find_append, hnone, find_none]
        cases r with
        | nil => exact absurd rfl hr
        | cons n r => exact find_none r
      · rw [find_alter_apart ⟨hbelow, L.marker t ht⟩]
        exact hintact t ht
    have haside : ∀ q, find (pre ++ q) (alter REAPPLY_MARKER (fun _ => some (.file env.marker)) home) =
        find (pre ++ q) home := fun q => find_alter_apart (L.markerTrees.1.append q).symm _ _
    have hstaging : ∀ q, find (staging ++ q) (alter REAPPLY_MARKER (fun _ => some (.file env.marker)) home) =
        find (staging ++ q) home := fun q => find_alter_apart (L.markerTrees.2.append q).symm _ _
    refine ⟨rfl, ⟨?_, fun t ht hlive => ?_, ?_⟩, ?_, ?_, h.nodup, ?_, h.passed, ?_⟩
    · rw [hafter]
      rfl
    · refine reaches_alter (h.beside.reach t ht hlive) (.inl fun hbelow => hlive ?_) _
      obtain ⟨r, rfl⟩ := hbelow
      rw [find_append, hnone, find_none]
    · rw [find_alter_apart L.markerTrees.2.symm]
      exact h.beside.stagingTree
    · rw [hstaging]
      exact h.rejected
    · exact fun d hd => absurd hd not_mem_nil
    · intro t ht hnot
      rw [haside]
      exact ⟨hslot t ht, (h.others t ht hnot).2⟩
    · intro u hu hunplaced
      rw [hstaging]
      exact h.staged u hu hunplaced
  · cases hput

/-- A marker of this restore may be there. -/
def Marking (m : Manifest) (h₀ home : Node β) : Prop := Intact m h₀ home ∧ find REAPPLY_MARKER h₀ = none

/-- Everything is as it was, and so is the marker unless a step of the way back failed. -/
def PutBack (env : Env β) (m : Manifest) (h₀ home : Node β) : Prop :=
  Intact m h₀ home ∧ (¬Faulty env → entry (find REAPPLY_MARKER home) = entry (find REAPPLY_MARKER h₀))

theorem triple_removeMarkerFile (L : Layout m staging pre) :
    Triple (On fun _ home => Marking m h₀ home) (removeFile env REAPPLY_MARKER)
      (fun _ => On fun _ home => PutBack env m h₀ home) R (fun d => Kept m pre h₀ d.home) := by
  have hpart : ∀ o : Node β, (o.bind fun t => some t) = o ∨ (o.bind fun t => some t) = none := fun o =>
    .inl (by cases o <;> rfl)
  refine triple_removes ?_ ?_ ?_ ?_
  · rintro _ home ⟨hintact, hnone⟩
    refine ⟨hintact.alter_marker L hnone fun _ => .inr rfl, fun _ => ?_⟩
    show entry (find REAPPLY_MARKER (alter REAPPLY_MARKER (fun _ => none) home)) = _
    rw [@find_alter_of_none _ _ _ (fun _ => none) rfl, hnone]
  · rintro _ home ⟨hintact, hnone⟩ hfind
    refine ⟨hintact, fun _ => ?_⟩
    rw [hfind, hnone]
  · rintro n _ home ⟨hintact, hnone⟩ hfaulty
    exact ⟨hintact.alter_marker L hnone hpart, fun hnot => absurd hfaulty hnot⟩
  · rintro n _ home ⟨hintact, hnone⟩
    exact (hintact.alter_marker L hnone hpart).kept

/-- Creating the marker leaves it there, or touches no slot. -/
theorem triple_createMarker (L : Layout m staging pre) (hnone : find REAPPLY_MARKER h₀ = none) :
    Triple (On fun done home => Unmoved m staging pre h₀ none done home) (createMarker env)
      (fun _ => On fun done home => Unmoved m staging pre h₀ (some (some env.marker)) done home)
      (fun _ => On fun _ home => Marking m h₀ home) (fun d => Kept m pre h₀ d.home) := by
  have hgrow : ∀ k done (home : Node β), Unmoved m staging pre h₀ none done home →
      Unmoved m staging pre h₀ none done (grow (REAPPLY_MARKER.dropLast.take k) home) := by
    rintro k done home ⟨hdone, h⟩
    refine ⟨hdone, h.grow (.inr fun hp => ?_) (L.harmless_marker.take k)⟩
    exact not_prefix_dropLast (by decide) (hp.trans (List.take_prefix k _))
  have hput : ∀ done (home : Node β), Unmoved m staging pre h₀ none done home →
      Intact m h₀ ((putMarker env home).getD home) := by
    intro done home h
    cases hp : putMarker env home with
    | none => exact h.intact
    | some home' => exact (h.put L hnone hp).intact
  unfold createMarker
  refine Triple.bind (Q := fun _ => On fun done home => Unmoved m staging pre h₀ none done home)
    (triple_operate ?_ ?_ ?_ ?_) fun _ => triple_operate ?_ ?_ ?_ ?_
  · intro done home home' h hrun
    unfold mkdirs at hrun
    split at hrun
    · cases hrun
    · cases hrun
      have hfull := hgrow REAPPLY_MARKER.dropLast.length done home h
      rw [take_length] at hfull
      exact hfull
  · exact fun done home h _ => ⟨h.intact, hnone⟩
  · exact fun k done home h _ => ⟨(hgrow k done home h).intact, hnone⟩
  · exact fun k done home h => (hgrow k done home h).intact.kept
  · exact fun done home home' h hrun => h.put L hnone hrun
  · exact fun done home h _ => ⟨h.intact, hnone⟩
  · exact fun k done home h _ => ⟨hput done home h, hnone⟩
  · exact fun k done home h => (hput done home h).kept

/-- The marker is there, and it is ours if `created` says so. -/
structure Marked (m : Manifest) (staging pre : Path) (h₀ : Node β) (created : Bool)
    (mark : Option (Option β)) : Prop where
  some : mark ≠ none
  ours : created = true → find REAPPLY_MARKER h₀ = none
  theirs : created = false → mark = entry (find REAPPLY_MARKER h₀)

theorem triple_writeReapplyMarker (L : Layout m staging pre) (hfresh : Fresh staging pre h₀) :
    Triple (On fun done home => done = [] ∧ home = h₀) (writeReapplyMarker env)
      (fun created => On fun done home => ∃ mark, Marked m staging pre h₀ created mark ∧
        Swapping m staging pre h₀ mark [] done home)
      (fun _ => On fun _ home => PutBack env m h₀ home) (fun d => Kept m pre h₀ d.home) := by
  unfold writeReapplyMarker
  refine triple_read_any fun v => ?_
  cases v with
  | some t =>
    refine Triple.pure ?_
    rintro d ⟨⟨hdone, hhome⟩, hfind⟩
    rw [hhome] at hfind
    have hstart := hfresh.unmoved (m := m)
    unfold On
    rw [hdone, hhome]
    refine ⟨_, ⟨?_, fun hno => (by cases hno), fun _ => rfl⟩, hstart.2⟩
    rw [hfind]
    cases t with
    | file b => exact Option.some_ne_none _
    | dir kids => exact Option.some_ne_none _
  | none =>
    refine Triple.of_pre fun d₀ hd₀ => ?_
    have hnone : find REAPPLY_MARKER h₀ = none := hd₀.1.2 ▸ hd₀.2
    refine Triple.attempt_bind ((triple_createMarker L hnone).pre ?_) (fun _ => Triple.pure ?_) fun e => ?_
    · rintro d rfl
      have hstart := hfresh.unmoved (m := m)
      rw [hnone] at hstart
      show Unmoved m staging pre h₀ none d.done d.home
      rw [hd₀.1.1, hd₀.1.2]
      exact hstart
    · exact fun d hd => ⟨_, ⟨Option.some_ne_none _, fun _ => hnone, fun hno => (by cases hno)⟩, hd.2⟩
    · exact Triple.bind (triple_removeMarkerFile L) fun _ => Triple.raise fun _ => id

/-! ### Both ways out -/

/-- How a restore that succeeds leaves the home: the units are live, what they replaced and
what was absent from the backup is aside, and no sidecar is left. -/
structure Restored (m : Manifest) (staging pre : Path) (h₀ home : Node β) : Prop where
  live : ∀ u ∈ m.units, (find u.target home).isSome ∧ find u.target home = find (staging ++ u.archive) h₀
  gone : ∀ t ∈ m.slots, (∀ u ∈ m.units, u.target ≠ t) → find t home = none
  aside : ∀ t ∈ m.slots, find t h₀ ≠ none → find (pre ++ t) home = find t h₀
  marker : find REAPPLY_MARKER home ≠ none

theorem Restored.kept (h : Restored m staging pre h₀ home) : Kept m pre h₀ home :=
  ⟨fun t ht hlive => .inr (h.aside t ht hlive), .inl h.marker⟩

theorem Swapping.restored (L : Layout m staging pre) (hmark : mark ≠ none)
    (h : Swapping m staging pre h₀ mark m.slots done home) (hplaced : Placed m.units done) :
    Restored m staging pre h₀ home where
  live := by
    intro u hu
    obtain ⟨d, hd, hlive, hp⟩ := hplaced u hu
    obtain ⟨u', hu', htarget, hsome, hfind⟩ := (h.logged d hd).1.placed hp
    obtain rfl : u' = u := inj_on_of_nodup_map L.targets hu' hu (htarget.trans hlive)
    rw [← hlive, hfind]
    exact ⟨hsome, rfl⟩
  gone := fun t ht hunit => h.gone ht ht hunit
  aside := by
    intro t ht hlive
    by_cases hmem : t ∈ done.map Done.live
    · obtain ⟨d, hd, rfl⟩ := mem_map.mp hmem
      exact (h.logged d hd).1.whole hlive
    · exact absurd (h.passed t ht hmem) hlive
  marker := h.beside.marked hmark

/-- The staging tree has nothing that is needed. -/
theorem Restored.alter_staging (L : Layout m staging pre) (hslots : ∀ u ∈ m.units, u.target ∈ m.slots)
    (h : Restored m staging pre h₀ home) : Restored m staging pre h₀ (alter staging f home) where
  live := by
    intro u hu
    rw [find_alter_apart (L.stagingTree _ (hslots u hu))]
    exact h.live u hu
  gone := by
    intro t ht hunit
    rw [find_alter_apart (L.stagingTree t ht)]
    exact h.gone t ht hunit
  aside := by
    intro t ht hlive
    rw [find_alter_apart (L.trees.append t).symm]
    exact h.aside t ht hlive
  marker := by
    rw [find_alter_apart L.markerTrees.2]
    exact h.marker

theorem PutBack.alter (h : PutBack env m h₀ home) (hp : ∀ t ∈ m.slots, Apart p t)
    (hmarker : Apart p REAPPLY_MARKER) : PutBack env m h₀ (alter p f home) := by
  refine ⟨h.1.alter_apart hp, fun hnot => ?_⟩
  rw [find_alter_apart hmarker]
  exact h.2 hnot

theorem triple_removePutBack (hp : ∀ t ∈ m.slots, Apart p t) (hmarker : Apart p REAPPLY_MARKER) :
    Triple (On fun _ home => PutBack env m h₀ home) (removeTree env p)
      (fun _ => On fun _ home => PutBack env m h₀ home) R (fun d => Kept m pre h₀ d.home) :=
  triple_removeTree (K := fun _ home => PutBack env m h₀ home)
    (fun _ _ _ h => h.alter hp hmarker) fun _ _ h => h.1.kept

/-- How a restore that fails leaves the home. -/
def Failed (env : Env β) (m : Manifest) (pre : Path) (h₀ home : Node β) : Prop :=
  Kept m pre h₀ home ∧ (¬Faulty env → PutBack env m h₀ home)

variable {created : Bool}

theorem triple_undoAll (L : Layout m staging pre) (hmarked : Marked m staging pre h₀ created mark) :
    Triple (On (Begun m staging pre h₀ mark)) (undoAll env staging pre created) (fun _ _ => False)
      (fun _ => On fun _ home => Failed env m pre h₀ home) (fun d => Kept m pre h₀ d.home) := by
  unfold undoAll
  refine triple_read_any fun done => ?_
  have hroll : ∀ rem, Triple (On fun _ home => Undoing m staging pre h₀ mark true rem home)
      (rollBack env staging rem) (fun ok => On fun _ home =>
        Undoing m staging pre h₀ mark (true && ok) [] home ∧ (ok = false → Faulty env))
      (fun _ => On fun _ home => Failed env m pre h₀ home) (fun d => Kept m pre h₀ d.home) :=
    fun rem => triple_rollBack L hmarked.some rem
  refine Triple.bind ((hroll _).pre ?_) fun ok => ?_
  · rintro d ⟨⟨seen, h⟩, rfl⟩
    exact h.undoing
  cases ok with
  | false =>
    refine Triple.raise fun d hd => ⟨hd.1.kept hmarked.some, fun hnot => absurd (hd.2 rfl) hnot⟩
  | true =>
    refine Triple.bind (Q := fun _ => On fun _ home => PutBack env m h₀ home) ?_ fun _ => ?_
    · unfold removeMarker
      cases created with
      | true =>
        refine (triple_removeMarkerFile L).pre fun d hd => ⟨fun t ht => ?_, hmarked.ours rfl⟩
        exact hd.1.back rfl t ht not_mem_nil
      | false =>
        refine Triple.pure fun d hd => ⟨fun t ht => hd.1.back rfl t ht not_mem_nil, fun _ => ?_⟩
        rw [hd.1.beside.marker]
        exact hmarked.theirs rfl
    refine Triple.bind (triple_removePutBack L.asideTree L.markerTrees.1) fun _ => ?_
    refine Triple.bind (triple_removePutBack L.stagingTree L.markerTrees.2) fun _ => ?_
    exact Triple.raise fun d hd => ⟨hd.1.kept, fun _ => hd⟩

theorem unit_mem_slots {u : ArchiveUnit} (hu : u ∈ m.units) : u.target ∈ m.slots :=
  mem_append_left _ (mem_flatMap.mpr ⟨u, hu, mem_cons_self⟩)

theorem triple_swapOrUndo (L : Layout m staging pre) (hmarked : Marked m staging pre h₀ created mark) :
    Triple (On fun done home => Swapping m staging pre h₀ mark [] done home)
      (swapOrUndo env staging pre m created)
      (fun _ => On fun _ home => Restored m staging pre h₀ home)
      (fun _ => On fun _ home => Failed env m pre h₀ home) (fun d => Kept m pre h₀ d.home) := by
  unfold swapOrUndo
  refine Triple.attempt_bind (triple_swap L hmarked.some) (fun _ => ?_) fun _ => ?_
  · refine Triple.pre (triple_removeTree (K := fun _ home => Restored m staging pre h₀ home) ?_ ?_) ?_
    · exact fun _ _ _ h => h.alter_staging L fun u hu => unit_mem_slots hu
    · exact fun _ _ h => h.kept
    · exact fun d hd => hd.1.restored L hmarked.some hd.2
  · exact (triple_undoAll L hmarked).post fun _ _ h => h.elim

theorem triple_restore (L : Layout m staging pre) (hfresh : Fresh staging pre h₀) :
    Triple (On fun done home => done = [] ∧ home = h₀) (restore env staging pre m)
      (fun _ => On fun _ home => Restored m staging pre h₀ home)
      (fun _ => On fun _ home => Failed env m pre h₀ home) (fun d => Kept m pre h₀ d.home) := by
  unfold restore
  refine Triple.attempt_bind (triple_writeReapplyMarker L hfresh) (fun created => ?_) fun e => ?_
  · refine Triple.of_pre ?_
    rintro d₀ ⟨mark, hmarked, hd₀⟩
    exact (triple_swapOrUndo L hmarked).pre fun d hd => hd ▸ hd₀
  · refine Triple.bind (triple_removePutBack L.stagingTree L.markerTrees.2) fun _ => ?_
    exact Triple.raise fun d hd => ⟨hd.1.kept, fun _ => hd⟩

end Plur1bus.Backup
