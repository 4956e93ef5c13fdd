import Mathlib.Data.List.Nodup
import Plur1bus.Backup.Restore

/-!
The swap. The slots of a restore are the paths it moves: the targets, and the sidecars of the
databases among them. Between two operations every slot that was live is whole, in its place
or under the pre-restore tree, and the log says which; so what is logged can be undone.
-/

namespace Plur1bus.Backup

open Program FileTree List

/-- What a unit moves. -/
def ArchiveUnit.slots (u : ArchiveUnit) : List Path := u.target :: u.sidecars

/-- The path is a sidecar of a unit or lies in one. -/
def Manifest.covers (m : Manifest) (p : Path) : Bool :=
  m.units.any fun u => u.sidecars.any fun s => s.isPrefixOf p

/-- The paths a restore moves. -/
def Manifest.slots (m : Manifest) : List Path :=
  m.units.flatMap ArchiveUnit.slots ++ m.absent.filter fun a => !m.covers a

/-- Where things are: slots do not lie on one another, nor on the trees of the restore, and the
marker does not lie on a slot. -/
structure Layout (m : Manifest) (staging pre : Path) : Prop where
  nodup : m.slots.Nodup
  targets : (m.units.map ArchiveUnit.target).Nodup
  sidecars : ∀ u ∈ m.units, ∀ s ∈ u.sidecars, ∀ u' ∈ m.units, u'.target ≠ s
  apart : ∀ t ∈ m.slots, ∀ t' ∈ m.slots, t ≠ t' → Apart t t'
  ne_nil : ∀ t ∈ m.slots, t ≠ []
  asideTree : ∀ t ∈ m.slots, Apart pre t
  stagingTree : ∀ t ∈ m.slots, Apart staging t
  trees : Apart pre staging
  marker : ∀ t ∈ m.slots, ¬t <+: REAPPLY_MARKER
  markerTrees : Apart pre REAPPLY_MARKER ∧ Apart staging REAPPLY_MARKER
  archives : ∀ u ∈ m.units, ∀ u' ∈ m.units, u.target ≠ u'.target → Apart u.archive u'.archive
  rejected : ∀ u ∈ m.units, Apart u.archive [".rejected"]
  archive_ne_nil : ∀ u ∈ m.units, u.archive ≠ []

/-- The tree for what was placed and is put away. -/
abbrev rejectedAt (staging : Path) : Path := staging ++ [".rejected"]

/-- The trees of the restore are new, but for what was extracted. -/
structure Fresh (staging pre : Path) {β : Type} (h₀ : Node β) : Prop where
  asideTree : find pre h₀ = none
  rejected : find (rejectedAt staging) h₀ = none
  stagingTree : entry (find staging h₀) = some none

variable {β : Type} {env : Env β} {m : Manifest} {staging pre : Path} {h₀ home home' : Node β}
  {mark : Option (Option β)} {seen : List Path} {done : List Done}

/-- What an entry of the log says. -/
structure Logged (m : Manifest) (staging pre : Path) (h₀ home : Node β) (d : Done) : Prop where
  slot : d.live ∈ m.slots
  unplaced : d.placed = false → find d.live home = none
  placed : d.placed = true → ∃ u ∈ m.units, u.target = d.live ∧
    (find (staging ++ u.archive) h₀).isSome ∧ find d.live home = find (staging ++ u.archive) h₀
  moved : ∀ p, d.movedTo = some p → p = pre ++ d.live ∧ (find d.live h₀).isSome ∧
    find p home = find d.live h₀
  unmoved : d.movedTo = none → find d.live h₀ = none

/-- What the restore leaves alone: the marker is what `mark` says, and what was above a live slot
and the staging tree are directories. -/
structure Beside (m : Manifest) (staging : Path) (h₀ : Node β) (mark : Option (Option β))
    (home : Node β) : Prop where
  marker : entry (find REAPPLY_MARKER home) = mark
  reach : ∀ t ∈ m.slots, find t h₀ ≠ none → reaches t home = true
  stagingTree : entry (find staging home) = some none

/-- The slots in `seen` have been looked at, and `done` logs those that were moved. -/
structure Swapping (m : Manifest) (staging pre : Path) (h₀ : Node β) (mark : Option (Option β))
    (seen : List Path) (done : List Done) (home : Node β) : Prop where
  beside : Beside m staging h₀ mark home
  rejected : find (rejectedAt staging) home = none
  logged : ∀ d ∈ done, Logged m staging pre h₀ home d ∧ d.live ∈ seen
  nodup : (done.map Done.live).Nodup
  others : ∀ t ∈ m.slots, t ∉ done.map Done.live → find t home = find t h₀ ∧ find (pre ++ t) home = none
  passed : ∀ t ∈ seen, t ∉ done.map Done.live → find t h₀ = none
  staged : ∀ u ∈ m.units, (∀ d ∈ done, d.live = u.target → d.placed = false) →
    find (staging ++ u.archive) home = find (staging ++ u.archive) h₀

/-! ### Operations that are beside the point -/

/-- The directories of `p` can be created without touching a slot. -/
structure Harmless (m : Manifest) (staging pre p : Path) : Prop where
  live : ∀ t ∈ m.slots, ¬t <+: p
  aside : ∀ t ∈ m.slots, ¬pre ++ t <+: p
  staged : ∀ u ∈ m.units, ¬staging ++ u.archive <+: p
  rejected : ¬rejectedAt staging <+: p

variable {p : Path}

theorem not_prefix_dropLast (hp : p ≠ []) : ¬p <+: p.dropLast := by
  intro h
  have hle := h.length_le
  have hlen : 0 < p.length := length_pos_iff.mpr hp
  rw [length_dropLast] at hle
  omega

/-- What lies on a path below another is comparable with it. -/
theorem Apart.not_prefix_append {q : Path} (h : Apart p q) (r : Path) : ¬q <+: p ++ r :=
  fun hpre => (h.append r).2 hpre

theorem append_prefix_append_iff {q r : Path} : p ++ q <+: p ++ r ↔ q <+: r := prefix_append_right_inj p

section Layout

variable (L : Layout m staging pre)

include L

variable {t : Path}

/-- A slot lies on no other slot's parent. -/
theorem Layout.not_prefix_dropLast {t' : Path} (ht : t ∈ m.slots) (ht' : t' ∈ m.slots) :
    ¬t' <+: t.dropLast := by
  intro hpre
  by_cases heq : t' = t
  · subst heq
    exact Backup.not_prefix_dropLast (L.ne_nil t' ht') hpre
  · exact (L.apart t' ht' t ht heq).1 (hpre.trans (List.dropLast_prefix t))

theorem Layout.harmless_target (ht : t ∈ m.slots) : Harmless m staging pre t.dropLast where
  live := fun _ ht' => L.not_prefix_dropLast ht ht'
  aside := fun t' _ hpre =>
    (L.asideTree t ht).1 (((prefix_append pre t').trans hpre).trans (List.dropLast_prefix t))
  staged := fun u _ hpre =>
    (L.stagingTree t ht).1 (((prefix_append staging u.archive).trans hpre).trans (List.dropLast_prefix t))
  rejected := fun hpre =>
    (L.stagingTree t ht).1 (((prefix_append staging _).trans hpre).trans (List.dropLast_prefix t))

theorem Layout.harmless_aside (ht : t ∈ m.slots) : Harmless m staging pre (pre ++ t).dropLast := by
  rw [dropLast_append_of_ne_nil (L.ne_nil t ht)]
  exact {
    live := fun t' ht' => Apart.not_prefix_append (L.asideTree t' ht') _
    aside := fun t' ht' hpre => L.not_prefix_dropLast ht ht' (append_prefix_append_iff.mp hpre)
    staged := fun u _ hpre =>
      Apart.not_prefix_append L.trees _ ((prefix_append staging u.archive).trans hpre)
    rejected := fun hpre => Apart.not_prefix_append L.trees _ ((prefix_append staging _).trans hpre) }

end Layout

theorem Beside.grow (h : Beside m staging h₀ mark home) (hmark : mark ≠ none ∨ ¬REAPPLY_MARKER <+: p) :
    Beside m staging h₀ mark (grow p home) := by
  have hkept : ∀ q e, entry (find q home) = e → e ≠ none → entry (find q (FileTree.grow p home)) = e := by
    intro q e he hne
    cases hfind : find q home with
    | none =>
      rw [hfind] at he
      exact absurd he.symm hne
    | some t =>
      rw [entry_find_grow hfind, ← hfind]
      exact he
  refine ⟨?_, fun t ht hlive => reaches_grow_of_reaches (h.reach t ht hlive) p,
    hkept _ _ h.stagingTree (Option.some_ne_none _)⟩
  obtain hmark | hp := hmark
  · exact hkept _ _ h.marker hmark
  · rw [find_grow_of_outside hp]
    exact h.marker

theorem Swapping.grow (h : Swapping m staging pre h₀ mark seen done home)
    (hmark : mark ≠ none ∨ ¬REAPPLY_MARKER <+: p) (hp : Harmless m staging pre p) :
    Swapping m staging pre h₀ mark seen done (grow p home) := by
  have hlive : ∀ t ∈ m.slots, find t (FileTree.grow p home) = find t home :=
    fun t ht => find_grow_of_outside (hp.live t ht) home
  have haside : ∀ t ∈ m.slots, find (pre ++ t) (FileTree.grow p home) = find (pre ++ t) home :=
    fun t ht => find_grow_of_outside (hp.aside t ht) home
  refine ⟨h.beside.grow hmark, ?_, ?_, h.nodup, ?_, h.passed, ?_⟩
  · rw [find_grow_of_outside hp.rejected]
    exact h.rejected
  · intro d hd
    obtain ⟨hl, hseen⟩ := h.logged d hd
    refine ⟨⟨hl.slot, fun hu => ?_, fun hpl => ?_, fun p' hp' => ?_, hl.unmoved⟩, hseen⟩
    · rw [hlive _ hl.slot]
      exact hl.unplaced hu
    · rw [hlive _ hl.slot]
      exact hl.placed hpl
    · obtain ⟨rfl, hsome, hfind⟩ := hl.moved p' hp'
      rw [haside _ hl.slot]
      exact ⟨rfl, hsome, hfind⟩
  · intro t ht hnot
    rw [hlive t ht, haside t ht]
    exact h.others t ht hnot
  · intro u hu hnot
    rw [find_grow_of_outside (hp.staged u hu)]
    exact h.staged u hu hnot

/-! ### Moving aside and placing -/

section Layout

variable (L : Layout m staging pre) {t t' : Path}

include L

theorem Layout.aside_live (ht' : t' ∈ m.slots) (t : Path) : Apart (pre ++ t) t' :=
  (L.asideTree t' ht').append t

theorem Layout.staging_live (ht' : t' ∈ m.slots) (p : Path) : Apart (staging ++ p) t' :=
  (L.stagingTree t' ht').append p

theorem Layout.aside_staging (p q : Path) : Apart (pre ++ p) (staging ++ q) :=
  ((L.trees.append p).symm.append q).symm

theorem Layout.aside_aside (ht : t ∈ m.slots) (ht' : t' ∈ m.slots) (hne : t ≠ t') :
    Apart (pre ++ t) (pre ++ t') :=
  (L.apart t ht t' ht' hne).append_left pre

/-- A path beside the slots: its change leaves the marker and what is above the slots alone. -/
theorem Layout.not_above (ht : t ∈ m.slots) (ht' : t' ∈ m.slots) : ¬t <+: t' ∨ t = t' := by
  by_cases heq : t = t'
  · exact .inr heq
  · exact .inl (L.apart t ht t' ht' heq).1

end Layout

/-- A rename from one path to another keeps what is beside the slots. -/
theorem Beside.rename {src dst : Path} (h : Beside m staging h₀ mark home) (hapart : Apart src dst)
    (hr : rename src dst home = some home')
    (hmarker : ¬src <+: REAPPLY_MARKER ∧ ¬dst <+: REAPPLY_MARKER)
    (hstaging : ¬src <+: staging ∧ ¬dst <+: staging)
    (hslots : ∀ t ∈ m.slots, (¬src <+: t ∨ src = t) ∧ (¬dst <+: t ∨ dst = t)) :
    Beside m staging h₀ mark home' where
  marker := by
    rw [entry_find_rename hapart hr hmarker.1 hmarker.2]
    exact h.marker
  reach := fun t ht hlive =>
    reaches_rename hapart hr (h.reach t ht hlive) (hslots t ht).1 (hslots t ht).2
  stagingTree := by
    rw [entry_find_rename hapart hr hstaging.1 hstaging.2]
    exact h.stagingTree

variable {d : Done}

/-- What is logged of a slot that an operation does not touch. -/
theorem Logged.frame (h : Logged m staging pre h₀ home d) (hlive : find d.live home' = find d.live home)
    (haside : find (pre ++ d.live) home' = find (pre ++ d.live) home) :
    Logged m staging pre h₀ home' d := by
  refine ⟨h.slot, fun hu => ?_, fun hp => ?_, fun p hp => ?_, h.unmoved⟩
  · rw [hlive]
    exact h.unplaced hu
  · rw [hlive]
    exact h.placed hp
  · obtain ⟨rfl, hsome, hfind⟩ := h.moved p hp
    rw [haside]
    exact ⟨rfl, hsome, hfind⟩

variable {t : Path}

theorem Swapping.not_logged (h : Swapping m staging pre h₀ mark seen done home) (ht : t ∉ seen) :
    t ∉ done.map Done.live := by
  intro hmem
  obtain ⟨d, hd, rfl⟩ := mem_map.mp hmem
  exact ht (h.logged d hd).2

theorem Swapping.aside (L : Layout m staging pre) (ht : t ∈ m.slots) (hnew : t ∉ seen)
    (h : Swapping m staging pre h₀ mark seen done home)
    (hr : FileTree.rename t (pre ++ t) home = some home') :
    Swapping m staging pre h₀ mark (seen ++ [t]) (done ++ [⟨t, some (pre ++ t), false⟩]) home' := by
  have hapart : Apart t (pre ++ t) := (L.aside_live ht t).symm
  have hnot := h.not_logged hnew
  obtain ⟨tree, htree, -, -⟩ := rename_spec hapart hr
  -- Nothing but the slot itself is touched.
  have hlive : ∀ t' ∈ m.slots, t' ≠ t → find t' home' = find t' home := fun t' ht' hne =>
    find_rename_apart hapart hr (L.apart t ht t' ht' hne.symm) (L.aside_live ht' t)
  have haside : ∀ t' ∈ m.slots, t' ≠ t → find (pre ++ t') home' = find (pre ++ t') home :=
    fun t' ht' hne => find_rename_apart hapart hr (L.aside_live ht t').symm
      (L.aside_aside ht ht' hne.symm)
  have hstaging : ∀ p, find (staging ++ p) home' = find (staging ++ p) home := fun p =>
    find_rename_apart hapart hr (L.staging_live ht p).symm (L.aside_staging t p)
  have hne : ∀ d ∈ done, d.live ≠ t := fun d hd heq => hnot (mem_map.mpr ⟨d, hd, heq⟩)
  refine ⟨h.beside.rename hapart hr ?_ ?_ ?_, ?_, ?_, ?_, ?_, ?_, ?_⟩
  · refine ⟨L.marker t ht, fun hpre => ?_⟩
    exact L.markerTrees.1.1 ((prefix_append pre t).trans hpre)
  · refine ⟨(L.stagingTree t ht).2, fun hpre => ?_⟩
    exact L.trees.1 ((prefix_append pre t).trans hpre)
  · exact fun t' ht' => ⟨L.not_above ht ht', .inl (L.aside_live ht' t).1⟩
  · rw [hstaging]
    exact h.rejected
  · intro d hd
    rw [mem_append, mem_singleton] at hd
    obtain hd | rfl := hd
    · obtain ⟨hl, hseen⟩ := h.logged d hd
      refine ⟨hl.frame (hlive _ hl.slot (hne d hd)) (haside _ hl.slot (hne d hd)), ?_⟩
      exact mem_append_left _ hseen
    · refine ⟨⟨ht, fun _ => find_rename_src hapart hr, fun hp => (by cases hp), ?_, fun hp => (by cases hp)⟩, ?_⟩
      · rintro _ ⟨rfl⟩
        have hold := (h.others t ht hnot).1
        refine ⟨rfl, ?_, (find_rename_dst hapart hr).trans hold⟩
        rw [← hold, htree]
        rfl
      · exact mem_append_right _ (mem_singleton.mpr rfl)
  · rw [map_append, nodup_append]
    refine ⟨h.nodup, nodup_singleton _, ?_⟩
    rintro a ha b hb rfl
    rw [map_singleton, mem_singleton] at hb
    rw [hb] at ha
    exact hnot ha
  · intro t' ht' hnot'
    rw [map_append, mem_append, not_or] at hnot'
    have hne' : t' ≠ t := fun heq => hnot'.2 (mem_singleton.mpr heq)
    rw [hlive t' ht' hne', haside t' ht' hne']
    exact h.others t' ht' hnot'.1
  · intro t' ht' hnot'
    rw [map_append, mem_append, not_or] at hnot'
    rw [mem_append, mem_singleton] at ht'
    obtain ht' | rfl := ht'
    · exact h.passed t' ht' hnot'.1
    · exact absurd (mem_singleton.mpr rfl) hnot'.2
  · intro u hu hunplaced
    rw [hstaging]
    exact h.staged u hu fun d hd => hunplaced d (mem_append_left _ hd)

/-- A slot that is not there is passed over. -/
theorem Swapping.pass (ht : t ∈ m.slots) (hnew : t ∉ seen)
    (h : Swapping m staging pre h₀ mark seen done home) (hnone : find t home = none) :
    find t h₀ = none ∧ Swapping m staging pre h₀ mark (seen ++ [t]) done home := by
  have hold : find t h₀ = none := (h.others t ht (h.not_logged hnew)).1 ▸ hnone
  refine ⟨hold, h.beside, h.rejected, ?_, h.nodup, h.others, ?_, h.staged⟩
  · exact fun d hd => ⟨(h.logged d hd).1, mem_append_left _ (h.logged d hd).2⟩
  · intro t' ht' hnot
    rw [mem_append, mem_singleton] at ht'
    obtain ht' | rfl := ht'
    · exact h.passed t' ht' hnot
    · exact hold

/-- A unit is logged also if nothing was in its place. -/
theorem Swapping.logNone (ht : t ∈ m.slots) (hnew : t ∉ seen)
    (h : Swapping m staging pre h₀ mark seen done home) (hnone : find t home = none) :
    Swapping m staging pre h₀ mark (seen ++ [t]) (done ++ [⟨t, none, false⟩]) home := by
  have hnot := h.not_logged hnew
  obtain ⟨hold, h'⟩ := h.pass ht hnew hnone
  refine ⟨h.beside, h.rejected, ?_, ?_, ?_, ?_, ?_⟩
  · intro d hd
    rw [mem_append, mem_singleton] at hd
    obtain hd | rfl := hd
    · exact h'.logged d hd
    · refine ⟨⟨ht, fun _ => hnone, fun hp => (by cases hp), fun _ hp => (by cases hp), fun _ => hold⟩, ?_⟩
      exact mem_append_right _ (mem_singleton.mpr rfl)
  · rw [map_append, nodup_append]
    refine ⟨h.nodup, nodup_singleton _, ?_⟩
    rintro a ha b hb rfl
    rw [map_singleton, mem_singleton] at hb
    rw [hb] at ha
    exact hnot ha
  · intro t' ht' hnot'
    rw [map_append, mem_append, not_or] at hnot'
    exact h.others t' ht' hnot'.1
  · intro t' ht' hnot'
    rw [map_append, mem_append, not_or] at hnot'
    exact h'.passed t' ht' hnot'.1
  · exact fun u hu hunplaced => h.staged u hu fun d hd => hunplaced d (mem_append_left _ hd)

/-- The staged tree of a unit takes its place. -/
theorem Swapping.place (L : Layout m staging pre) {u : ArchiveUnit} (hu : u ∈ m.units)
    (ht : u.target ∈ m.slots) {i : ℕ} (hi : done[i]? = some d) (hd : d.live = u.target)
    (hunplaced : d.placed = false) (h : Swapping m staging pre h₀ mark seen done home)
    (hr : FileTree.rename (staging ++ u.archive) u.target home = some home') :
    Swapping m staging pre h₀ mark seen (done.modify i fun d => { d with placed := true }) home' := by
  have hapart : Apart (staging ++ u.archive) u.target := L.staging_live ht u.archive
  obtain ⟨tree, htree, -, -⟩ := rename_spec hapart hr
  have hlive : ∀ t' ∈ m.slots, t' ≠ u.target → find t' home' = find t' home := fun t' ht' hne =>
    find_rename_apart hapart hr (L.staging_live ht' _) (L.apart _ ht t' ht' hne.symm)
  have haside : ∀ p, find (pre ++ p) home' = find (pre ++ p) home := fun p =>
    find_rename_apart hapart hr (L.aside_staging p _).symm (L.aside_live ht p).symm
  have hmem : d ∈ done := mem_of_getElem? hi
  -- The log names each slot once, so only the entry at `i` is of this unit.
  have honly : ∀ d' ∈ done, d'.live = u.target → d' = d := fun d' hd' heq =>
    inj_on_of_nodup_map h.nodup hd' hmem (heq.trans hd.symm)
  have hlives : (done.modify i fun d => { d with placed := true }).map Done.live = done.map Done.live := by
    refine ext_getElem? fun j => ?_
    rw [List.getElem?_map, List.getElem?_map, List.getElem?_modify]
    cases done[j]? with
    | none => rfl
    | some d' =>
      by_cases hj : i = j
      · simp [hj]
      · simp [hj]
  have hmodify : ∀ d' ∈ done.modify i fun d => { d with placed := true },
      (d' ∈ done ∧ d'.live ≠ u.target) ∨ d' = { d with placed := true } := by
    intro d' hd'
    obtain ⟨j, hj⟩ := mem_iff_getElem?.mp hd'
    rw [List.getElem?_modify] at hj
    obtain ⟨a, ha, hfa⟩ := Option.map_eq_some_iff.mp hj
    by_cases hij : i = j
    · subst hij
      obtain rfl : a = d := Option.some.inj (ha.symm.trans hi)
      rw [if_pos rfl] at hfa
      exact .inr hfa.symm
    · rw [if_neg hij] at hfa
      subst hfa
      refine .inl ⟨mem_of_getElem? ha, fun heq => hij ?_⟩
      obtain rfl := honly a (mem_of_getElem? ha) heq
      have hlt : i < done.length := (List.getElem?_eq_some_iff.mp hi).1
      exact (List.getElem?_inj hlt (List.Nodup.of_map _ h.nodup)).mp (hi.trans ha.symm)
  refine ⟨h.beside.rename hapart hr ?_ ?_ ?_, ?_, ?_, ?_, ?_, ?_, ?_⟩
  · exact ⟨fun hpre => L.markerTrees.2.1 ((prefix_append staging _).trans hpre), L.marker _ ht⟩
  · refine ⟨fun hpre => ?_, (L.stagingTree _ ht).2⟩
    have hle := hpre.length_le
    have hpos := length_pos_iff.mpr (L.archive_ne_nil u hu)
    rw [length_append] at hle
    omega
  · exact fun t' ht' => ⟨.inl (L.staging_live ht' _).1, L.not_above ht ht'⟩
  · rw [find_rename_apart hapart hr ((L.rejected u hu).append_left staging) (L.staging_live ht _).symm]
    exact h.rejected
  · intro d' hd'
    obtain ⟨hd', hne⟩ | rfl := hmodify d' hd'
    · obtain ⟨hl, hseen⟩ := h.logged d' hd'
      exact ⟨hl.frame (hlive _ hl.slot hne) (haside _), hseen⟩
    · obtain ⟨hl, hseen⟩ := h.logged d hmem
      have hstaged := h.staged u hu fun d' hd' heq => honly d' hd' heq ▸ hunplaced
      refine ⟨⟨hl.slot, fun hp => (by cases hp), fun _ => ⟨u, hu, hd.symm, ?_, ?_⟩, ?_, hl.unmoved⟩, hseen⟩
      · rw [← hstaged, htree]
        rfl
      · show find d.live home' = _
        rw [hd, find_rename_dst hapart hr, hstaged]
      · intro p hp
        obtain ⟨rfl, hsome, hfind⟩ := hl.moved p hp
        exact ⟨rfl, hsome, (haside _).trans hfind⟩
  · rw [hlives]
    exact h.nodup
  · intro t' ht' hnot
    rw [hlives] at hnot
    have hne : t' ≠ u.target := fun heq => hnot (mem_map.mpr ⟨d, hmem, hd.trans heq.symm⟩)
    rw [hlive t' ht' hne, haside]
    exact h.others t' ht' hnot
  · rw [hlives]
    exact h.passed
  · intro u' hu' hunplaced'
    have hne : u.target ≠ u'.target := by
      intro heq
      have hfalse := hunplaced' { d with placed := true } ?_ (hd.trans heq)
      · cases hfalse
      · have hget : (done.modify i fun d => { d with placed := true })[i]? =
            some { d with placed := true } := by
          rw [List.getElem?_modify_eq, hi]
          rfl
        exact mem_of_getElem? hget
    rw [find_rename_apart hapart hr ((L.archives u hu u' hu' hne).append_left staging)
      (L.staging_live ht _).symm]
    refine h.staged u' hu' fun d' hd' heq => ?_
    refine hunplaced' d' ?_ heq
    obtain ⟨j, hj⟩ := mem_iff_getElem?.mp hd'
    have hij : i ≠ j := by
      rintro rfl
      obtain rfl : d' = d := Option.some.inj (hj.symm.trans hi)
      exact hne (hd.symm.trans heq)
    have hget : (done.modify i fun d => { d with placed := true })[j]? = some d' := by
      rw [List.getElem?_modify_ne _ _ hij]
      exact hj
    exact mem_of_getElem? hget

end Plur1bus.Backup
