import Mathlib.Data.List.Pairwise
import Plur1bus.Backup.Whole

/-!
What a verified manifest may name. The allow-list keeps the targets off the trees of the
restore; targets that are not nested in one another have sidecars that are not either, unless
a target lies at or in a sidecar of a database. That is not checked, nor is it that the store
lies where the marker goes: such a manifest is accepted, and what it places does not stay.
-/

namespace Plur1bus.Backup

open Program FileTree List

variable {β : Type} {m : Manifest} {t s p q : Path} {storeTarget : Path} {k : Kind}

/-- What a manifest names. -/
def Manifest.targets (m : Manifest) : List Path := m.units.map ArchiveUnit.target ++ m.absent

/-- Every target, and every sidecar of a database among the units. -/
def Manifest.moved (m : Manifest) : List Path := m.units.flatMap ArchiveUnit.slots ++ m.absent

/-- What is accepted unchecked: no target is at or in a sidecar, and none is the marker. -/
structure Clear (m : Manifest) : Prop where
  sidecars : ∀ u ∈ m.units, ∀ s ∈ u.sidecars, ∀ u' ∈ m.units, ¬s <+: u'.target
  marker : REAPPLY_MARKER ∉ m.targets

def stagingAt (id : String) : Path := [".restore-" ++ id]

def preAt (id : String) : Path := ["backups", "pre-restore-" ++ id]

/-! ### Targets -/

/-- The ways to be on the allow-list. -/
theorem targetKind_cases (h : targetKind t storeTarget = some k) :
    (t = storeTarget ∧ k = .dir) ∨ (t ∈ FIXED_DIRS ∧ k = .dir) ∨ (t ∈ FIXED_FILES ∧ k = .file) ∨
      k = .file ∧ ∃ n rest, t = "state" :: n :: rest ∧ isSqliteName (n :: rest) = true := by
  unfold targetKind at h
  split at h
  · cases h
  split at h
  next hstore =>
    cases h
    exact .inl ⟨hstore, rfl⟩
  split at h
  next hdir =>
    cases h
    exact .inr (.inl ⟨contains_iff_mem.mp hdir, rfl⟩)
  split at h
  next hfile =>
    cases h
    exact .inr (.inr (.inl ⟨contains_iff_mem.mp hfile, rfl⟩))
  split at h
  next n rest _ _ _ _ => simp_all
  · cases h

/-- What a validated manifest says of its parts. -/
structure Valid (m : Manifest) : Prop where
  store : storeTargetAllowed m.storeTarget = true
  kinds : ∀ u ∈ m.units, targetKind u.target m.storeTarget = some u.kind
  archives : ∀ u ∈ m.units, u.archive = archivePrefix u.target m.storeTarget
  nodup : (m.units.map ArchiveUnit.target).Nodup
  absent : ∀ a ∈ m.absent, a ∈ FIXED_DIRS ∨ a ∈ FIXED_FILES ∨ a = m.storeTarget

theorem Manifest.validate_valid (h : m.validate = true) : Valid m := by
  unfold validate at h
  simp only [Bool.and_eq_true, List.all_eq_true, decide_eq_true_eq, Bool.or_eq_true, contains_iff_mem] at h
  obtain ⟨⟨⟨hstore, hunits⟩, hnodup⟩, habsent⟩ := h
  refine ⟨hstore, fun u hu => (hunits u hu).1, fun u hu => (hunits u hu).2, hnodup, fun a ha => ?_⟩
  obtain (hdir | hfile) | hst := (habsent a ha).1
  · exact .inl hdir
  · exact .inr (.inl hfile)
  · exact .inr (.inr hst)

/-- The path does not start where the restore keeps its trees, and is more than `state`. -/
structure Outside (p : Path) : Prop where
  head : ∃ n rest, p = n :: rest ∧ n ≠ "backups" ∧ startsWith n ".restore-" = false
  state : p ≠ ["state"]

theorem outside_of_not_excluded (hne : p ≠ []) (hex : excluded p = false) (hstate : p ≠ ["state"]) :
    Outside p := by
  refine ⟨?_, hstate⟩
  cases p with
  | nil => exact absurd rfl hne
  | cons n rest =>
    simp only [excluded, List.head?_cons, Option.any_some, Bool.or_eq_false_iff] at hex
    refine ⟨n, rest, rfl, ?_, hex.1.1.1.1.2⟩
    rintro rfl
    have hroot := hex.1.1.1.1.1
    revert hroot
    decide

theorem outside_fixed (h : p ∈ FIXED_DIRS ++ FIXED_FILES) : Outside p := by
  have hall : ∀ p ∈ FIXED_DIRS ++ FIXED_FILES, p ≠ [] ∧ excluded p = false ∧ p ≠ ["state"] := by
    decide
  obtain ⟨hne, hex, hstate⟩ := hall p h
  exact outside_of_not_excluded hne hex hstate

theorem outside_store (h : storeTargetAllowed p = true) : Outside p := by
  unfold storeTargetAllowed safeRel at h
  simp only [Bool.and_eq_true, decide_eq_true_eq, Bool.not_eq_true'] at h
  exact outside_of_not_excluded h.1.1.1.1.1 h.1.2 h.1.1.2

theorem outside_state (n : String) (rest : Path) : Outside ("state" :: n :: rest) :=
  ⟨⟨"state", n :: rest, rfl, by decide, by decide⟩, by simp⟩

theorem Valid.outside (h : Valid m) (ht : t ∈ m.targets) : Outside t := by
  obtain hu | ha := mem_append.mp ht
  · obtain ⟨u, hmem, rfl⟩ := mem_map.mp hu
    obtain ⟨hstore, -⟩ | ⟨hdir, -⟩ | ⟨hfile, -⟩ | ⟨-, n, rest, hstate, -⟩ := targetKind_cases (h.kinds u hmem)
    · rw [hstore]
      exact outside_store h.store
    · exact outside_fixed (mem_append_left _ hdir)
    · exact outside_fixed (mem_append_right _ hfile)
    · rw [hstate]
      exact outside_state n rest
  · obtain hdir | hfile | rfl := h.absent t ha
    · exact outside_fixed (mem_append_left _ hdir)
    · exact outside_fixed (mem_append_right _ hfile)
    · exact outside_store h.store

/-! ### Sidecars -/

theorem isSqliteName_fixed (h : t ∈ FIXED_FILES) : isSqliteName t = false := by
  have hall : ∀ t ∈ FIXED_FILES, isSqliteName t = false := by decide
  exact hall t h

theorem withSuffix_cons (n n' : String) (rest : Path) (post : String) :
    withSuffix (n :: n' :: rest) post = n :: withSuffix (n' :: rest) post := by
  unfold withSuffix
  rw [dropLast_cons_of_ne_nil (cons_ne_nil _ _)]
  rfl

/-- The sidecar is beside the path. -/
theorem length_withSuffix (hp : p ≠ []) (post : String) : (withSuffix p post).length = p.length := by
  have hpos := length_pos_iff.mpr hp
  unfold withSuffix
  rw [length_append, length_dropLast, length_singleton]
  omega

theorem append_getLastD (hp : p ≠ []) : p.dropLast ++ [p.getLastD ""] = p := by
  rw [getLastD_eq_getLast?, List.getLast?_eq_some_getLast hp]
  exact dropLast_append_getLast hp

/-- A name ends as the suffix it was given does. -/
theorem take_reverse_append (x : List Char) {a : List Char} (ha : 4 ≤ a.length) :
    (x ++ a).reverse.take 4 = a.reverse.take 4 := by
  rw [reverse_append, take_append_of_le_length (by rwa [length_reverse])]

/-- No two sidecars have the same name, unless they are of one database. -/
theorem withSuffix_inj {post post' : String} (hp : p ≠ []) (hq : q ≠ []) (hpost : post ∈ SQLITE_SIDECARS)
    (hpost' : post' ∈ SQLITE_SIDECARS) (h : withSuffix p post = withSuffix q post') :
    p = q ∧ post = post' := by
  unfold withSuffix at h
  obtain ⟨hdrop, hlast⟩ := append_inj' h rfl
  have hname : (p.getLastD "").toList ++ post.toList = (q.getLastD "").toList ++ post'.toList := by
    rw [← String.toList_append, ← String.toList_append, (List.cons.inj hlast).1]
  -- The three suffixes differ before they end.
  have hsame : post = post' := by
    have hall : ∀ a ∈ SQLITE_SIDECARS, 4 ≤ a.toList.length ∧ ∀ b ∈ SQLITE_SIDECARS,
        a.toList.reverse.take 4 = b.toList.reverse.take 4 → a = b := by decide
    refine (hall post hpost).2 post' hpost' ?_
    rw [← take_reverse_append (p.getLastD "").toList (hall post hpost).1, hname,
      take_reverse_append _ (hall post' hpost').1]
  subst hsame
  refine ⟨?_, rfl⟩
  have heq : p.getLastD "" = q.getLastD "" := String.toList_inj.mp (append_cancel_right hname)
  rw [← append_getLastD hp, ← append_getLastD hq, hdrop, heq]

/-- The kind of a unit with sidecars is that of a database below `state`. -/
theorem Valid.database (h : Valid m) {u : ArchiveUnit} (hu : u ∈ m.units) (hs : s ∈ u.sidecars) :
    ∃ n rest, u.target = "state" :: n :: rest ∧ ∃ post ∈ SQLITE_SIDECARS, s = withSuffix u.target post := by
  unfold ArchiveUnit.sidecars at hs
  split at hs
  next hdb =>
    obtain ⟨post, hpost, rfl⟩ := mem_map.mp hs
    obtain ⟨-, hk⟩ | ⟨-, hk⟩ | ⟨hfile, -⟩ | ⟨-, n, rest, hstate, -⟩ := targetKind_cases (h.kinds u hu)
    · cases hdb.1.symm.trans hk
    · cases hdb.1.symm.trans hk
    · cases (isSqliteName_fixed hfile).symm.trans hdb.2
    · exact ⟨n, rest, hstate, post, hpost, rfl⟩
  · exact absurd hs not_mem_nil

/-! ### Archive paths -/

/-- Where a unit of the archive goes: the mapping is reversible. -/
def archiveTarget (storeTarget : Path) : Path → Path
  | "store" :: rest => storeTarget ++ rest
  | "memory" :: rest => "state" :: "memory" :: rest
  | "journal" :: rest => "state" :: "journal" :: rest
  | "system-jobs" :: rest => "state" :: "system-jobs" :: rest
  | "sqlite" :: rest => "state" :: rest
  | p => p

theorem archiveTarget_append (n : String) (rest r : Path) :
    archiveTarget storeTarget (n :: rest ++ r) = archiveTarget storeTarget (n :: rest) ++ r := by
  rw [cons_append]
  unfold archiveTarget
  split <;> simp_all

theorem archiveTarget_prefix {a a' : Path} (ha : a ≠ []) (h : a <+: a') :
    archiveTarget storeTarget a <+: archiveTarget storeTarget a' := by
  obtain ⟨r, rfl⟩ := h
  cases a with
  | nil => exact absurd rfl ha
  | cons n rest =>
    rw [archiveTarget_append]
    exact prefix_append _ _

/-- An archive path, and what it stands for. -/
def Reversible (storeTarget t : Path) : Prop :=
  archivePrefix t storeTarget ≠ [] ∧ (archivePrefix t storeTarget).head? ≠ some ".rejected" ∧
    archiveTarget storeTarget (archivePrefix t storeTarget) = t

theorem reversible_store : Reversible t t := by
  unfold Reversible archivePrefix
  rw [if_pos rfl]
  exact ⟨cons_ne_nil _ _, by decide, append_nil _⟩

theorem reversible_fixed (hne : t ≠ storeTarget) (h : t ∈ FIXED_DIRS ++ FIXED_FILES) :
    Reversible storeTarget t := by
  unfold Reversible archivePrefix
  rw [if_neg hne]
  simp only [FIXED_DIRS, FIXED_FILES, cons_append, nil_append, mem_cons, not_mem_nil, or_false] at h
  obtain rfl | rfl | rfl | rfl | rfl | rfl | rfl | rfl | rfl | rfl | rfl := h <;> simp [archiveTarget]

theorem reversible_state (hne : t ≠ storeTarget) {n : String} {rest : Path} (ht : t = "state" :: n :: rest)
    (hname : isSqliteName (n :: rest) = true) : Reversible storeTarget t := by
  unfold Reversible archivePrefix
  rw [if_neg hne]
  subst ht
  split
  next n' rest' heq =>
    simp only [List.cons.injEq, true_and] at heq
    simp [archiveTarget, heq.1, heq.2]
  next heq =>
    simp only [List.cons.injEq, true_and] at heq
    simp [archiveTarget, heq.1, heq.2]
  next heq =>
    simp only [List.cons.injEq, true_and] at heq
    simp [archiveTarget, heq.1, heq.2]
  next n' rest' _ _ _ heq =>
    simp only [List.cons.injEq, true_and] at heq
    obtain ⟨rfl, rfl⟩ := heq
    rw [if_pos hname]
    simp [archiveTarget]
  next hno => exact absurd rfl (hno n rest)

theorem Valid.reversible (h : Valid m) {u : ArchiveUnit} (hu : u ∈ m.units) :
    Reversible m.storeTarget u.target := by
  by_cases hne : u.target = m.storeTarget
  · rw [hne]
    exact reversible_store
  obtain ⟨hstore, -⟩ | ⟨hdir, -⟩ | ⟨hfile, -⟩ | ⟨-, n, rest, hstate, hname⟩ := targetKind_cases (h.kinds u hu)
  · exact absurd hstore hne
  · exact reversible_fixed hne (mem_append_left _ hdir)
  · exact reversible_fixed hne (mem_append_right _ hfile)
  · exact reversible_state hne hstate hname

/-! ### The layout -/

theorem apart_of_length (hlen : p.length = q.length) (hne : p ≠ q) : Apart p q :=
  ⟨fun h => hne (h.eq_of_length hlen), fun h => hne (h.eq_of_length hlen.symm).symm⟩

theorem ne_of_apart (h : Apart p q) : p ≠ q := fun heq => h.1 (heq ▸ prefix_rfl)

/-- What a sidecar lies in, its database does. -/
theorem prefix_withSuffix {post : String} (h : p <+: withSuffix q post) :
    p = withSuffix q post ∨ p <+: q := by
  obtain heq | hpre := prefix_concat_iff.mp h
  · exact .inl heq
  · exact .inr (hpre.trans (List.dropLast_prefix q))

section Slots

variable (hv : Valid m) (hsep : m.targets.Pairwise Apart) (hclear : Clear m) {u u' : ArchiveUnit}

include hv in
/-- The sidecars of a database are beside it and one another. -/
theorem Valid.slots_apart (hu : u ∈ m.units) : u.slots.Pairwise Apart := by
  unfold ArchiveUnit.slots
  rw [pairwise_cons]
  constructor
  · intro s hs
    obtain ⟨n, rest, hstate, post, hpost, rfl⟩ := hv.database hu hs
    have hne : u.target ≠ [] := by simp [hstate]
    refine apart_of_length (length_withSuffix hne post).symm fun heq => ?_
    -- The name of a sidecar is longer.
    have hlast : (u.target.getLastD "").toList = (u.target.getLastD "").toList ++ post.toList := by
      have hparts : u.target.dropLast ++ [u.target.getLastD ""] = withSuffix u.target post :=
        (append_getLastD hne).trans heq
      obtain ⟨-, hsegment⟩ := append_inj' hparts rfl
      rw [← String.toList_append]
      exact congrArg String.toList (List.cons.inj hsegment).1
    have hlen := congrArg List.length hlast
    have hpos : ∀ a ∈ SQLITE_SIDECARS, 0 < a.toList.length := by decide
    have hpostpos := hpos post hpost
    rw [length_append] at hlen
    omega
  · unfold ArchiveUnit.sidecars
    split
    next hdb =>
      have hmem : withSuffix u.target "-wal" ∈ u.sidecars := by
        unfold ArchiveUnit.sidecars
        rw [if_pos hdb]
        exact mem_map_of_mem (by decide)
      obtain ⟨n, rest, hstate, -⟩ := hv.database hu hmem
      have hne : u.target ≠ [] := by simp [hstate]
      have hsuffixes : SQLITE_SIDECARS.Pairwise (· ≠ ·) := by decide
      rw [pairwise_map]
      refine hsuffixes.imp_of_mem fun {a b} ha hb hab => ?_
      refine apart_of_length ?_ fun heq => hab (withSuffix_inj hne hne ha hb heq).2
      rw [length_withSuffix hne, length_withSuffix hne]
    · exact List.Pairwise.nil

include hv hclear in
/-- What is beside one target is apart from what is beside another. -/
theorem Valid.units_apart (hu : u ∈ m.units) (hu' : u' ∈ m.units) (h : Apart u.target u'.target) :
    ∀ x ∈ u.slots, ∀ y ∈ u'.slots, Apart x y := by
  -- A target against a sidecar of the other.
  have hside : ∀ u ∈ m.units, ∀ u' ∈ m.units, Apart u.target u'.target → ∀ s ∈ u'.sidecars,
      Apart u.target s := by
    intro u hu u' hu' h s hs
    have hnot := hclear.sidecars u' hu' s hs u hu
    refine ⟨fun hpre => ?_, hnot⟩
    obtain ⟨-, -, -, post, -, rfl⟩ := hv.database hu' hs
    obtain heq | hpre := prefix_withSuffix hpre
    · exact hnot (heq ▸ prefix_rfl)
    · exact h.1 hpre
  intro x hx y hy
  obtain rfl | hx := mem_cons.mp hx
  · obtain rfl | hy := mem_cons.mp hy
    · exact h
    · exact hside u hu u' hu' h y hy
  · obtain rfl | hy := mem_cons.mp hy
    · exact (hside u' hu' u hu h.symm x hx).symm
    · have hnot := hclear.sidecars u hu x hx u' hu'
      have hnot' := hclear.sidecars u' hu' y hy u hu
      obtain ⟨n, rest, hstate, post, hpost, rfl⟩ := hv.database hu hx
      obtain ⟨n', rest', hstate', post', hpost', rfl⟩ := hv.database hu' hy
      have hne : withSuffix u.target post ≠ withSuffix u'.target post' := by
        intro heq
        have htargets := (withSuffix_inj (by simp [hstate]) (by simp [hstate']) hpost hpost' heq).1
        exact ne_of_apart h htargets
      constructor
      · intro hpre
        obtain heq | hpre := prefix_withSuffix hpre
        · exact hne heq
        · exact hnot hpre
      · intro hpre
        obtain heq | hpre := prefix_withSuffix hpre
        · exact hne heq.symm
        · exact hnot' hpre

include hv hsep hclear in
theorem Valid.pairwise_slots : m.slots.Pairwise Apart := by
  obtain ⟨hunits, habsent, hcross⟩ := pairwise_append.mp hsep
  unfold Manifest.slots
  rw [pairwise_append, pairwise_flatMap]
  refine ⟨⟨fun u hu => hv.slots_apart hu, ?_⟩, habsent.filter _, ?_⟩
  · rw [pairwise_map] at hunits
    exact hunits.imp_of_mem fun {u u'} hu hu' h => hv.units_apart hclear hu hu' h
  · intro x hx a ha
    obtain ⟨u, hu, hx⟩ := mem_flatMap.mp hx
    obtain ⟨ha, hcovers⟩ := mem_filter.mp ha
    have htarget : Apart u.target a := hcross _ (mem_map.mpr ⟨u, hu, rfl⟩) a ha
    obtain rfl | hx := mem_cons.mp hx
    · exact htarget
    · have hnot : ¬x <+: a := by
        intro hpre
        have hcov : m.covers a = true :=
          List.any_eq_true.mpr ⟨u, hu, List.any_eq_true.mpr ⟨x, hx, List.isPrefixOf_iff_prefix.mpr hpre⟩⟩
        rw [hcov] at hcovers
        cases hcovers
      refine ⟨hnot, fun hpre => ?_⟩
      obtain ⟨-, -, -, post, -, rfl⟩ := hv.database hu hx
      obtain heq | hpre := prefix_withSuffix hpre
      · exact hnot (heq ▸ prefix_rfl)
      · exact htarget.2 hpre

end Slots

theorem slot_cases (ht : t ∈ m.slots) : t ∈ m.targets ∨ ∃ u ∈ m.units, t ∈ u.sidecars := by
  obtain hslot | habsent := mem_append.mp ht
  · obtain ⟨u, hu, hmem⟩ := mem_flatMap.mp hslot
    obtain rfl | hs := mem_cons.mp hmem
    · exact .inl (mem_append_left _ (mem_map.mpr ⟨u, hu, rfl⟩))
    · exact .inr ⟨u, hu, hs⟩
  · exact .inl (mem_append_right _ (mem_filter.mp habsent).1)

theorem Valid.outside_slot (hv : Valid m) (ht : t ∈ m.slots) : Outside t := by
  obtain ht | ⟨u, hu, hs⟩ := slot_cases ht
  · exact hv.outside ht
  · obtain ⟨n, rest, hstate, post, -, rfl⟩ := hv.database hu hs
    have hlen := length_withSuffix (cons_ne_nil n rest) post
    rw [hstate, withSuffix_cons]
    cases hside : withSuffix (n :: rest) post with
    | nil =>
      rw [hside] at hlen
      cases hlen
    | cons n' rest' => exact outside_state n' rest'

/-- No sidecar is the marker. -/
theorem withSuffix_ne_marker {post : String} (hpost : post ∈ SQLITE_SIDECARS) :
    withSuffix p post ≠ REAPPLY_MARKER := by
  intro heq
  have hparts : p.dropLast ++ [p.getLastD "" ++ post] = ["state"] ++ [".restore-reapply-tombstones"] := heq
  obtain ⟨-, hlast⟩ := append_inj' hparts rfl
  have hname : (p.getLastD "").toList ++ post.toList = ".restore-reapply-tombstones".toList := by
    rw [← String.toList_append, (List.cons.inj hlast).1]
  have hall : ∀ a ∈ SQLITE_SIDECARS, 4 ≤ a.toList.length ∧
      a.toList.reverse.take 4 ≠ ".restore-reapply-tombstones".toList.reverse.take 4 := by decide
  refine (hall post hpost).2 ?_
  rw [← hname, take_reverse_append _ (hall post hpost).1]

theorem Valid.not_prefix_marker (hv : Valid m) (hclear : Clear m) (ht : t ∈ m.slots) :
    ¬t <+: REAPPLY_MARKER := by
  intro hpre
  obtain ⟨⟨n, rest, rfl, -⟩, hstate⟩ := hv.outside_slot ht
  have hpair : n :: rest = ["state"] ∨ n :: rest = REAPPLY_MARKER := by
    obtain ⟨rfl, hrest⟩ := cons_prefix_cons.mp hpre
    cases rest with
    | nil => exact .inl rfl
    | cons n' rest' =>
      obtain ⟨rfl, hnil⟩ := cons_prefix_cons.mp hrest
      rw [prefix_nil.mp hnil]
      exact .inr rfl
  obtain heq | heq := hpair
  · exact hstate heq
  · rw [heq] at ht
    obtain hmem | ⟨u, hu, hs⟩ := slot_cases ht
    · exact hclear.marker hmem
    · obtain ⟨-, -, -, post, hpost, hside⟩ := hv.database hu hs
      exact withSuffix_ne_marker hpost hside.symm

theorem apart_of_head {n n' : String} (h : n ≠ n') (r r' : Path) : Apart (n :: r) (n' :: r') :=
  ⟨fun hpre => h (cons_prefix_cons.mp hpre).1, fun hpre => h (cons_prefix_cons.mp hpre).1.symm⟩

theorem startsWith_append (s post : String) : startsWith (s ++ post) s = true := by
  unfold startsWith
  rw [String.toList_append, List.isPrefixOf_iff_prefix]
  exact prefix_append _ _

theorem ne_restore {n : String} (h : startsWith n ".restore-" = false) (id : String) : ".restore-" ++ id ≠ n := by
  rintro rfl
  rw [startsWith_append] at h
  cases h

/-- A verified manifest whose targets are not nested has a layout that can be undone. -/
theorem Valid.layout (hv : Valid m) (hsep : m.targets.Pairwise Apart) (hclear : Clear m) (id : String) :
    Layout m (stagingAt id) (preAt id) := by
  have hpairwise := hv.pairwise_slots hsep hclear
  have hsymm : Std.Symm (Apart : Path → Path → Prop) := ⟨fun _ _ h => h.symm⟩
  refine {
    nodup := hpairwise.imp fun h => ne_of_apart h
    targets := hv.nodup
    sidecars := fun u hu s hs u' hu' heq => hclear.sidecars u hu s hs u' hu' (heq ▸ prefix_rfl)
    apart := fun t ht t' ht' hne => hpairwise.forall ht ht' hne
    ne_nil := ?_
    asideTree := ?_
    stagingTree := ?_
    trees := apart_of_head (ne_restore (by decide) id).symm _ _
    marker := fun t ht => hv.not_prefix_marker hclear ht
    markerTrees := ⟨apart_of_head (by decide) _ _, apart_of_head (ne_restore (by decide) id) _ _⟩
    archives := ?_
    rejected := ?_
    archive_ne_nil := ?_ }
  · intro t ht
    obtain ⟨⟨n, rest, rfl, -⟩, -⟩ := hv.outside_slot ht
    exact cons_ne_nil n rest
  · intro t ht
    obtain ⟨⟨n, rest, rfl, hne, -⟩, -⟩ := hv.outside_slot ht
    exact apart_of_head hne.symm _ _
  · intro t ht
    obtain ⟨⟨n, rest, rfl, -, hstart⟩, -⟩ := hv.outside_slot ht
    exact apart_of_head (ne_restore hstart id) _ _
  · intro u hu u' hu' hne
    have hapart : Apart u.target u'.target := hsep.forall (mem_append_left _ (mem_map.mpr ⟨u, hu, rfl⟩))
        (mem_append_left _ (mem_map.mpr ⟨u', hu', rfl⟩)) hne
    obtain ⟨hnil, -, hback⟩ := hv.reversible hu
    obtain ⟨hnil', -, hback'⟩ := hv.reversible hu'
    rw [hv.archives u hu, hv.archives u' hu']
    refine ⟨fun hpre => hapart.1 ?_, fun hpre => hapart.2 ?_⟩
    · rw [← hback, ← hback']
      exact archiveTarget_prefix hnil hpre
    · rw [← hback, ← hback']
      exact archiveTarget_prefix hnil' hpre
  · intro u hu
    obtain ⟨hnil, hhead, -⟩ := hv.reversible hu
    rw [hv.archives u hu]
    cases hp : archivePrefix u.target m.storeTarget with
    | nil => exact absurd hp hnil
    | cons n rest =>
      rw [hp] at hhead
      exact apart_of_head (fun heq => hhead (congrArg some heq)) _ _
  · intro u hu
    rw [hv.archives u hu]
    exact (hv.reversible hu).1

/-! ### What a restore does -/

/-- What a crash may leave: what was live is whole, in its place or aside, and without the
marker everything is in its place. -/
structure Safe (m : Manifest) (pre : Path) (h₀ home : Node β) : Prop where
  whole : ∀ t ∈ m.moved, find t h₀ ≠ none → find t home = find t h₀ ∨ find (pre ++ t) home = find t h₀
  marked : find REAPPLY_MARKER home = none → ∀ t ∈ m.moved, find t home = find t h₀

/-- What success means: the units are live, nothing else that was named is, and all that was is
aside. -/
structure Applied (m : Manifest) (staging pre : Path) (h₀ home : Node β) : Prop where
  live : ∀ u ∈ m.units, (find u.target home).isSome ∧ find u.target home = find (staging ++ u.archive) h₀
  gone : ∀ t ∈ m.moved, (∀ u ∈ m.units, u.target ≠ t) → find t home = none
  aside : ∀ t ∈ m.moved, find t h₀ ≠ none → find (pre ++ t) home = find t h₀
  marker : find REAPPLY_MARKER home ≠ none

/-- Everything that was named is as before the call. -/
def Unchanged (m : Manifest) (h₀ home : Node β) : Prop := (∀ t ∈ m.moved, find t home = find t h₀) ∧
    entry (find REAPPLY_MARKER home) = entry (find REAPPLY_MARKER h₀)

section Moved

variable {env : Env β} {staging pre : Path} {h₀ home : Node β}

/-- What is moved is a slot or goes with one. -/
theorem Layout.moved_cases (L : Layout m staging pre) (ht : t ∈ m.moved) :
    t ∈ m.slots ∨ ∃ s ∈ m.slots, (∀ u ∈ m.units, u.target ≠ s) ∧ ∃ r, t = s ++ r := by
  obtain hunit | habsent := mem_append.mp ht
  · exact .inl (mem_append_left _ hunit)
  · cases hcovers : m.covers t with
    | false =>
      refine .inl (mem_append_right _ (mem_filter.mpr ⟨habsent, ?_⟩))
      rw [hcovers]
      rfl
    | true =>
      obtain ⟨s, hs, -, hunit, r, hr⟩ := L.covered hcovers
      exact .inr ⟨s, hs, hunit, r, hr.symm⟩

theorem Intact.unchanged (L : Layout m staging pre) (h : Intact m h₀ home) :
    ∀ t ∈ m.moved, find t home = find t h₀ := by
  intro t ht
  obtain hslot | ⟨s, hs, -, r, rfl⟩ := L.moved_cases ht
  · exact h t hslot
  · rw [find_append, find_append, h s hs]

theorem Kept.safe (L : Layout m staging pre) (h : Kept m pre h₀ home) : Safe m pre h₀ home where
  whole := by
    intro t ht hlive
    obtain hslot | ⟨s, hs, -, r, rfl⟩ := L.moved_cases ht
    · exact h.whole t hslot hlive
    · have hs₀ : find s h₀ ≠ none := by
        intro hnone
        rw [find_append, hnone, find_none] at hlive
        exact hlive rfl
      rw [← append_assoc]
      simp only [find_append _ r]
      obtain hin | haside := h.whole s hs hs₀
      · exact .inl (by rw [hin])
      · exact .inr (by rw [haside])
  marked := by
    intro hnone
    obtain hmark | hintact := h.marked
    · exact absurd hnone hmark
    · exact Intact.unchanged L hintact

theorem Restored.applied (L : Layout m staging pre) (h : Restored m staging pre h₀ home) :
    Applied m staging pre h₀ home where
  live := h.live
  gone := by
    intro t ht hunit
    obtain hslot | ⟨s, hs, hunit', r, rfl⟩ := L.moved_cases ht
    · exact h.gone t hslot hunit
    · rw [find_append, h.gone s hs hunit', find_none]
  aside := by
    intro t ht hlive
    obtain hslot | ⟨s, hs, -, r, rfl⟩ := L.moved_cases ht
    · exact h.aside t hslot hlive
    · have hs₀ : find s h₀ ≠ none := by
        intro hnone
        rw [find_append, hnone, find_none] at hlive
        exact hlive rfl
      rw [← append_assoc, find_append, h.aside s hs hs₀, find_append]
  marker := h.marker

end Moved

/-- Undoing ends with an error. -/
theorem wp_undoAll (env : Env β) (staging pre : Path) (created : Bool) (w : World (Disk β) Unit) :
    Prog.wp (undoAll env staging pre created) (fun _ _ => False) (fun _ _ => True) w := by
  unfold undoAll
  rw [Prog.wp_bind]
  refine Prog.wp_of_forall (fun done w => ?_) fun _ _ => trivial
  rw [Prog.wp_bind]
  refine Prog.wp_of_forall (fun ok w => ?_) fun _ _ => trivial
  cases ok with
  | false => exact trivial
  | true =>
    simp only [if_true, Prog.wp_bind]
    refine Prog.wp_of_forall (fun _ w => ?_) fun _ _ => trivial
    refine Prog.wp_of_forall (fun _ w => ?_) fun _ _ => trivial
    exact Prog.wp_of_forall (fun _ w => trivial) fun _ _ => trivial

/-- A swap in which a step failed is not answered. -/
theorem swapOrUndo_fails {env : Env β} {staging pre : Path} {created : Bool} {w w' : World (Disk β) Unit}
    {e : Failure} (h : swap env staging pre m w = (.error (.thrown e), w')) (w'' : World (Disk β) Unit) :
    swapOrUndo env staging pre m created w ≠ (.ok (), w'') := by
  intro hok
  have hwp : Prog.wp (swapOrUndo env staging pre m created) (fun _ _ => False) (fun _ _ => True) w := by
    unfold swapOrUndo
    rw [Prog.wp_bind, wp_attempt]
    unfold Prog.wp
    rw [h]
    refine ⟨fun hcrash => (by cases hcrash), fun e' he => ?_⟩
    exact wp_undoAll env staging pre created w'
  unfold Prog.wp at hwp
  rw [hok] at hwp
  exact hwp

/-- For a verified manifest whose targets are not nested: whatever a crash leaves, nothing is
lost; a restore that succeeds has applied the backup, and one that fails has changed nothing
unless undoing failed; and a step that fails is an error. -/
theorem restore_loses_nothing (m : Manifest) (id : String) (env : Env β) (h₀ : Node β)
    (hvalid : m.validate = true) (hsep : m.targets.Pairwise Apart) (hclear : Clear m)
    (hfresh : Fresh (stagingAt id) (preAt id) h₀) :
    (∀ n torn, Safe m (preAt id) h₀
        (leaves (restore env (stagingAt id) (preAt id) m) ⟨h₀, [], 0⟩ n torn).home) ∧
      ((∃ w, restore env (stagingAt id) (preAt id) m { disk := ⟨h₀, [], 0⟩ } = (.ok (), w) ∧
          Applied m (stagingAt id) (preAt id) h₀ w.disk.home) ∨
        ∃ e w, restore env (stagingAt id) (preAt id) m { disk := ⟨h₀, [], 0⟩ } = (.error (.thrown e), w) ∧
          (¬Faulty env → Unchanged m h₀ w.disk.home)) ∧
      ∀ created w e w', swap env (stagingAt id) (preAt id) m w = (.error (.thrown e), w') →
        ∀ w'', swapOrUndo env (stagingAt id) (preAt id) m created w ≠ (.ok (), w'') := by
  have L := (Manifest.validate_valid hvalid).layout hsep hclear id
  have htriple : Triple _ (restore env (stagingAt id) (preAt id) m) _ _ _ := triple_restore L hfresh
  have hstart : On (fun done home => done = [] ∧ home = h₀) (⟨h₀, [], 0⟩ : Disk β) := ⟨rfl, rfl⟩
  refine ⟨fun n torn => ?_, ?_, fun created w e w' h w'' => swapOrUndo_fails h w''⟩
  · obtain hkept | ⟨_, hrestored⟩ | ⟨e, hfailed⟩ := htriple.leaves hstart n torn
    · exact hkept.safe L
    · exact hrestored.kept.safe L
    · exact hfailed.1.safe L
  · obtain ⟨_, w, hrun, hrestored⟩ | ⟨e, w, hrun, hfailed⟩ := htriple.ends hstart
    · exact .inl ⟨w, hrun, hrestored.applied L⟩
    · refine .inr ⟨e, w, hrun, fun hnot => ?_⟩
      obtain ⟨hintact, hmarker⟩ := hfailed.2 hnot
      exact ⟨hintact.unchanged L, hmarker hnot⟩

/-- A run in which no operation fails. -/
def quiet : Env ℕ where
  fault := fun _ => false
  undoFault := fun _ => false
  torn := fun _ => 0
  remains := fun _ _ => none
  marker := 0
  swapFails := fun _ => false
  swapAfterFails := fun _ => false

/-- The manifest of a backup of the databases at `ps`. -/
def databases (ps : List Path) : Manifest where
  storeTarget := ["state", "lancedb"]
  units := ps.map fun p => ⟨"sqlite" :: p, "state" :: p, .file⟩
  absent := []

/-- A home with a database, its log and the staged archive of another state of it. -/
def homeWithLog : Node ℕ :=
  some (.dir [("state", .dir [("a.db", .file 1), ("a.db-wal", .file 2)]), ("backups", .dir []),
    (".restore-1", .dir [("sqlite", .dir [("a.db", .file 3)])])])

theorem restore_loses_nothing_database : (databases [["a.db"]]).validate = true ∧
      Applied (databases [["a.db"]]) (stagingAt "1") (preAt "1") homeWithLog
        (restore quiet (stagingAt "1") (preAt "1") (databases [["a.db"]])
          { disk := ⟨homeWithLog, [], 0⟩ }).2.disk.home := by
  have hvalid : (databases [["a.db"]]).validate = true := by decide
  refine ⟨hvalid, ?_⟩
  have hall := (restore_loses_nothing (databases [["a.db"]]) "1" quiet homeWithLog hvalid
    (pairwise_singleton _ _) ⟨by decide, by decide⟩ ⟨rfl, rfl, rfl⟩).2.1
  obtain ⟨w, hrun, happlied⟩ | ⟨e, w, hrun, -⟩ := hall
  · rw [hrun]
    exact happlied
  · have hok : (restore quiet (stagingAt "1") (preAt "1") (databases [["a.db"]])
        { disk := ⟨homeWithLog, [], 0⟩ }).1 = .ok () := rfl
    rw [hrun] at hok
    cases hok

/-- A home with nothing live, where the archive has a database in what is the log of another. -/
def homeWithNothing : Node ℕ := some (.dir [("backups", .dir []), (".restore-1", .dir [("sqlite", .dir
    [("a.db", .file 3), ("a.db-wal", .dir [("x.db", .file 4)])])])])

/-- The database that was placed first goes aside with the log of the second: the restore
succeeds and the unit is not live. -/
theorem placed_unit_moved_aside : ∃ m : Manifest, m.validate = true ∧ m.targets.Pairwise Apart ∧
      Fresh (stagingAt "1") (preAt "1") homeWithNothing ∧
      ∃ w, restore quiet (stagingAt "1") (preAt "1") m { disk := ⟨homeWithNothing, [], 0⟩ } = (.ok (), w) ∧
        ¬Applied m (stagingAt "1") (preAt "1") homeWithNothing w.disk.home := by
  refine ⟨databases [["a.db-wal", "x.db"], ["a.db"]], by decide, ?_, ⟨rfl, rfl, rfl⟩, _, rfl, ?_⟩
  · show [["state", "a.db-wal", "x.db"], ["state", "a.db"]].Pairwise Apart
    rw [pairwise_cons]
    refine ⟨fun q hq => ?_, pairwise_singleton _ _⟩
    rw [mem_singleton.mp hq]
    exact ⟨by decide, by decide⟩
  · intro happlied
    have hlive := (happlied.live _ mem_cons_self).1
    have hgone : (find ["state", "a.db-wal", "x.db"] (restore quiet (stagingAt "1") (preAt "1")
        (databases [["a.db-wal", "x.db"], ["a.db"]]) { disk := ⟨homeWithNothing, [], 0⟩ }).2.disk.home).isSome =
          false := rfl
    cases hgone.symm.trans hlive

end Plur1bus.Backup
