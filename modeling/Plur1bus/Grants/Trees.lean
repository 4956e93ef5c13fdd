import Plur1bus.Grants.Store
import Mathlib.Data.List.Infix
import Mathlib.Tactic.Common

/-!
Grants on paths and the directories nobody may hand out lightly: a home, a
drive or share root, the containers of the homes, and the system's own trees.

A target is classified segment by segment after folding (normal form and
letter case), so the classification matches more spellings than the exact
comparison that decides what a grant covers. The folding is a parameter: all
that is used of it is that equal segments fold to equal segments.
-/

namespace Plur1bus.Policy

open List

variable (foldForDeny : List Char → List Char)

def POSIX_SYSTEM : List String :=
  ["/etc", "/usr", "/System", "/Library", "/bin", "/sbin", "/boot", "/proc", "/sys", "/dev",
    "/private/etc", "/private/var/db", "/private/var/root"]

def WIN_SYSTEM : List String :=
  ["C:\\Windows", "C:\\Program Files", "C:\\Program Files (x86)", "C:\\ProgramData"]

def POSIX_HOMES_PARENT : List String := ["/Users", "/home"]

def WIN_HOMES_PARENT : List String := ["C:\\Users"]

/-- The non-empty segments of a path in one spelling. -/
def splitSegments (posix : Bool) (p : String) : List (List Char) :=
  (p.toList.splitOnP (isSep posix)).filter (fun s => !s.isEmpty)

def foldSegments (p : String) (windows : Bool) : List (List Char) :=
  (splitSegments (!windows) p).map foldForDeny

def startsWithSegs (a pre : List (List Char)) : Bool := pre.isPrefixOf a

def sameSegs (a b : List (List Char)) : Bool := a.length == b.length && startsWithSegs a b

def homeSegments (homes : List String) (windows : Bool) : List (List (List Char)) :=
  ((homes.filter (fun h => h != "")).map (fun h => foldSegments foldForDeny h windows)).filter
    (fun h => !h.isEmpty)

def isUnc (p : String) : Bool := ['\\', '\\'].isPrefixOf p.toList

/-- `/^[A-Za-z]:/`. -/
def hasDrive (p : String) : Bool :=
  match p.toList with
  | d :: ':' :: _ => isAsciiLetter d
  | _ => false

def homesParent (windows : Bool) : List String := if windows then WIN_HOMES_PARENT else POSIX_HOMES_PARENT

def systemTrees (windows : Bool) : List String := if windows then WIN_SYSTEM else POSIX_SYSTEM

/-- A home, a drive or share root, `/`, a container of homes, or a path at or
below a system tree. -/
def isSystemTreePath (p : String) (windows : Bool) (homes : List String) : Bool :=
  let segs := foldSegments foldForDeny p windows
  if segs.length = 0 then true
  else
    let unc := windows && isUnc p
    if windows && (unc || hasDrive p) && Nat.ble segs.length (if unc then 2 else 1) then true
    else if (homeSegments foldForDeny homes windows).any (fun h => sameSegs h segs) then true
    else if (homesParent windows).any
        (fun f => sameSegs (foldSegments foldForDeny f windows) segs) then true
    else (systemTrees windows).any
      (fun f => startsWithSegs segs (foldSegments foldForDeny f windows))

/-- A grant reaches a system tree when its path is one or holds a home, and,
when recursive, when it holds a system tree or the container of the homes. -/
def grantReachesSystemTree (grantPath : String) (recursive : Bool) (windows : Bool)
    (homes : List String) : Bool :=
  if isSystemTreePath foldForDeny grantPath windows homes then true
  else
    let g := foldSegments foldForDeny grantPath windows
    if (homeSegments foldForDeny homes windows).any (fun h => startsWithSegs h g) then true
    else if !recursive then false
    else (homesParent windows ++ systemTrees windows).any
      (fun f => startsWithSegs (foldSegments foldForDeny f windows) g)

/-! ### What the tests mean -/

variable {foldForDeny}

theorem startsWithSegs_iff {a pre : List (List Char)} : startsWithSegs a pre = true ↔ pre <+: a := by
  simp only [startsWithSegs, List.isPrefixOf_iff_prefix]

theorem sameSegs_iff {a b : List (List Char)} : sameSegs a b = true ↔ a = b := by
  simp only [sameSegs, Bool.and_eq_true, beq_iff_eq, startsWithSegs_iff]
  constructor
  · rintro ⟨hl, hp⟩
    exact (hp.eq_of_length hl.symm).symm
  · rintro rfl
    exact ⟨rfl, prefix_rfl⟩

/-- A path that is its spelling's own root: a share with its server, or a
drive. -/
def IsVolume (p : String) (n : ℕ) : Prop :=
  isUnc p = true ∧ n ≤ 2 ∨ isUnc p = false ∧ hasDrive p = true ∧ n ≤ 1

variable {p : String} {windows : Bool} {homes : List String}

theorem isSystemTreePath_iff : isSystemTreePath foldForDeny p windows homes = true ↔
      foldSegments foldForDeny p windows = [] ∨
      (windows = true ∧ IsVolume p (foldSegments foldForDeny p windows).length) ∨
      foldSegments foldForDeny p windows ∈ homeSegments foldForDeny homes windows ∨
      (∃ f ∈ homesParent windows, foldSegments foldForDeny f windows = foldSegments foldForDeny p windows) ∨
      ∃ f ∈ systemTrees windows,
        foldSegments foldForDeny f windows <+: foldSegments foldForDeny p windows := by
  have hv : (windows && (windows && isUnc p || hasDrive p) &&
      Nat.ble (foldSegments foldForDeny p windows).length
        (if windows && isUnc p then 2 else 1)) = true ↔
      windows = true ∧ IsVolume p (foldSegments foldForDeny p windows).length := by
    cases windows <;> cases hu : isUnc p <;> simp [IsVolume, hu]
  simp only [isSystemTreePath, length_eq_zero_iff, Bool.if_true_left, Bool.or_eq_true,
    decide_eq_true_eq, hv, List.any_eq_true, sameSegs_iff, startsWithSegs_iff, exists_eq_right]

variable {grantPath : String} {recursive : Bool}

theorem grantReachesSystemTree_iff :
    grantReachesSystemTree foldForDeny grantPath recursive windows homes = true ↔
      isSystemTreePath foldForDeny grantPath windows homes = true ∨
      (∃ h ∈ homeSegments foldForDeny homes windows, foldSegments foldForDeny grantPath windows <+: h) ∨
      recursive = true ∧ ∃ f ∈ homesParent windows ++ systemTrees windows,
        foldSegments foldForDeny grantPath windows <+: foldSegments foldForDeny f windows := by
  cases recursive <;>
    simp only [grantReachesSystemTree, Bool.if_true_left, Bool.or_eq_true, decide_eq_true_eq,
      List.any_eq_true, startsWithSegs_iff, Bool.not_true, Bool.not_false, if_true, if_false,
      Bool.false_eq_true, false_and, true_and, or_false]

/-- The spelling of a path that `segments` reads: from the root `/`, or by
drive or share. -/
def isPosix (p : String) : Bool := p.toList.head? == some '/'

variable {s : Segments}

theorem segments_some (h : segments p = some s) : s = ⟨isPosix p, splitSegments (isPosix p) p⟩ := by
  simp only [segments] at h
  split at h
  · cases h
  · split at h
    · cases h
    · exact (Option.some.inj h).symm

variable {target : String}

/-- What covering means for the segments of the two paths. -/
theorem pathCovered_ok (h : pathCovered grantPath recursive target = true) :
    isPosix target = isPosix grantPath ∧ splitSegments (isPosix grantPath) grantPath ≠ [] ∧
      splitSegments (isPosix grantPath) grantPath <+: splitSegments (isPosix grantPath) target ∧
      (recursive = true ∨ (splitSegments (isPosix grantPath) target).length =
        (splitSegments (isPosix grantPath) grantPath).length + 1) := by
  simp only [pathCovered] at h
  split at h
  · rename_i g t hg ht
    rw [segments_some hg, segments_some ht] at h
    simp only [Bool.and_eq_true, beq_iff_eq, Bool.not_eq_true', isEmpty_eq_false_iff,
      List.isPrefixOf_iff_prefix, Bool.or_eq_true] at h
    obtain ⟨⟨⟨hp, hne⟩, hpre⟩, hlen⟩ := h
    rw [← hp] at hpre hlen
    exact ⟨hp.symm, hne, hpre, hlen⟩
  · cases h

/-! ### Covered system trees are reached -/

/-- The system trees that lie below a directory that is none. -/
def NESTED_SYSTEM : List String := ["/private/etc", "/private/var/db", "/private/var/root"]


theorem length_foldSegments (p : String) (windows : Bool) :
    (foldSegments foldForDeny p windows).length = (splitSegments (!windows) p).length := by
  simp only [foldSegments, length_map]

theorem length_homesParent_posix : ∀ f ∈ homesParent false, (splitSegments true f).length = 1 := by
  decide

theorem length_listed_windows :
    ∀ f ∈ homesParent true ++ systemTrees true, (splitSegments false f).length = 2 := by
  decide

theorem length_systemTrees_posix :
    ∀ f ∈ systemTrees false, f ∈ NESTED_SYSTEM ∨ (splitSegments true f).length = 1 := by
  decide

/-- A Windows grant on a single segment is a volume, so it is a system tree. -/
theorem reaches_of_single (habs : isUnc grantPath = true ∨ hasDrive grantPath = true)
    (hl : (foldSegments foldForDeny grantPath true).length ≤ 1) :
    grantReachesSystemTree foldForDeny grantPath recursive true homes = true := by
  refine grantReachesSystemTree_iff.mpr (Or.inl (isSystemTreePath_iff.mpr (Or.inr (Or.inl ?_))))
  refine ⟨rfl, ?_⟩
  cases hu : isUnc grantPath with
  | true => exact Or.inl ⟨hu, by omega⟩
  | false => exact Or.inr ⟨hu, habs.resolve_left (by simp [hu]), hl⟩

/-- A path `segments` reads that does not start at `/` names a drive or a
share. -/
theorem volume_of_segments (h : segments p = some s) (hw : isPosix p = false) :
    isUnc p = true ∨ hasDrive p = true := by
  have habs : isAbs p.toList = true := by
    by_contra hn
    simp [segments, hn] at h
  simp only [isPosix, isUnc, hasDrive] at hw ⊢
  generalize p.toList = cs at habs hw
  unfold isAbs at habs
  split at habs
  · simp at hw
  · left
    rfl
  · right
    simp only [Bool.and_eq_true] at habs
    exact habs.1
  · cases habs

theorem segments_of_pathCovered (h : pathCovered grantPath recursive target = true) :
    ∃ s, segments grantPath = some s := by
  simp only [pathCovered] at h
  split at h
  · rename_i g t hg ht
    exact ⟨g, hg⟩
  · cases h

/-- A covering grant in the target's spelling reaches every system tree but
those of `NESTED_SYSTEM` that it covers as single entries. -/
theorem reaches_of_covered (foldForDeny : List Char → List Char)
    (grantPath target : String) (recursive windows : Bool) (homes : List String)
    (hw : windows = !isPosix grantPath)
    (hunc : isUnc target = true → isUnc grantPath = true)
    (hnested : recursive = true ∨ ∀ f ∈ NESTED_SYSTEM,
      foldSegments foldForDeny target windows ≠ foldSegments foldForDeny f windows)
    (hc : pathCovered grantPath recursive target = true)
    (hs : isSystemTreePath foldForDeny target windows homes = true) :
    grantReachesSystemTree foldForDeny grantPath recursive windows homes = true := by
  obtain ⟨s, hseg⟩ := segments_of_pathCovered hc
  obtain ⟨-, hne, hpre, hlen⟩ := pathCovered_ok hc
  have hposix : isPosix grantPath = !windows := by simp [hw]
  rw [hposix] at hne hpre hlen
  -- what the exact comparison says survives the folding
  have hfold : foldSegments foldForDeny grantPath windows <+:
      foldSegments foldForDeny target windows := hpre.map foldForDeny
  have hpos : 0 < (foldSegments foldForDeny grantPath windows).length := by
    rw [length_foldSegments]
    exact length_pos_of_ne_nil hne
  have hle := hfold.length_le
  have hstep : recursive = true ∨ (foldSegments foldForDeny target windows).length =
      (foldSegments foldForDeny grantPath windows).length + 1 := by
    rwa [length_foldSegments, length_foldSegments]
  have hsingle : windows = true → (foldSegments foldForDeny grantPath windows).length ≤ 1 →
      grantReachesSystemTree foldForDeny grantPath recursive windows homes = true := by
    rintro rfl hl
    exact reaches_of_single (volume_of_segments hseg (by simpa using hposix)) hl
  rcases isSystemTreePath_iff.mp hs with h0 | ⟨hwin, hvol⟩ | hhome | ⟨f, hf, hft⟩ | ⟨f, hf, hft⟩
  · rw [h0, length_nil] at hle
    omega
  · rcases hvol with ⟨htu, htl⟩ | ⟨-, -, htl⟩
    · refine grantReachesSystemTree_iff.mpr
        (Or.inl (isSystemTreePath_iff.mpr (Or.inr (Or.inl ⟨hwin, Or.inl ⟨hunc htu, ?_⟩⟩))))
      omega
    · exact hsingle hwin (by omega)
  · exact grantReachesSystemTree_iff.mpr (Or.inr (Or.inl ⟨_, hhome, hfold⟩))
  · rcases hstep with hrec | hone
    · refine grantReachesSystemTree_iff.mpr (Or.inr (Or.inr ⟨hrec, f, ?_, hft ▸ hfold⟩))
      exact mem_append_left _ hf
    · rw [← hft, length_foldSegments] at hone
      cases windows with
      | false =>
        have := length_homesParent_posix f hf
        simp only [Bool.not_false] at hone
        omega
      | true =>
        have := length_listed_windows f (mem_append_left _ hf)
        simp only [Bool.not_true] at hone
        exact hsingle rfl (by omega)
  · -- the listed tree ends inside the grant's own path, or below it
    by_cases hin : foldSegments foldForDeny f windows <+: foldSegments foldForDeny grantPath windows
    · exact grantReachesSystemTree_iff.mpr (Or.inl (isSystemTreePath_iff.mpr
        (Or.inr (Or.inr (Or.inr (Or.inr ⟨f, hf, hin⟩))))))
    have hbelow : foldSegments foldForDeny grantPath windows <+:
        foldSegments foldForDeny f windows :=
      (List.prefix_or_prefix_of_prefix hft hfold).resolve_left hin
    have hlt : (foldSegments foldForDeny grantPath windows).length <
        (foldSegments foldForDeny f windows).length := by
      refine hbelow.length_le.lt_of_ne (fun he => hin ?_)
      rw [hbelow.eq_of_length he]
    by_cases hrec : recursive = true
    · refine grantReachesSystemTree_iff.mpr (Or.inr (Or.inr ⟨hrec, f, ?_, hbelow⟩))
      exact mem_append_right _ hf
    -- one level down there is only the tree itself
    have hone := hstep.resolve_left hrec
    have htop : foldSegments foldForDeny target windows = foldSegments foldForDeny f windows := by
      refine (hft.eq_of_length ?_).symm
      have := hft.length_le
      omega
    rw [htop, length_foldSegments] at hone
    cases windows with
    | false =>
      rcases length_systemTrees_posix f hf with hnest | hl
      · exact absurd htop (hnested.resolve_left hrec f hnest)
      · simp only [Bool.not_false] at hone
        omega
    | true =>
      have := length_listed_windows f (mem_append_right _ hf)
      simp only [Bool.not_true] at hone
      exact hsingle rfl (by omega)

end Plur1bus.Policy

namespace Plur1bus.Grants

open Policy Approvals

theorem scopeRank_maxScopeFor_tree (d : CapabilityDef) :
    scopeRank (maxScopeFor d { outsideRoots := true, denyListHit := false, systemTree := true }) ≤
      scopeRank .task := by
  have hcap : ∀ s : GrantScope, scopeRank (capScope s .task) ≤ scopeRank .task := by
    intro s
    cases s <;> decide
  exact hcap _

/-- A path grant that passed the store's check and reaches a system tree came
from the highest surface and lasts no longer than its task. -/
theorem bounded_of_reaches {env : Env} {d : CapabilityDef} {i : CreateGrantInput} {path : String}
    {recursive : Bool} (h : checkPath env d i path recursive = .ok ())
    (hr : env.reachesSystemTree path recursive = true) :
    scopeRank i.scope ≤ scopeRank .task ∧ i.surface = 3 := by
  simp only [checkPath, hr, if_true] at h
  split at h
  · cases h
  · split at h
    · cases h
    · cases h
    · split at h
      · cases h
      · split at h
        · cases h
        · rename_i hscope
          split at h
          · cases h
          · rename_i hsurface
            have hthree : requiredSurface d i.scope
                { outsideRoots := true, denyListHit := false, systemTree := true } = 3 := by
              simp only [requiredSurface, Bool.or_true, if_true]
            rw [hthree] at hsurface
            refine ⟨(not_lt.mp hscope).trans (scopeRank_maxScopeFor_tree d), ?_⟩
            exact le_antisymm (Fin.le_last i.surface) (not_lt.mp hsurface)

/-- Paths are read in the grant's spelling, and a share is never covered by a
drive's grant (`\\C:\x` by `C:\x`, which no file system hands out). Every grant
that covers a system tree then reaches one, and the store lets it through only
from the highest surface and for one task at most. The exception is a grant on
`/private` or `/private/var` that is not recursive: it covers the trees right
below it and counts as an ordinary one. -/
theorem covered_system_tree_reached (foldForDeny : List Char → List Char)
    (grantPath target : String) (recursive windows : Bool) (homes : List String)
    (hw : windows = !isPosix grantPath)
    (hunc : isUnc target = true → isUnc grantPath = true)
    (hnested : recursive = true ∨ ∀ f ∈ NESTED_SYSTEM,
      foldSegments foldForDeny target windows ≠ foldSegments foldForDeny f windows)
    (hc : pathCovered grantPath recursive target = true)
    (hs : isSystemTreePath foldForDeny target windows homes = true) :
    grantReachesSystemTree foldForDeny grantPath recursive windows homes = true ∧
    ∀ (env : Env) (d : CapabilityDef) (i : CreateGrantInput),
      env.reachesSystemTree = (fun p r => grantReachesSystemTree foldForDeny p r windows homes) →
      checkPath env d i grantPath recursive = .ok () →
      scopeRank i.scope ≤ scopeRank .task ∧ i.surface = 3 := by
  have hr := reaches_of_covered foldForDeny grantPath target recursive windows homes hw hunc
    hnested hc hs
  refine ⟨hr, ?_⟩
  intro env d i henv hok
  exact bounded_of_reaches hok (by rewrite [henv]; exact hr)

/-- A deep grant on a Windows drive covers the program files below it only by
holding them, so it is reached. -/
theorem covered_system_tree_reached_drive : pathCovered "C:\\" true "C:\\Windows\\System32" = true ∧
    grantReachesSystemTree (·.map Char.toLower) "C:\\" true true ["C:\\Users\\u"] = true :=
  ⟨by decide, (covered_system_tree_reached (·.map Char.toLower) "C:\\"
    "C:\\Windows\\System32" true true ["C:\\Users\\u"] (by decide)
    (by decide) (by decide) (by decide) (by decide)).1⟩

/-- The grant on `/private` that is not recursive covers `/private/etc`. -/
theorem private_covers_unreached :
    isPosix "/private" = true ∧ pathCovered "/private" false "/private/etc" = true ∧
    isSystemTreePath (·.map Char.toLower) "/private/etc" false ["/Users/u"] = true ∧
    grantReachesSystemTree (·.map Char.toLower) "/private" false false ["/Users/u"] = false := by
  decide

end Plur1bus.Grants
