import Plur1bus.Recall.Dedupe
import Mathlib.Data.List.InsertIdx
import Mathlib.Data.List.Nodup
import Mathlib.Data.List.Induction

/-!
What the dedupe keeps at every step: no whole beside a part of its turn, the
counters of the kept rows, and for every row that is gone a reason at the time
it went. The step is stated once, in three cases, and the run is its fold.
-/

namespace Plur1bus.Recall

open List

variable {ρ S : Type} {view : ρ → RecallCandidate} [LE S]
  {jaccardSimilarity : String → String → S} {threshold : S}

/-! ### One step -/

section Step

variable (view jaccardSimilarity threshold)

/-- One round of the loop. -/
def dedupStep [DecidableLE S] (st : Kept ρ) (row : ρ) : Kept ρ :=
  if st.out.any (fun kept => isWholeOf (view kept) (view row)) then st
  else match replaceParts view st row with
    | some st => st
    | none =>
        if groupFull st.groups (view row) then st
        else afterRow view jaccardSimilarity threshold st row

/-- Why a row is passed over. -/
inductive Passed (st : Kept ρ) (row : ρ) : Prop
  | part (kept : ρ) : kept ∈ st.out → isWholeOf (view kept) (view row) = true → Passed st row
  | full : groupFull st.groups (view row) = true → Passed st row
  | alike (kept : ρ) : kept ∈ st.out →
      threshold ≤ jaccardSimilarity (dedupeText (view row)) (dedupeText (view kept)) →
      hasDisjointValidityWindows (view row) (view kept) = false → Passed st row

/-- All that a round can do. -/
inductive Round (st : Kept ρ) (row : ρ) : Kept ρ → Prop
  | passed : Passed view jaccardSimilarity threshold st row → Round st row st
  | whole (out : List ρ) : (∃ part ∈ st.out, isWholeOf (view row) (view part) = true) →
      out.Perm (row :: st.out.filter (fun kept => !isWholeOf (view row) (view kept))) →
      Round st row ⟨out, adjustGroup ((st.out.filter fun kept => isWholeOf (view row) (view kept)).foldl
        (fun groups part => adjustGroup groups (view part) (-1)) st.groups) (view row) 1⟩
  | kept : (∀ kept ∈ st.out, isWholeOf (view kept) (view row) = false) →
      (∀ kept ∈ st.out, isWholeOf (view row) (view kept) = false) →
      groupFull st.groups (view row) = false →
      Round st row ⟨st.out ++ [row], adjustGroup st.groups (view row) 1⟩

end Step

theorem replaceParts_none (h : replaceParts view st row = none) :
    ∀ kept ∈ st.out, isWholeOf (view row) (view kept) = false := by
  rw [replaceParts] at h
  split at h
  · rename_i hparts
    intro kept hkept
    exact Bool.eq_false_iff.mpr (filter_eq_nil_iff.mp (List.isEmpty_iff.mp hparts) kept hkept)
  · cases h

theorem replaceParts_some (h : replaceParts view st row = some st') :
    Round view jaccardSimilarity threshold st row st' := by
  rw [replaceParts] at h
  split at h
  · cases h
  · rename_i hparts
    cases h
    refine .whole _ ?_ (perm_insertIdx _ _ (Nat.min_le_right _ _))
    obtain ⟨part, hpart⟩ := exists_mem_of_ne_nil _ (fun h => hparts (List.isEmpty_iff.mpr h))
    exact ⟨part, mem_filter.mp hpart⟩

variable (view jaccardSimilarity threshold) in
theorem round_step [DecidableLE S] (st : Kept ρ) (row : ρ) : Round view jaccardSimilarity threshold st row
      (dedupStep view jaccardSimilarity threshold st row) := by
  rw [dedupStep]
  split
  · rename_i hpart
    obtain ⟨kept, hkept, hwhole⟩ := List.any_eq_true.mp hpart
    exact .passed (.part kept hkept hwhole)
  · rename_i hpart
    split
    · rename_i st' hreplace
      exact replaceParts_some hreplace
    · rename_i hreplace
      split
      · rename_i hfull
        exact .passed (.full hfull)
      · rename_i hfull
        rw [afterRow]
        split
        · rename_i hnear
          obtain ⟨kept, hkept, halike⟩ := List.any_eq_true.mp hnear
          rw [Bool.and_eq_true, decide_eq_true_eq, Bool.not_eq_true'] at halike
          exact .passed (.alike kept hkept halike.1 halike.2)
        · refine .kept (fun kept hkept => ?_) (replaceParts_none hreplace)
            (Bool.eq_false_iff.mpr hfull)
          exact Bool.eq_false_iff.mpr (fun h => hpart (List.any_eq_true.mpr ⟨kept, hkept, h⟩))

variable {st st' : Kept ρ} {row : ρ}

/-- A round adds its own row at most, and leaves out parts of that row only. -/
theorem Round.mem (h : Round view jaccardSimilarity threshold st row st') {r : ρ}
    (hr : r ∈ st'.out) : r = row ∨ r ∈ st.out := by
  cases h with
  | passed => exact Or.inr hr
  | whole out _ hperm => exact (mem_cons.mp (hperm.mem_iff.mp hr)).imp id mem_of_mem_filter
  | kept => exact (mem_append.mp hr).symm.imp mem_singleton.mp id

theorem Round.gone (h : Round view jaccardSimilarity threshold st row st') {r : ρ}
    (hr : r ∈ st.out) (hgone : r ∉ st'.out) :
    isWholeOf (view row) (view r) = true ∧ row ∈ st'.out := by
  cases h with
  | passed => exact absurd hr hgone
  | whole out _ hperm => grind
  | kept => exact absurd (mem_append_left _ hr) hgone

/-- The row of a round is kept, or passed over for a reason. -/
theorem Round.new (h : Round view jaccardSimilarity threshold st row st') :
    row ∈ st'.out ∨ Passed view jaccardSimilarity threshold st row := by
  cases h with
  | passed hpassed => exact Or.inr hpassed
  | whole out _ hperm => exact Or.inl (hperm.mem_iff.mpr mem_cons_self)
  | kept => exact Or.inl (mem_append_right _ (mem_singleton_self _))

theorem Round.nodup (h : Round view jaccardSimilarity threshold st row st') (hn : st.out.Nodup)
    (hnew : row ∉ st.out) : st'.out.Nodup := by
  cases h with
  | passed => exact hn
  | whole out _ hperm => grind
  | kept => exact nodup_append.mpr ⟨hn, nodup_singleton _,
      fun a ha b hb => (fun heq => hnew (mem_singleton.mp hb ▸ heq ▸ ha))⟩

/-- Taking the place of parts makes the list no longer. -/
theorem replaceParts_length (h : replaceParts view st row = some st') : st'.out.length ≤ st.out.length := by
  rw [replaceParts] at h
  split at h
  · cases h
  · rename_i hparts
    cases h
    dsimp only
    rw [length_insertIdx_of_le_length (Nat.min_le_right _ _)]
    have hall := length_eq_length_filter_add (l := st.out)
      (fun kept => isWholeOf (view row) (view kept))
    have hpos := length_pos_of_ne_nil (fun h => hparts (List.isEmpty_iff.mpr h))
    omega

theorem Round.length_le
    (h : Round view jaccardSimilarity threshold st row st') :
    st'.out.length ≤ st.out.length + 1 := by
  cases h with
  | passed => exact Nat.le_succ _
  | whole out _ hperm =>
    dsimp only
    rw [hperm.length_eq, length_cons]
    exact Nat.succ_le_succ (length_filter_le _ _)
  | kept =>
    dsimp only
    rw [length_append, length_singleton]

/-! ### Wholes, parts and keys -/

/-- A whole of some part has no chunk group, and its key is its turn or none. -/
theorem whole_key {whole part : RecallCandidate} (h : isWholeOf whole part = true) :
    isChunkPart whole = false ∧ isChunkPart part = true ∧ turnOf whole = turnOf part ∧
      ∀ key, chunkGroupKey whole = some key → turnOf whole = some key := by
  grind [isWholeOf, chunkGroupKey, isChunkPart, turnOf]

variable {key : String}

/-- A row with a key has it from its chunk group or is a whole of that turn. -/
theorem chunkGroupKey_cases {row : RecallCandidate} (h : chunkGroupKey row = some key) :
    key ≠ "" ∧ (strTrim row.chunkGroupId = key ∨ (row.chunkGroupId = "" ∧ turnOf row = some key)) := by
  grind [strTrim, chunkGroupKey, turnOf]

/-! ### The counters -/

/-- How many of the rows have the key. -/
def countKey (view : ρ → RecallCandidate) (key : String) (out : List ρ) : ℕ :=
  out.countP (fun r => decide (chunkGroupKey (view r) = some key))

theorem countKey_cons (key : String) (r : ρ) (out : List ρ) : countKey view key (r :: out) =
      countKey view key out + if chunkGroupKey (view r) = some key then 1 else 0 := by
  rw [countKey, countP_cons, countKey]
  simp only [decide_eq_true_eq]

theorem adjustGroup_apply (groups : Groups) (row : RecallCandidate) (delta : ℤ) (key : String) :
    adjustGroup groups row delta key = groups key + if chunkGroupKey row = some key then delta else 0 := by
  rw [adjustGroup]
  cases hrow : chunkGroupKey row with
  | none => simp
  | some k => grind

theorem adjustGroups_apply (parts : List ρ) (groups : Groups) (key : String) :
    parts.foldl (fun groups part => adjustGroup groups (view part) (-1)) groups key =
      groups key - countKey view key parts := by
  induction parts generalizing groups with
  | nil => simp [countKey]
  | cons part parts ih =>
    rw [foldl_cons, ih, adjustGroup_apply, countKey_cons]
    split <;> push_cast <;> omega

/-- The rows of a key are among the parts or among the others. -/
theorem countKey_filter (view : ρ → RecallCandidate) (key : String) (p : ρ → Bool) (out : List ρ) :
    countKey view key out =
      countKey view key (out.filter p) + countKey view key (out.filter (fun r => !p r)) := by
  induction out with
  | nil => rfl
  | cons r out ih =>
    cases hp : p r with
    | true =>
      rw [filter_cons_of_pos hp, filter_cons_of_neg (by simp [hp]), countKey_cons, countKey_cons, ih]
      omega
    | false =>
      rw [filter_cons_of_neg (by simp [hp]), filter_cons_of_pos (by simp [hp]),
        countKey_cons, countKey_cons, ih]
      omega

/-- The counters are the numbers of kept rows. -/
def Counted (view : ρ → RecallCandidate) (st : Kept ρ) : Prop :=
  ∀ key, st.groups key = countKey view key st.out

theorem Round.counted (h : Round view jaccardSimilarity threshold st row st')
    (hc : Counted view st) : Counted view st' := by
  intro key
  cases h with
  | passed => exact hc key
  | whole out _ hperm =>
    have hcount : countKey view key out = countKey view key
        (row :: st.out.filter (fun kept => !isWholeOf (view row) (view kept))) := hperm.countP_eq _
    have hsplit := countKey_filter view key
      (fun kept => isWholeOf (view row) (view kept)) st.out
    dsimp only
    rw [hcount, countKey_cons, adjustGroup_apply, adjustGroups_apply, hc key]
    split <;> push_cast <;> omega
  | kept =>
    dsimp only
    rw [countKey, countP_append, ← countKey, ← countKey, countKey_cons, adjustGroup_apply, hc key]
    split <;> simp [countKey]

/-- No kept whole has the turn of a kept part. -/
def Apart (view : ρ → RecallCandidate) (st : Kept ρ) : Prop :=
  ∀ whole ∈ st.out, ∀ part ∈ st.out, isWholeOf (view whole) (view part) = false

theorem not_isWholeOf_self (row : RecallCandidate) : isWholeOf row row = false := by
  rw [isWholeOf]
  cases isChunkPart row <;> rfl

theorem Round.apart (h : Round view jaccardSimilarity threshold st row st')
    (ha : Apart view st) : Apart view st' := by
  intro w hw p hp
  cases h with
  | passed => exact ha w hw p hp
  | whole out hpart hperm =>
    obtain ⟨part, -, hwhole⟩ := hpart
    have hnot : ∀ other, isWholeOf (view other) (view row) = false := by
      intro other
      rw [isWholeOf, (whole_key hwhole).1, Bool.and_false, Bool.false_and]
    rcases mem_cons.mp (hperm.mem_iff.mp hp) with rfl | hp
    · exact hnot w
    · obtain ⟨hp, hrest⟩ := mem_filter.mp hp
      rcases mem_cons.mp (hperm.mem_iff.mp hw) with rfl | hw
      · exact (Bool.not_eq_true' _).mp hrest
      · exact ha w (mem_of_mem_filter hw) p hp
  | kept hwholes hparts =>
    rcases mem_append.mp hw with hw | hw
    · rcases mem_append.mp hp with hp | hp
      · exact ha w hw p hp
      · rw [mem_singleton.mp hp]
        exact hwholes w hw
    · rw [mem_singleton.mp hw]
      rcases mem_append.mp hp with hp | hp
      · exact hparts p hp
      · rw [mem_singleton.mp hp]
        exact not_isWholeOf_self _

theorem strTrim_empty : strTrim "" = "" := rfl

/-- When a whole takes the place of parts, no kept row is a whole of its turn. -/
theorem Apart.no_whole (ha : Apart view st) {part : ρ} (hpart : part ∈ st.out)
    (hwhole : isWholeOf (view row) (view part) = true) (hkey : chunkGroupKey (view row) = some key) :
    ∀ r ∈ st.out, (view r).chunkGroupId = "" → turnOf (view r) = some key → False := by
  intro r hr hchunk hturn
  obtain ⟨-, hispart, hsame, hrow⟩ := whole_key hwhole
  have hr' := ha r hr part hpart
  rw [isWholeOf, hispart, isChunkPart, hchunk, strTrim_empty, hturn, ← hsame, hrow key hkey] at hr'
  simp at hr'

/-- With chunk groups that are no other row's turn, a key is counted twice at
most. -/
theorem Round.two (h : Round view jaccardSimilarity threshold st row st') (ha : Apart view st)
    (hc : Counted view st) (hids : ∀ r ∈ st.out, some (strTrim (view r).chunkGroupId) ≠ turnOf (view row))
    (htwo : ∀ key, countKey view key st.out ≤ 2) (key : String) : countKey view key st'.out ≤ 2 := by
  cases h with
  | passed => exact htwo key
  | whole out hpart hperm =>
    obtain ⟨part, hpart, hwhole⟩ := hpart
    have hcount : countKey view key out = countKey view key
        (row :: st.out.filter (fun kept => !isWholeOf (view row) (view kept))) := hperm.countP_eq _
    have hrest := countKey_filter view key
      (fun kept => isWholeOf (view row) (view kept)) st.out
    dsimp only
    rw [hcount, countKey_cons]
    by_cases hkey : chunkGroupKey (view row) = some key
    · have hzero : countKey view key st.out = 0 := by
        rw [countKey, countP_eq_zero]
        intro r hr hr'
        obtain ⟨-, hchunk | ⟨hchunk, hturn⟩⟩ := chunkGroupKey_cases (of_decide_eq_true hr')
        · refine hids r hr ?_
          rw [hchunk, (whole_key hwhole).2.2.2 key hkey]
        · exact ha.no_whole hpart hwhole hkey r hr hchunk hturn
      rw [if_pos hkey]
      omega
    · rw [if_neg hkey]
      have := htwo key
      omega
  | kept _ _ hfull =>
    dsimp only
    rw [countKey, countP_append, ← countKey, ← countKey, countKey_cons]
    have hold := htwo key
    split
    · rename_i hkey
      rw [groupFull, hkey, Option.any_some, decide_eq_false_iff_not, MAX_PER_GROUP, hc key] at hfull
      simp only [countKey, countP_nil] at hfull ⊢
      omega
    · simpa [countKey] using hold

/-- In any case a key is counted three times at most, and then one of the rows
is a whole with the key as its turn; so a counter of 32 bits is enough. -/
def Three (view : ρ → RecallCandidate) (st : Kept ρ) : Prop :=
  ∀ key, countKey view key st.out ≤ 3 ∧ (countKey view key st.out = 3 →
    ∃ r ∈ st.out, (view r).chunkGroupId = "" ∧ turnOf (view r) = some key)

theorem Round.three (h : Round view jaccardSimilarity threshold st row st') (ha : Apart view st)
    (hc : Counted view st) (hthree : Three view st) : Three view st' := by
  intro key
  obtain ⟨hle, hwitness⟩ := hthree key
  cases h with
  | passed => exact ⟨hle, hwitness⟩
  | whole out hpart hperm =>
    obtain ⟨part, hpart, hwhole⟩ := hpart
    have hcount : countKey view key out = countKey view key
        (row :: st.out.filter (fun kept => !isWholeOf (view row) (view kept))) := hperm.countP_eq _
    have hrest := countKey_filter view key
      (fun kept => isWholeOf (view row) (view kept)) st.out
    dsimp only
    rw [hcount, countKey_cons]
    by_cases hkey : chunkGroupKey (view row) = some key
    · have hno := ha.no_whole hpart hwhole hkey
      have htwo : countKey view key st.out ≤ 2 := by grind
      rw [if_pos hkey]
      refine ⟨by omega, fun _ => ⟨row, hperm.mem_iff.mpr mem_cons_self, ?_⟩⟩
      obtain ⟨hnot, -, -, hturn⟩ := whole_key hwhole
      refine ⟨?_, hturn key hkey⟩
      -- a chunk group of its own would make the row a part
      obtain ⟨hne, hchunk | ⟨hchunk, -⟩⟩ := chunkGroupKey_cases hkey
      · rw [isChunkPart, hchunk, hturn key hkey] at hnot
        simp [hne] at hnot
      · exact hchunk
    · rw [if_neg hkey]
      refine ⟨by omega, fun h3 => ?_⟩
      obtain ⟨r, hr, hchunk, hturn⟩ := hwitness (by omega)
      refine ⟨r, hperm.mem_iff.mpr (mem_cons_of_mem _ (mem_filter.mpr ⟨hr, ?_⟩)), hchunk, hturn⟩
      rw [isWholeOf, isChunkPart, isChunkPart, hchunk, strTrim_empty]
      simp
  | kept _ _ hfull =>
    dsimp only
    rw [countKey, countP_append, ← countKey, ← countKey, countKey_cons]
    split
    · rename_i hkey
      rw [groupFull, hkey, Option.any_some, decide_eq_false_iff_not, MAX_PER_GROUP, hc key] at hfull
      simp only [countKey, countP_nil] at hfull ⊢
      refine ⟨by omega, fun h3 => (by omega)⟩
    · have hnil : countKey view key ([] : List ρ) = 0 := rfl
      rw [hnil, Nat.add_zero]
      refine ⟨hle, fun h3 => ?_⟩
      obtain ⟨r, hr, hrow⟩ := hwitness h3
      exact ⟨r, mem_append_left _ hr, hrow⟩


/-! ### The run -/

section Run

variable [DecidableLE S]

variable (view jaccardSimilarity threshold) in
/-- A round that comes when there are enough rows does nothing. -/
def dedupTurn (maxOut : ℕ) (st : Kept ρ) (row : ρ) : Kept ρ :=
  if maxOut ≤ st.out.length then st else dedupStep view jaccardSimilarity threshold st row

variable {maxOut : ℕ}

theorem foldl_turn_of_full (h : maxOut ≤ st.out.length) (rows : List ρ) :
    rows.foldl (dedupTurn view jaccardSimilarity threshold maxOut) st = st := by
  induction rows with
  | nil => rfl
  | cons row rows ih => rw [foldl_cons, dedupTurn, if_pos h, ih]

/-- The loop that breaks off is the fold. -/
theorem dedupLoop_eq (rows : List ρ) (h : st.out.length < maxOut) :
    dedupLoop view jaccardSimilarity threshold maxOut rows st =
      rows.foldl (dedupTurn view jaccardSimilarity threshold maxOut) st := by
  induction rows generalizing st with
  | nil => rfl
  | cons row rows ih =>
    rw [dedupLoop, foldl_cons, dedupTurn, if_neg (Nat.not_le_of_lt h), dedupStep]
    split
    · exact ih h
    · cases hreplace : replaceParts view st row with
      | some st' => exact ih (Nat.lt_of_le_of_lt (replaceParts_length hreplace) h)
      | none =>
        dsimp only
        split
        · exact ih h
        · split
          · rename_i hfull
            exact (foldl_turn_of_full hfull rows).symm
          · rename_i hroom
            exact ih (Nat.lt_of_not_le hroom)

theorem dedupRun_eq (maxOut : ℕ) (rows : List ρ) : dedupRun view jaccardSimilarity threshold maxOut rows =
      rows.foldl (dedupTurn view jaccardSimilarity threshold maxOut) .empty := by
  rw [dedupRun]
  split
  · rename_i h0
    exact (foldl_turn_of_full (Nat.le_of_eq h0) rows).symm
  · rename_i h0
    exact dedupLoop_eq rows (Nat.pos_of_ne_zero h0)

variable (view jaccardSimilarity threshold) in
theorem dedupRun_snoc (maxOut : ℕ) (rows : List ρ) (row : ρ) :
    dedupRun view jaccardSimilarity threshold maxOut (rows ++ [row]) =
      dedupTurn view jaccardSimilarity threshold maxOut
        (dedupRun view jaccardSimilarity threshold maxOut rows) row := by
  rw [dedupRun_eq, foldl_append, ← dedupRun_eq]
  rfl

variable (view jaccardSimilarity threshold) in
theorem dedupRun_length_le (maxOut : ℕ) (rows : List ρ) :
    (dedupRun view jaccardSimilarity threshold maxOut rows).out.length ≤ maxOut := by
  induction rows using List.reverseRecOn with
  | nil =>
    rw [dedupRun_eq]
    exact Nat.zero_le _
  | append_singleton rows row ih =>
    rw [dedupRun_snoc, dedupTurn]
    split
    · exact ih
    · rename_i hroom
      have := (round_step view jaccardSimilarity threshold
        (dedupRun view jaccardSimilarity threshold maxOut rows) row).length_le
      omega

/-- What holds whenever some rows have been seen. -/
structure Seen (view : ρ → RecallCandidate) (rows : List ρ) (st : Kept ρ) : Prop where
  nodup : st.out.Nodup
  mem : ∀ r ∈ st.out, r ∈ rows
  counted : Counted view st
  apart : Apart view st
  three : Three view st

variable (view jaccardSimilarity threshold) in
theorem seen_dedupRun (maxOut : ℕ) {rows : List ρ} (hn : rows.Nodup) :
    Seen view rows (dedupRun view jaccardSimilarity threshold maxOut rows) := by
  induction rows using List.reverseRecOn with
  | nil =>
    rw [dedupRun_eq]
    exact ⟨.nil, fun _ h => h, fun _ => rfl, fun _ h => (by cases h),
      fun _ => ⟨Nat.zero_le _, fun h => (by cases h)⟩⟩
  | append_singleton rows row ih =>
    obtain ⟨hrows, -, hnew⟩ := nodup_append.mp hn
    have h := ih hrows
    have hstill : ∀ r ∈ (dedupRun view jaccardSimilarity threshold maxOut rows).out,
        r ∈ rows ++ [row] := fun r hr => mem_append_left _ (h.mem r hr)
    rw [dedupRun_snoc, dedupTurn]
    split
    · exact ⟨h.nodup, hstill, h.counted, h.apart, h.three⟩
    · rename_i hroom
      have hround := round_step view jaccardSimilarity threshold (dedupRun view jaccardSimilarity threshold maxOut rows) row
      have hfresh : row ∉ (dedupRun view jaccardSimilarity threshold maxOut rows).out :=
        fun hmem => hnew row (h.mem row hmem) row (mem_singleton_self _) rfl
      refine ⟨hround.nodup h.nodup hfresh, fun r hr => ?_, hround.counted h.counted,
        hround.apart h.apart, hround.three h.apart h.counted h.three⟩
      rcases hround.mem hr with rfl | hr
      · exact mem_append_right _ (mem_singleton_self _)
      · exact hstill r hr

/-- With chunk groups that are no other row's turn, no key is counted more than
twice. -/
theorem two_dedupRun (maxOut : ℕ) {rows : List ρ} (hn : rows.Nodup)
    (hids : rows.Pairwise (fun a b => some (strTrim (view a).chunkGroupId) ≠ turnOf (view b) ∧
      some (strTrim (view b).chunkGroupId) ≠ turnOf (view a))) (key : String) :
    countKey view key (dedupRun view jaccardSimilarity threshold maxOut rows).out ≤ 2 := by
  induction rows using List.reverseRecOn generalizing key with
  | nil =>
    rw [dedupRun_eq]
    exact Nat.zero_le _
  | append_singleton rows row ih =>
    obtain ⟨hrows, -, -⟩ := nodup_append.mp hn
    obtain ⟨hold, -, hnew⟩ := pairwise_append.mp hids
    have h := seen_dedupRun view jaccardSimilarity threshold maxOut hrows
    rw [dedupRun_snoc, dedupTurn]
    split
    · exact ih hrows hold key
    · refine (round_step view jaccardSimilarity threshold _ row).two h.apart h.counted (fun r hr => ?_) (ih hrows hold) key
      exact (hnew r (h.mem r hr) row (mem_singleton_self _)).1

end Run


/-! ### Rows that are gone -/

section Gone

variable [DecidableLE S] (view jaccardSimilarity threshold)

/-- Why the row at a place is not there: it was passed over when it came, it
came when there were enough, or its whole took its place. -/
inductive Dropped (maxOut : ℕ) (rows : List ρ) (i : ℕ) (row : ρ) : Prop
  | passed : Passed view jaccardSimilarity threshold
      (dedupRun view jaccardSimilarity threshold maxOut (rows.take i)) row → Dropped maxOut rows i row
  | enough : maxOut ≤ (dedupRun view jaccardSimilarity threshold maxOut (rows.take i)).out.length →
      Dropped maxOut rows i row
  | replaced (n : ℕ) (whole : ρ) : i < n → rows[n]? = some whole →
      isWholeOf (view whole) (view row) = true →
      row ∈ (dedupRun view jaccardSimilarity threshold maxOut (rows.take n)).out →
      row ∉ (dedupRun view jaccardSimilarity threshold maxOut (rows.take (n + 1))).out →
      whole ∈ (dedupRun view jaccardSimilarity threshold maxOut (rows.take (n + 1))).out →
      Dropped maxOut rows i row

variable {view jaccardSimilarity threshold}

theorem dropped_of_not_mem {maxOut : ℕ} {rows : List ρ} (n : ℕ) (hn : n ≤ rows.length) {i : ℕ}
    {row : ρ} (hi : i < n) (hrow : rows[i]? = some row)
    (hgone : row ∉ (dedupRun view jaccardSimilarity threshold maxOut (rows.take n)).out) :
    Dropped view jaccardSimilarity threshold maxOut rows i row := by
  induction n with
  | zero => exact absurd hi (Nat.not_lt_zero i)
  | succ n ih =>
    obtain ⟨next, hnext⟩ : ∃ next, rows[n]? = some next := ⟨rows[n], List.getElem?_eq_getElem hn⟩
    have htake : rows.take (n + 1) = rows.take n ++ [next] := by
      rw [take_add_one, hnext]
      rfl
    have hturn := dedupRun_snoc view jaccardSimilarity threshold maxOut (rows.take n) next
    rw [← htake, dedupTurn] at hturn
    rcases Nat.lt_or_eq_of_le (Nat.le_of_lt_succ hi) with hlt | rfl
    · by_cases hthere : row ∈ (dedupRun view jaccardSimilarity threshold maxOut (rows.take n)).out
      · split at hturn
        · rw [hturn] at hgone
          exact absurd hthere hgone
        · have hround := round_step view jaccardSimilarity threshold (dedupRun view jaccardSimilarity threshold maxOut (rows.take n)) next
          rw [← hturn] at hround
          obtain ⟨hwhole, hin⟩ := hround.gone hthere hgone
          exact .replaced n next hlt hnext hwhole hthere hgone hin
      · exact ih (Nat.le_of_succ_le hn) hlt hthere
    · cases hrow.symm.trans hnext
      split at hturn
      · rename_i hfull
        exact .enough hfull
      · have hround := round_step view jaccardSimilarity threshold (dedupRun view jaccardSimilarity threshold maxOut (rows.take i)) row
        rw [← hturn] at hround
        rcases hround.new with hin | hpassed
        · exact absurd hin hgone
        · exact .passed hpassed

/-! ### Places -/

/-- The rows seen through their candidates. -/
def Kept.map {ρ' : Type} (f : ρ → ρ') (st : Kept ρ) : Kept ρ' := ⟨st.out.map f, st.groups⟩

theorem replaceParts_map (st : Kept ρ) (row : ρ) :
    replaceParts id (st.map view) (view row) = (replaceParts view st row).map (Kept.map view) := by
  simp only [replaceParts, Kept.map, id, filter_map, isEmpty_map, foldl_map,
    findIdx_map, length_map, Function.comp_def, ← map_insertIdx]
  split <;> rfl

theorem afterRow_map (st : Kept ρ) (row : ρ) :
    afterRow id jaccardSimilarity threshold (st.map view) (view row) =
      (afterRow view jaccardSimilarity threshold st row).map view := by
  have hnear : nearDuplicate id jaccardSimilarity threshold (st.map view).out (view row) =
      nearDuplicate view jaccardSimilarity threshold st.out row := any_map
  rw [afterRow, afterRow, hnear]
  split
  · rfl
  · simp only [Kept.map, map_append, map_cons, map_nil, id]

theorem dedupStep_map (st : Kept ρ) (row : ρ) :
    dedupStep id jaccardSimilarity threshold (st.map view) (view row) =
      (dedupStep view jaccardSimilarity threshold st row).map view := by
  have hany : (st.map view).out.any (fun kept => isWholeOf (id kept) (id (view row))) =
      st.out.any (fun kept => isWholeOf (view kept) (view row)) := any_map
  rw [dedupStep, dedupStep, replaceParts_map, afterRow_map, hany]
  split
  · rfl
  · cases replaceParts view st row with
    | some st' => rfl
    | none =>
      dsimp only [Option.map_none]
      rw [apply_ite (Kept.map view)]
      rfl

theorem dedupRun_map (maxOut : ℕ) (rows : List ρ) :
    dedupRun id jaccardSimilarity threshold maxOut (rows.map view) =
      (dedupRun view jaccardSimilarity threshold maxOut rows).map view := by
  induction rows using List.reverseRecOn with
  | nil =>
    rw [dedupRun_eq, dedupRun_eq]
    rfl
  | append_singleton rows row ih =>
    rw [map_append, map_singleton, dedupRun_snoc, dedupRun_snoc, ih, dedupTurn, dedupTurn]
    have hlength : ((dedupRun view jaccardSimilarity threshold maxOut rows).map view).out.length =
        (dedupRun view jaccardSimilarity threshold maxOut rows).out.length := length_map _
    rw [hlength]
    split
    · rfl
    · exact dedupStep_map _ row

end Gone

/-- The result of the dedupe: the rows are told apart by their places in the
input, and `before n` is what was kept of the first `n` of them. Ids are
compared as the code reads them, trimmed. -/
theorem dedup_results_invariants {S : Type} [LE S] [DecidableLE S]
    (jaccardSimilarity : String → String → S) (threshold : S) (results : List RecallCandidate)
    (maxOut : ℕ) :
    let rows := results.zipIdx
    let before := fun n => dedupRun Prod.fst jaccardSimilarity threshold maxOut (rows.take n)
    let out := (dedupRun Prod.fst jaccardSimilarity threshold maxOut rows).out
    dedupResults jaccardSimilarity threshold results maxOut = out.map Prod.fst ∧
    out.length ≤ maxOut ∧ out.Nodup ∧ (∀ r ∈ out, results[r.2]? = some r.1) ∧
    (∀ n, ∀ whole ∈ (before n).out, ∀ part ∈ (before n).out, isWholeOf whole.1 part.1 = false) ∧
    (∀ n key, (before n).groups key =
      ((before n).out.countP (fun r => decide (chunkGroupKey r.1 = some key)) : ℕ)) ∧
    ((∀ (i j : ℕ) a b, results[i]? = some a → results[j]? = some b → i ≠ j →
        some (strTrim a.chunkGroupId) ≠ turnOf b) →
      ∀ n key, (before n).groups key ≤ 2) ∧
    ∀ (i : ℕ) row, results[i]? = some row → (row, i) ∉ out →
      Dropped Prod.fst jaccardSimilarity threshold maxOut rows i (row, i) := by
  intro rows before out
  have hnodup : rows.Nodup := by
    refine List.Nodup.of_map Prod.snd ?_
    rw [zipIdx_map_snd]
    exact nodup_range'
  have hrows : ∀ r ∈ rows, results[r.2]? = some r.1 := fun r hr => mem_zipIdx_iff_getElem?.mp hr
  have hseen : ∀ n, Seen Prod.fst (rows.take n) (before n) :=
    fun n => seen_dedupRun _ _ _ maxOut (hnodup.sublist (take_sublist n rows))
  have hall : Seen Prod.fst rows (dedupRun Prod.fst jaccardSimilarity threshold maxOut rows) :=
    seen_dedupRun _ _ _ maxOut hnodup
  refine ⟨?_, dedupRun_length_le _ _ _ maxOut rows, hall.nodup, fun r hr => hrows r (hall.mem r hr),
    fun n => (hseen n).apart, fun n => (hseen n).counted, fun hids n key => ?_, fun i row hi hgone => ?_⟩
  · have hmap : rows.map Prod.fst = results := zipIdx_map_fst _ _
    rw [dedupResults, ← hmap, dedupRun_map]
    rfl
  · rw [(hseen n).counted key]
    refine Int.ofNat_le.mpr (two_dedupRun maxOut (hnodup.sublist (take_sublist n rows)) ?_ key)
    refine (List.Pairwise.imp_of_mem ?_ (hnodup.sublist (take_sublist n rows)))
    intro a b ha hb hne
    have ha' := hrows a (mem_of_mem_take ha)
    have hb' := hrows b (mem_of_mem_take hb)
    have hplace : a.2 ≠ b.2 := fun h => hne (Prod.ext (Option.some.inj (ha'.symm.trans (h ▸ hb'))) h)
    exact ⟨hids a.2 b.2 a.1 b.1 ha' hb' hplace, hids b.2 a.2 b.1 a.1 hb' ha' hplace.symm⟩
  · have hlength : i < rows.length := by
      rw [length_zipIdx]
      exact (List.getElem?_eq_some_iff.mp hi).1
    refine dropped_of_not_mem rows.length (Nat.le_refl _) hlength ?_ ?_
    · rw [List.getElem?_zipIdx, hi, Nat.zero_add]
      rfl
    · rw [take_length]
      exact hgone


end Plur1bus.Recall
