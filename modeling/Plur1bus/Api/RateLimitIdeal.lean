import Plur1bus.Api.RateLimit

/-!
The limiter answers as the one that never drops a bucket. The map of the code is
the ideal one less some buckets that were full when they went and are full since;
such a key starts again with the bucket it would have found. A bucket that is not
full is never dropped, as long as there is room for all of these.
-/

namespace Plur1bus.Api.RateLimit

open Program.Keyed Program.TokenBucket List

variable {l : RateLimiter} {scale : Key → ℚ}

/-! ### Buckets and levels -/

/-- What flows in, by the millisecond. -/
def BucketSpec.rate (spec : BucketSpec) : ℚ := spec.refillPerSec / 1000

theorem gained (spec : BucketSpec) (b : Bucket) (now : ℚ) :
    b.tokens + max 0 (now - b.since) / 1000 * spec.refillPerSec =
      b.tokens + max 0 (now - b.since) * spec.rate := by
  rw [BucketSpec.rate]
  ring

theorem specAt_capacity (k : Key) : (specAt l scale k).capacity = (l.classes k.1).capacity * scale k := by
  unfold specAt specOf
  split_ifs with h
  · rw [h, mul_one]
  · rfl

theorem specAt_refill (k : Key) :
    (specAt l scale k).refillPerSec = (l.classes k.1).refillPerSec * scale k := by
  unfold specAt specOf
  split_ifs with h
  · rw [h, mul_one]
  · rfl

variable {k : Key}

theorem one_le_capacity (h : 1 ≤ scale k) : 1 ≤ (specAt l scale k).capacity := by
  rw [specAt_capacity]
  exact one_le_mul_of_one_le_of_one_le (l.capacity_ge k.1) h

theorem refill_pos (h : 1 ≤ scale k) : 0 < (specAt l scale k).refillPerSec := by
  rw [specAt_refill]
  exact mul_pos (l.refill_pos k.1) (by linarith)

theorem rate_nonneg (h : 1 ≤ scale k) : 0 ≤ (specAt l scale k).rate :=
  div_nonneg (le_of_lt (refill_pos h)) (by norm_num)

/-- A bucket of a key, as calls for that key leave it. -/
structure Held (spec : BucketSpec) (now : ℚ) (b : Bucket) : Prop where
  capacity : b.capacity = spec.capacity
  refill : b.refillPerSec = spec.refillPerSec
  nonneg : 0 ≤ b.tokens
  le : b.tokens ≤ spec.capacity
  since : b.since ≤ now

/-- What is found in the bucket at an instant. -/
def Bucket.levelOf (spec : BucketSpec) (b : Bucket) (now : ℚ) : ℚ :=
  level spec.capacity spec.rate b.tokens b.since now

variable {spec : BucketSpec} {t now : ℚ} {b : Bucket}

theorem Held.full_iff (h : Held spec t b) : b.full now ↔ b.levelOf spec now = spec.capacity := by
  rw [Bucket.full, h.capacity, h.refill, gained, Bucket.levelOf, level_eq_capacity]

theorem refill_some (h : Held spec t b) :
    refill spec now (some b) = ⟨b.levelOf spec now, now, spec.capacity, spec.refillPerSec⟩ := by
  rw [Bucket.levelOf, level, ← gained, refill, h.capacity, h.refill]

/-- A full bucket and none are found alike. -/
theorem refill_full (h : Held spec t b) (hfull : b.full now) :
    refill spec now (some b) = refill spec now none := by
  rw [refill_some h, h.full_iff.mp hfull]
  rfl

/-- What a call finds, whether the bucket is new or old. -/
structure Found (spec : BucketSpec) (now : ℚ) (b : Bucket) : Prop extends Held spec now b where
  fresh : b.since = now

theorem found_none (hc : 1 ≤ spec.capacity) (now : ℚ) : Found spec now (refill spec now none) where
  capacity := rfl
  refill := rfl
  nonneg := by
    show 0 ≤ spec.capacity
    linarith
  le := le_refl spec.capacity
  since := le_refl now
  fresh := rfl

theorem found_some (hc : 1 ≤ spec.capacity) (hr : 0 ≤ spec.rate) (h : Held spec t b) :
    Found spec now (refill spec now (some b)) := by
  rw [refill_some h]
  exact ⟨⟨rfl, rfl, level_nonneg (by linarith) hr h.nonneg, level_le_capacity, le_refl now⟩, rfl⟩

/-- After a draw the bucket holds as much as before or one token less, and is not full. -/
theorem drawn (hc : 1 ≤ spec.capacity) (h : Found spec now b) :
    Found spec now (draw spec b).1 ∧ ¬ (draw spec b).1.full now := by
  have hempty : ∀ b' : Bucket, Found spec now b' → b'.full now → spec.capacity ≤ b'.tokens := by
    intro b' h' hfull
    rw [Bucket.full, h'.fresh, h'.capacity] at hfull
    simpa using hfull
  have hle := h.le
  rw [draw]
  split_ifs with htoken
  · have hfound : Found spec now { b with tokens := b.tokens - 1 } :=
      ⟨⟨h.capacity, h.refill, by show 0 ≤ b.tokens - 1; linarith,
        by show b.tokens - 1 ≤ _; linarith, h.since⟩, h.fresh⟩
    refine ⟨hfound, fun hfull => ?_⟩
    have : spec.capacity ≤ b.tokens - 1 := hempty _ hfound hfull
    linarith
  · refine ⟨h, fun hfull => ?_⟩
    have := hempty b h hfull
    linarith

/-! ### Making room -/

theorem dropOldest_sublist (maxKeys : ℕ) (rows : Buckets) : (dropOldest maxKeys rows).Sublist rows := by
  induction rows with
  | nil => exact List.Sublist.refl _
  | cons r rows ih =>
    rw [dropOldest]
    split_ifs
    · exact ih.cons r
    · exact List.Sublist.refl _

variable {maxKeys : ℕ} {rows : Buckets}

theorem dropOldest_of_room (h : rows.length < maxKeys) : dropOldest maxKeys rows = rows := by
  cases rows with
  | nil => rfl
  | cons r rows =>
    rw [dropOldest, if_neg]
    omega

theorem evict_sublist (maxKeys : ℕ) (now : ℚ) (rows : Buckets) : (evict maxKeys now rows).Sublist rows :=
  (dropOldest_sublist _ _).trans filter_sublist

variable {r : Key × Bucket}

/-- With room for those that are not full, only full buckets go. -/
theorem mem_evict (hroom : (rows.filter fun r => ¬ r.2.full now).length < maxKeys) (hr : r ∈ rows)
    (hfull : ¬ r.2.full now) : r ∈ evict maxKeys now rows := by
  rw [evict, dropOldest_of_room hroom]
  exact mem_filter.mpr ⟨hr, by simpa using hfull⟩

/-! ### Calls -/

/-- The entries of the ideal map: one for each key, as calls leave them. -/
structure Kept (l : RateLimiter) (scale : Key → ℚ) (now : ℚ) (ideal : Buckets) : Prop where
  nodup : (ideal.map Prod.fst).Nodup
  held : ∀ r ∈ ideal, Held (specAt l scale r.1) now r.2

theorem Held.mono (h : Held spec t b) (hle : t ≤ now) :
    Held spec now b := ⟨h.capacity, h.refill, h.nonneg, h.le, le_trans h.since hle⟩

variable {ideal : Buckets}

theorem Kept.find (h : Kept l scale now ideal) (hr : rowAt Prod.fst k ideal = some r) :
    Held (specAt l scale k) now r.2 := by
  obtain ⟨hmem, rfl⟩ := rowAt_some hr
  exact h.held r hmem

/-- The bucket of a key, as a call finds it. -/
def foundAt (l : RateLimiter) (scale : Key → ℚ) (rows : Buckets) (k : Key) (now : ℚ) : Bucket :=
  refill (specAt l scale k) now ((rowAt Prod.fst k rows).map Prod.snd)

theorem Kept.found (h : Kept l scale t ideal) (hscale : ∀ k, 1 ≤ scale k) (k : Key) :
    Found (specAt l scale k) now (foundAt l scale ideal k now) := by
  unfold foundAt
  cases hr : rowAt Prod.fst k ideal with
  | none => exact found_none (one_le_capacity (hscale k)) now
  | some r => exact found_some (one_le_capacity (hscale k)) (rate_nonneg (hscale k)) (h.find hr)

theorem idealCall_eq (rows : Buckets) (x : Take) : idealCall l scale rows x =
    (rows.filter (fun r => r.1 ≠ x.id) ++
      [(x.id, (draw (specAt l scale x.id) (foundAt l scale rows x.id x.now)).1)],
      (draw (specAt l scale x.id) (foundAt l scale rows x.id x.now)).2) := by
  rw [idealCall, takeWith, ite_self]
  rfl

/-- The rows of the code before the key is written: after making room where it is new. -/
def roomed (l : RateLimiter) (rows : Buckets) (x : Take) : Buckets :=
  if (rowAt Prod.fst x.id rows).isNone then
    if rows.length ≥ l.maxKeys then evict l.maxKeys x.now rows else rows
  else rows

theorem call_eq (rows : Buckets) (x : Take) : call l scale rows x =
    ((roomed l rows x).filter (fun r => r.1 ≠ x.id) ++
      [(x.id, (draw (specAt l scale x.id) (foundAt l scale rows x.id x.now)).1)],
      (draw (specAt l scale x.id) (foundAt l scale rows x.id x.now)).2) := by
  rw [call, RateLimiter.take, takeWith, roomed, Option.isNone_map]
  rfl

theorem roomed_sublist (rows : Buckets) (x : Take) : (roomed l rows x).Sublist rows := by
  unfold roomed
  split_ifs
  · exact evict_sublist _ _ _
  · exact List.Sublist.refl _
  · exact List.Sublist.refl _

theorem Kept.after (h : Kept l scale t ideal) (hscale : ∀ k, 1 ≤ scale k) {x : Take} (hle : t ≤ x.now) :
    Kept l scale x.now (idealAct l scale ideal x) := by
  rw [idealAct, idealCall_eq]
  constructor
  · rw [map_append, nodup_append]
    refine ⟨h.nodup.sublist (filter_sublist.map _), nodup_singleton _, ?_⟩
    intro k hk k' hk'
    obtain ⟨r, hr, rfl⟩ := mem_map.mp hk
    rw [map_singleton, mem_singleton] at hk'
    rw [hk']
    simpa using (mem_filter.mp hr).2
  · intro r hr
    rcases mem_append.mp hr with hr | hr
    · exact (h.held r (mem_filter.mp hr).1).mono hle
    · rw [mem_singleton.mp hr]
      exact (drawn (one_le_capacity (hscale x.id)) (h.found hscale x.id)).1.toHeld

/-- The map of the code against the ideal one. -/
structure Shadows (l : RateLimiter) (scale : Key → ℚ) (now : ℚ) (rows ideal : Buckets) : Prop where
  kept : Kept l scale now ideal
  sublist : rows.Sublist ideal
  full : ∀ r ∈ ideal, r ∉ rows → r.2.full now

theorem Shadows.found (h : Shadows l scale t rows ideal) (hscale : ∀ k, 1 ≤ scale k) (hle : t ≤ now)
    (k : Key) : foundAt l scale rows k now = foundAt l scale ideal k now := by
  have hnodup := h.kept.nodup.sublist (h.sublist.map Prod.fst)
  unfold foundAt
  cases hi : rowAt Prod.fst k ideal with
  | none =>
    have hc : rowAt Prod.fst k rows = none := rowAt_eq_none.mpr fun r hr =>
      rowAt_eq_none.mp hi r (h.sublist.subset hr)
    rw [hc]
  | some r =>
    obtain ⟨hmem, hkey⟩ := rowAt_some hi
    by_cases hin : r ∈ rows
    · rw [(rowAt_eq_some hnodup).mpr ⟨hin, hkey⟩]
    · have hc : rowAt Prod.fst k rows = none := by
        rw [rowAt_eq_none]
        intro r' hr' hkey'
        have hsame : rowAt Prod.fst k ideal = some r' :=
          (rowAt_eq_some h.kept.nodup).mpr ⟨h.sublist.subset hr', hkey'⟩
        rw [hi] at hsame
        exact hin (Option.some.inj hsame ▸ hr')
      have hheld := h.kept.find hi
      have hfull : r.2.full now := by
        rw [hheld.full_iff]
        exact full_later (rate_nonneg (hscale k)) hle (hheld.full_iff.mp (h.full r hmem hin))
      rw [hc]
      exact (refill_full hheld hfull).symm

/-- Making room takes away nothing that is not full. -/
theorem Shadows.roomed (h : Shadows l scale t rows ideal) (hscale : ∀ k, 1 ≤ scale k) {x : Take}
    (hroomy : Roomy l scale ideal x) (hr : r ∈ rows) (hfull : ¬ r.2.full x.now) :
    r ∈ roomed l rows x := by
  unfold RateLimit.roomed
  split_ifs with hnew hlen
  · apply mem_evict ?_ hr hfull
    -- the bucket that is drawn on is not full either, and it is none of the rows
    have hfound : Found _ x.now (foundAt l scale ideal x.id x.now) := h.kept.found hscale x.id
    have hdrawn := (drawn (one_le_capacity (hscale x.id)) hfound).2
    have hothers : (rows.filter fun r => ¬ r.2.full x.now).Sublist
        ((ideal.filter fun r => r.1 ≠ x.id).filter fun r => ¬ r.2.full x.now) := by
      apply List.Sublist.filter
      have hsame : rows.filter (fun r => r.1 ≠ x.id) = rows := by
        rw [filter_eq_self]
        intro r hr
        have := rowAt_eq_none.mp (Option.isNone_iff_eq_none.mp hnew) r hr
        simpa using this
      rw [← hsame]
      exact h.sublist.filter _
    rw [Roomy, idealAct, idealCall_eq, filter_append, length_append, filter_singleton] at hroomy
    simp only [hdrawn, not_false_eq_true, decide_true, cond_true, length_singleton] at hroomy
    have hle := hothers.length_le
    omega
  · exact hr
  · exact hr

/-- One call: the same answer, and the code's map goes on shadowing the ideal one. -/
theorem Shadows.call {t : ℚ} {rows ideal : Buckets} (h : Shadows l scale t rows ideal)
    (hscale : ∀ k, 1 ≤ scale k) {x : Take} (hle : t ≤ x.now) (hroomy : Roomy l scale ideal x) :
    (call l scale rows x).2 = (idealCall l scale ideal x).2 ∧
    Shadows l scale x.now (call l scale rows x).1 (idealAct l scale ideal x) := by
  refine ⟨by rw [call_eq, idealCall_eq, h.found hscale hle], h.kept.after hscale hle, ?_, ?_⟩
  · rw [call_eq, idealAct, idealCall_eq, h.found hscale hle]
    exact (((roomed_sublist rows x).trans h.sublist).filter _).append (List.Sublist.refl _)
  · rw [call_eq, idealAct, idealCall_eq, h.found hscale hle]
    intro r hr hnot
    simp only [mem_append, not_or] at hr hnot
    rcases hr with hr | hr
    · obtain ⟨hmem, hne⟩ := mem_filter.mp hr
      by_cases hin : r ∈ rows
      · by_contra hfull
        exact hnot.1 (mem_filter.mpr ⟨h.roomed hscale hroomy hin hfull, hne⟩)
      · have hheld := h.kept.held r hmem
        rw [hheld.full_iff]
        exact full_later (rate_nonneg (hscale r.1)) hle (hheld.full_iff.mp (h.full r hmem hin))
    · exact absurd hr hnot.2

variable {xs : List Take}

theorem Shadows.answers (h : Shadows l scale t rows ideal) (hscale : ∀ k, 1 ≤ scale k)
    (hfrom : ∀ x ∈ xs, t ≤ x.now) (htimes : Nondecreasing xs)
    (hroomy : Program.Along (idealAct l scale) (Roomy l scale) ideal xs) :
    answers l scale rows xs = idealAnswers l scale ideal xs := by
  induction xs generalizing t rows ideal with
  | nil => rfl
  | cons x xs ih =>
    obtain ⟨hnext, hrest⟩ := pairwise_cons.mp htimes
    obtain ⟨hsame, hshadows⟩ := h.call hscale (hfrom x mem_cons_self) hroomy.1
    rw [RateLimit.answers, idealAnswers, hsame]
    exact congrArg _ (ih hshadows hnext hrest hroomy.2)

theorem shadows_nil (t : ℚ) : Shadows l scale t [] [] :=
  ⟨⟨nodup_nil, by simp⟩, List.Sublist.refl _, by simp⟩

/-- Dropping full buckets is not seen: the answers are those of the limiter that
never drops one. -/
theorem answers_eq_ideal (hscale : ∀ k, 1 ≤ scale k) (htimes : Nondecreasing xs)
    (hroomy : AlwaysRoomy l scale xs) : answers l scale [] xs = idealAnswers l scale [] xs := by
  cases xs with
  | nil => rfl
  | cons x xs =>
    refine (shadows_nil x.now).answers hscale ?_ htimes hroomy
    exact forall_mem_cons.mpr ⟨le_refl _, (pairwise_cons.mp htimes).1⟩

end Plur1bus.Api.RateLimit
