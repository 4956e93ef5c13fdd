import Plur1bus.Api.RateLimitIdeal

/-!
How many calls a limiter lets through. What a key's bucket holds is a potential:
a call that is let through takes one away from it, no other call does, and in a
span of time it gains at most what flows in. So the calls that are let through
from one instant to another are at most what the bucket held at the first, which
is at most its capacity, and what has flown in since.
-/

namespace Plur1bus.Api.RateLimit

open Program.Keyed Program.TokenBucket List

variable {l : RateLimiter} {scale : Key → ℚ}

/-! ### The level of a key -/

/-- What a call for the key would find at an instant. -/
def levelAt (l : RateLimiter) (scale : Key → ℚ) (rows : Buckets) (k : Key) (now : ℚ) : ℚ :=
  (foundAt l scale rows k now).tokens

variable {rows : Buckets}

theorem Kept.level_later {t now later : ℚ} (h : Kept l scale t rows) (hscale : ∀ k, 1 ≤ scale k)
    (k : Key) (hle : now ≤ later) : levelAt l scale rows k later ≤
      levelAt l scale rows k now + (specAt l scale k).rate * (later - now) := by
  have hr := rate_nonneg (l := l) (hscale k)
  unfold levelAt foundAt
  cases hrow : rowAt Prod.fst k rows with
  | none =>
    have := mul_nonneg hr (sub_nonneg.mpr hle)
    show (specAt l scale k).capacity ≤ (specAt l scale k).capacity + _
    linarith
  | some r =>
    rw [Option.map_some, refill_some (h.find hrow), refill_some (h.find hrow)]
    exact Program.TokenBucket.level_later hr hle

variable {x : Take} {k : Key}

theorem rowAt_idealAct : rowAt Prod.fst k (idealAct l scale rows x) =
      if k = x.id then some (k, (draw (specAt l scale k) (foundAt l scale rows k x.now)).1)
      else rowAt Prod.fst k rows := by
  rw [idealAct, idealCall_eq, rowAt_append, rowAt_filter_ne]
  split_ifs with hk
  · subst hk
    simp [rowAt]
  · have hlast : rowAt Prod.fst k
        [(x.id, (draw (specAt l scale x.id) (foundAt l scale rows x.id x.now)).1)] = none := by
      simp [rowAt, Ne.symm hk]
    rw [hlast, Option.or_none]

/-- A call for another key leaves the level alone. -/
theorem levelAt_other (hk : k ≠ x.id) (now : ℚ) :
    levelAt l scale (idealAct l scale rows x) k now = levelAt l scale rows k now := by
  rw [levelAt, foundAt, rowAt_idealAct, if_neg hk]
  rfl

/-- A call for the key leaves what it has drawn on. -/
theorem Kept.levelAt_same {t : ℚ} (h : Kept l scale t rows) (hscale : ∀ k, 1 ≤ scale k) (x : Take) :
    levelAt l scale (idealAct l scale rows x) x.id x.now =
      levelAt l scale rows x.id x.now - if (idealCall l scale rows x).2 = .ok then 1 else 0 := by
  have hfound : Found _ x.now (foundAt l scale rows x.id x.now) := h.found hscale x.id
  have hdrawn := (drawn (one_le_capacity (hscale x.id)) hfound).1
  rw [levelAt, foundAt, rowAt_idealAct, if_pos rfl, Option.map_some,
    refill_some hdrawn.toHeld, idealCall_eq]
  show Bucket.levelOf _ _ _ = _
  have hlevel : level _ (specAt l scale x.id).rate _ x.now x.now = _ := level_now hdrawn.le
  rw [Bucket.levelOf, hdrawn.fresh, hlevel, levelAt, draw]
  split_ifs with htoken hok hok
  · rfl
  · exact absurd rfl hok
  · cases hok
  · simp

/-! ### The bound -/

theorem oks_cons {t₁ t₂ : ℚ} {v : Verdict} {answered : List (Take × Verdict)} :
    oks k t₁ t₂ ((x, v) :: answered) =
      oks k t₁ t₂ answered + if x.id = k ∧ t₁ ≤ x.now ∧ x.now ≤ t₂ ∧ v = .ok then 1 else 0 := by
  simp [oks, countP_cons]

theorem idealAnswers_cons (rows : Buckets) (x : Take) (xs : List Take) :
    idealAnswers l scale rows (x :: xs) =
      (x, (idealCall l scale rows x).2) :: idealAnswers l scale (idealAct l scale rows x) xs := rfl

variable {xs : List Take}

theorem idealAnswers_from {a : Take × Verdict} (ha : a ∈ idealAnswers l scale rows xs) : a.1 ∈ xs := by
  induction xs generalizing rows with
  | nil => cases ha
  | cons x xs ih =>
    rw [idealAnswers] at ha
    rcases mem_cons.mp ha with rfl | ha
    · exact mem_cons_self
    · exact mem_cons_of_mem _ (ih ha)

/-- Calls that come later than the span do not count. -/
theorem oks_late {t₁ t₂ : ℚ} (h : ∀ x ∈ xs, t₂ < x.now) :
    oks k t₁ t₂ (idealAnswers l scale rows xs) = 0 := by
  rw [oks, countP_eq_zero]
  intro a ha
  have := h a.1 (idealAnswers_from ha)
  simp only [decide_eq_true_eq, not_and]
  intro _ _ hle
  linarith

/-- From an instant on: what the bucket holds there pays for the calls let through. -/
theorem Kept.oks_le {s t₁ t₂ : ℚ} (h : Kept l scale s rows) (hscale : ∀ k, 1 ≤ scale k) (k : Key)
    (hfrom : ∀ x ∈ xs, s ≤ x.now) (htimes : Nondecreasing xs) (hs : s ≤ t₂) :
    (oks k t₁ t₂ (idealAnswers l scale rows xs) : ℚ) ≤
      levelAt l scale rows k s + (specAt l scale k).rate * (t₂ - s) := by
  have hr := rate_nonneg (l := l) (hscale k)
  have hpos : 0 ≤ levelAt l scale rows k s := (h.found hscale k).nonneg
  have hflow := mul_nonneg hr (sub_nonneg.mpr hs)
  induction xs generalizing s rows with
  | nil =>
    show ((0 : ℕ) : ℚ) ≤ _
    push_cast
    linarith
  | cons x xs ih =>
    obtain ⟨hnext, hrest⟩ := pairwise_cons.mp htimes
    have hsx := hfrom x mem_cons_self
    by_cases hlate : t₂ < x.now
    · have hzero : oks k t₁ t₂ (idealAnswers l scale rows (x :: xs)) = 0 := oks_late
        (forall_mem_cons.mpr ⟨hlate, fun y hy => lt_of_lt_of_le hlate (hnext y hy)⟩)
      rw [hzero]
      push_cast
      linarith
    · have hin : x.now ≤ t₂ := not_lt.mp hlate
      have hkept := h.after hscale hsx
      have hrec := ih hkept hnext hrest hin (hkept.found hscale k).nonneg
        (mul_nonneg hr (sub_nonneg.mpr hin))
      have hgrow := h.level_later hscale k hsx
      have hsplit : (specAt l scale k).rate * (t₂ - s) =
          (specAt l scale k).rate * (x.now - s) + (specAt l scale k).rate * (t₂ - x.now) := by ring
      rw [idealAnswers_cons, oks_cons]
      by_cases hk : k = x.id
      · subst hk
        rw [h.levelAt_same hscale x] at hrec
        push_cast
        -- a call that is let through is paid for by the token it takes
        have hpaid : (if x.id = x.id ∧ t₁ ≤ x.now ∧ x.now ≤ t₂ ∧ (idealCall l scale rows x).2 = .ok
            then (1 : ℚ) else 0) ≤ if (idealCall l scale rows x).2 = .ok then 1 else 0 := by
          split_ifs with h₁ h₂ h₂
          · linarith
          · exact absurd h₁.2.2.2 h₂
          · linarith
          · linarith
        linarith
      · rw [levelAt_other hk] at hrec
        rw [if_neg (fun hall => hk hall.1.symm)]
        push_cast
        linarith

/-- Calls before the span do not count, and at its start the bucket holds at most its
capacity. -/
theorem Kept.oks_within {s t₁ t₂ : ℚ} (h : Kept l scale s rows) (hscale : ∀ k, 1 ≤ scale k) (k : Key)
    (hfrom : ∀ x ∈ xs, s ≤ x.now) (htimes : Nondecreasing xs) (hs : t₁ ≤ t₂) :
    (oks k t₁ t₂ (idealAnswers l scale rows xs) : ℚ) ≤
      (specAt l scale k).capacity + (specAt l scale k).rate * (t₂ - t₁) := by
  induction xs generalizing s rows with
  | nil =>
    have hc := one_le_capacity (l := l) (hscale k)
    have := mul_nonneg (rate_nonneg (l := l) (hscale k)) (sub_nonneg.mpr hs)
    show ((0 : ℕ) : ℚ) ≤ _
    push_cast
    linarith
  | cons x xs ih =>
    obtain ⟨hnext, hrest⟩ := pairwise_cons.mp htimes
    have hsx := hfrom x mem_cons_self
    by_cases hearly : x.now < t₁
    · have hrec := ih (h.after hscale hsx) hnext hrest
      have hnot : ¬ (x.id = k ∧ t₁ ≤ x.now ∧ x.now ≤ t₂ ∧ (idealCall l scale rows x).2 = .ok) :=
        fun hall => absurd hall.2.1 (not_le.mpr hearly)
      rw [idealAnswers_cons, oks_cons, if_neg hnot, add_zero]
      exact hrec
    · have hr := rate_nonneg (l := l) (hscale k)
      by_cases hlate : t₂ < x.now
      · have hc := one_le_capacity (l := l) (hscale k)
        have hflow := mul_nonneg hr (sub_nonneg.mpr hs)
        rw [oks_late (forall_mem_cons.mpr
          ⟨hlate, fun y hy => lt_of_lt_of_le hlate (hnext y hy)⟩)]
        push_cast
        linarith
      · -- the first call of the span: the bucket is as it was at the call before
        have hkept : Kept l scale x.now rows := ⟨h.nodup, fun r hr => (h.held r hr).mono hsx⟩
        have hbound : (oks k t₁ t₂ _ : ℚ) ≤ _ := hkept.oks_le hscale k
          (forall_mem_cons.mpr ⟨le_refl _, hnext⟩) htimes (not_lt.mp hlate)
        have hcap : levelAt l scale rows k x.now ≤ (specAt l scale k).capacity := (hkept.found hscale k).le
        have hspan := mul_le_mul_of_nonneg_left
          (sub_le_sub_left (not_lt.mp hearly) t₂) hr
        linarith

/-! ### Waiting -/

theorem answers_append (rows : Buckets) (xs ys : List Take) : answers l scale rows (xs ++ ys) =
      answers l scale rows xs ++ answers l scale (run l scale rows xs) ys := by
  induction xs generalizing rows with
  | nil => rfl
  | cons x xs ih =>
    rw [cons_append, answers, ih]
    rfl

theorem idealAnswers_append (rows : Buckets) (xs ys : List Take) : idealAnswers l scale rows (xs ++ ys) =
      idealAnswers l scale rows xs ++ idealAnswers l scale (xs.foldl (idealAct l scale) rows) ys := by
  induction xs generalizing rows with
  | nil => rfl
  | cons x xs ih =>
    rw [cons_append, idealAnswers_cons, ih]
    rfl

theorem length_answers (rows : Buckets) (xs : List Take) :
    (answers l scale rows xs).length = xs.length := by
  induction xs generalizing rows with
  | nil => rfl
  | cons x xs ih => rw [answers, length_cons, ih, length_cons]

theorem length_idealAnswers (rows : Buckets) (xs : List Take) :
    (idealAnswers l scale rows xs).length = xs.length := by
  induction xs generalizing rows with
  | nil => rfl
  | cons x xs ih => rw [idealAnswers_cons, length_cons, ih, length_cons]

/-- The answer to one call of a sequence is the ideal one. -/
theorem answerTo_eq {before after : List Take}
    (h : answers l scale [] (before ++ x :: after) = idealAnswers l scale [] (before ++ x :: after)) :
    answerTo l scale before x = (idealCall l scale (before.foldl (idealAct l scale) []) x).2 := by
  rw [answers_append, idealAnswers_append] at h
  obtain ⟨-, hrest⟩ := append_inj h (by rw [length_answers, length_idealAnswers])
  rw [answers, idealAnswers] at hrest
  exact (Prod.mk.inj (cons_eq_cons.mp hrest).1).2

theorem Kept.run {s : ℚ} (h : Kept l scale s rows) (hscale : ∀ k, 1 ≤ scale k)
    (hfrom : ∀ x ∈ xs, s ≤ x.now) (htimes : Nondecreasing xs) {last : ℚ} (hs : s ≤ last)
    (hlast : ∀ x ∈ xs, x.now ≤ last) : Kept l scale last (xs.foldl (idealAct l scale) rows) := by
  induction xs generalizing s rows with
  | nil => exact ⟨h.nodup, fun r hr => (h.held r hr).mono hs⟩
  | cons x xs ih =>
    obtain ⟨hnext, hrest⟩ := pairwise_cons.mp htimes
    exact ih (h.after hscale (hfrom x mem_cons_self)) hnext hrest
      (hlast x mem_cons_self) (fun y hy => hlast y (mem_cons_of_mem _ hy))

/-- Calls for other keys leave the bucket of a key as it is. -/
theorem rowAt_others (h : ∀ x ∈ xs, x.id ≠ k) (rows : Buckets) :
    rowAt Prod.fst k (xs.foldl (idealAct l scale) rows) = rowAt Prod.fst k rows := by
  induction xs generalizing rows with
  | nil => rfl
  | cons x xs ih =>
    obtain ⟨hx, hrest⟩ := forall_mem_cons.mp h
    rw [foldl_cons, ih hrest, rowAt_idealAct, if_neg (Ne.symm hx)]

variable {retryAfterSec : ℤ}

/-- A refused call leaves the bucket short of a token, by what the answer waits for. -/
theorem draw_refused {spec : BucketSpec} {b : Bucket} (hr : 0 < spec.refillPerSec)
    (h : (draw spec b).2 = .refused retryAfterSec) :
    (draw spec b).1 = b ∧ 1 ≤ b.tokens + spec.refillPerSec * retryAfterSec := by
  rw [draw] at h ⊢
  split_ifs at h ⊢ with htoken
  obtain rfl := Verdict.refused.inj h
  refine ⟨rfl, ?_⟩
  have hceil : (1 - b.tokens) / spec.refillPerSec ≤
      ((max 1 ⌈(1 - b.tokens) / spec.refillPerSec⌉ : ℤ) : ℚ) :=
    le_trans (Int.le_ceil _) (Int.cast_le.mpr (le_max_right _ _))
  rw [div_le_iff₀ hr] at hceil
  linarith

theorem kept_nil (t : ℚ) : Kept l scale t [] := ⟨nodup_nil, by simp⟩

theorem kept_run (hscale : ∀ k, 1 ≤ scale k) (htimes : Nondecreasing xs) {last : ℚ}
    (hlast : ∀ x ∈ xs, x.now ≤ last) : Kept l scale last (xs.foldl (idealAct l scale) []) := by
  cases xs with
  | nil => exact kept_nil last
  | cons x xs =>
    have hnext := (pairwise_cons.mp htimes).1
    exact (kept_nil x.now).run hscale (forall_mem_cons.mpr ⟨le_refl _, hnext⟩) htimes
      (hlast x mem_cons_self) hlast

/-- The wait that a refusal names is long enough. -/
theorem wait_enough (hscale : ∀ k, 1 ≤ scale k) {before mid : List Take} {y : Take}
    (htimes : Nondecreasing (before ++ [x])) (hsame : y.id = x.id) (hmid : ∀ z ∈ mid, z.id ≠ x.id)
    (hrefused : (idealCall l scale (before.foldl (idealAct l scale) []) x).2 = .refused retryAfterSec)
    (hle : x.now ≤ y.now) (hwait : x.now + 1000 * retryAfterSec ≤ y.now) :
    (idealCall l scale ((before ++ x :: mid).foldl (idealAct l scale) []) y).2 = .ok := by
  obtain ⟨hbefore, -, hx⟩ := pairwise_append.mp htimes
  have hkept := kept_run (l := l) hscale hbefore (fun z hz => hx z hz x (mem_singleton.mpr rfl))
  have hfound : Found _ x.now (foundAt l scale _ x.id x.now) := hkept.found hscale x.id
  rw [idealCall_eq] at hrefused
  obtain ⟨hdraw, hneed⟩ := draw_refused (refill_pos (hscale x.id)) hrefused
  have hrow : rowAt Prod.fst x.id ((before ++ x :: mid).foldl (idealAct l scale) []) =
      some (x.id, foundAt l scale (before.foldl (idealAct l scale) []) x.id x.now) := by
    rw [foldl_append, foldl_cons, rowAt_others hmid, rowAt_idealAct, if_pos rfl, hdraw]
  set b := foundAt l scale (before.foldl (idealAct l scale) []) x.id x.now
  have hlevel : 1 ≤ b.levelOf (specAt l scale x.id) y.now := by
    have hspan : (retryAfterSec : ℚ) ≤ (y.now - x.now) / 1000 := by
      rw [le_div_iff₀ (by norm_num)]
      linarith
    have hflow := mul_le_mul_of_nonneg_left hspan (le_of_lt (refill_pos (l := l) (hscale x.id)))
    apply le_level (one_le_capacity (hscale x.id)) (by rw [hfound.fresh]; exact hle)
    rw [hfound.fresh, BucketSpec.rate]
    linarith
  rw [idealCall_eq, hsame, foundAt, hrow, Option.map_some, refill_some hfound.toHeld, draw, if_pos hlevel]

/-- For every sequence of calls with a clock that does not go back and room for the
keys whose buckets are not full: from one instant to another a key gets at most its
capacity and what flows in; a call that waits as long as a refusal says goes through;
and the answers are those of the limiter that drops no bucket. -/
theorem rate_limits (l : RateLimiter) (scale : Key → ℚ) (hscale : ∀ k, 1 ≤ scale k) (xs : List Take)
    (htimes : Nondecreasing xs) (hroomy : AlwaysRoomy l scale xs) :
    (∀ k t₁ t₂, t₁ ≤ t₂ → (oks k t₁ t₂ (answers l scale [] xs) : ℚ) ≤
      (specAt l scale k).capacity + (specAt l scale k).refillPerSec * ((t₂ - t₁) / 1000)) ∧
    (∀ before x mid y after retryAfterSec, xs = before ++ x :: (mid ++ y :: after) →
      y.id = x.id → (∀ z ∈ mid, z.id ≠ x.id) →
      answerTo l scale before x = .refused retryAfterSec → x.now + 1000 * retryAfterSec ≤ y.now →
      answerTo l scale (before ++ x :: mid) y = .ok) ∧
    answers l scale [] xs = idealAnswers l scale [] xs := by
  have hideal := answers_eq_ideal hscale htimes hroomy
  refine ⟨?_, ?_, hideal⟩
  · intro k t₁ t₂ hle
    have hrate : (specAt l scale k).refillPerSec * ((t₂ - t₁) / 1000) =
        (specAt l scale k).rate * (t₂ - t₁) := by
      rw [BucketSpec.rate]
      ring
    rw [hideal, hrate]
    cases xs with
    | nil => exact (kept_nil t₁).oks_within hscale k (by simp) htimes hle
    | cons x xs =>
      exact (kept_nil x.now).oks_within hscale k
        (forall_mem_cons.mpr ⟨le_refl _, (pairwise_cons.mp htimes).1⟩) htimes hle
  · rintro before x mid y after retryAfterSec rfl hsame hmid hrefused hwait
    have hy : (before ++ x :: (mid ++ y :: after)) = (before ++ x :: mid) ++ y :: after := by simp
    rw [answerTo_eq hideal] at hrefused
    rw [answerTo_eq (hy ▸ hideal)]
    have hfirst : Nondecreasing (before ++ [x]) := by
      apply List.Pairwise.sublist ?_ htimes
      exact (List.Sublist.refl before).append (singleton_sublist.mpr mem_cons_self)
    have hlater : x.now ≤ y.now := by
      have := (pairwise_cons.mp (pairwise_append.mp htimes).2.1).1
      exact this y (by simp)
    exact wait_enough hscale hfirst hsame hmid hrefused hlater hwait

/-- Six second-factor codes of one user at once, one a minute later and another user's
an hour later. -/
def codes : List Take :=
  List.replicate 6 ⟨.totp, "user:a", 0⟩ ++ [⟨.totp, "user:a", 60000⟩, ⟨.totp, "user:b", 3600000⟩]

/-- With room for one key: the sixth code is refused for a minute, after which the next
one passes, and the bucket of the first user is dropped for the second one's. -/
theorem rate_limits_codes :
    (oks (.totp, "user:a") 0 60000 (answers (.ofDefaults 1) (fun _ => 1) [] codes) : ℚ) ≤ 6 ∧
    answerTo (.ofDefaults 1) (fun _ => 1) (codes.take 6) ⟨.totp, "user:a", 60000⟩ = .ok ∧
    (run (.ofDefaults 1) (fun _ => 1) [] codes).length = 1 := by
  have h := rate_limits (.ofDefaults 1) (fun _ => 1) (fun _ => le_refl 1) codes (by decide +kernel)
    (by decide +kernel)
  refine ⟨le_trans (h.1 (.totp, "user:a") 0 60000 (by norm_num)) (by decide +kernel), ?_, by decide +kernel⟩
  exact h.2.1 (codes.take 5) ⟨.totp, "user:a", 0⟩ [] ⟨.totp, "user:a", 60000⟩
    [⟨.totp, "user:b", 3600000⟩] 60 (by decide +kernel) rfl (by simp) (by decide +kernel) (by norm_num)

end Plur1bus.Api.RateLimit
