import Plur1bus.Supervisor.Backoff

/-!
The backoff answers as its history says.

Two facts about the state are carried along a history. Whether it has given up is
whether some answer since the last reset was to give up. While it has not, its
delay counter is the number of exits since the start of the delay sequence, its
readiness is the newest event if that is one, and its exits are the counted ones
that a later instant can still find in its window: what was dropped on the way
had left the window for good, because instants do not go back.
-/

namespace Plur1bus.Supervisor

open List

variable {scale : ℕ} {past : List Event}

/-! ### Reading a history -/

variable {e : Event}

theorem nondecreasing_tail (h : Nondecreasing (e :: past)) : Nondecreasing past := by
  unfold Nondecreasing at h ⊢
  cases e with
  | reset => exact h
  | ready now | exit now | lockHeldExit now => exact (pairwise_cons.mp h).2

@[simp] theorem countedExits_nil : countedExits [] = [] := rfl

@[simp] theorem countedExits_reset : countedExits (.reset :: past) = [] := by
  simp [countedExits, sinceReset]

@[simp] theorem countedExits_ready (now : ℕ) : countedExits (.ready now :: past) = countedExits past := by
  simp [countedExits, sinceReset]

@[simp] theorem countedExits_exit (now : ℕ) :
    countedExits (.exit now :: past) = now :: countedExits past := by
  simp [countedExits, sinceReset]

@[simp] theorem countedExits_lockHeldExit (now : ℕ) :
    countedExits (.lockHeldExit now :: past) = countedExits past := by
  simp [countedExits, sinceReset]

/-- Giving up lasts until a reset, and only an answer brings it about. -/
theorem gaveUp_cons : GaveUp scale (e :: past) ↔
    answer scale past e = some .giveUp ∨ (e ≠ .reset ∧ GaveUp scale past) := by
  constructor
  · rintro ⟨before, e', after, heq, hreset, hanswer⟩
    cases after with
    | nil =>
      obtain ⟨rfl, rfl⟩ := cons_eq_cons.mp heq
      exact Or.inl hanswer
    | cons a after =>
      obtain ⟨rfl, rfl⟩ := cons_eq_cons.mp heq
      simp only [mem_cons, not_or] at hreset
      exact Or.inr ⟨Ne.symm hreset.1, before, e', after, rfl, hreset.2, hanswer⟩
  · rintro (hanswer | ⟨hne, before, e', after, rfl, hreset, hanswer⟩)
    · exact ⟨past, e, [], rfl, by simp, hanswer⟩
    · refine ⟨before, e', e :: after, rfl, ?_, hanswer⟩
      simp only [mem_cons, not_or]
      exact ⟨Ne.symm hne, hreset⟩

theorem not_gaveUp_nil : ¬ GaveUp scale [] := by
  rintro ⟨before, e, after, heq, -⟩
  cases after <;> cases heq

/-! ### What the state says of its history -/

theorem scale_run : (Backoff.run scale past).scale = scale := by
  induction past with
  | nil => rfl
  | cons e past ih =>
    rw [Backoff.run]
    cases e with
    | ready now | reset => exact ih
    | exit now =>
      simp only [Backoff.call, Backoff.on_exit]
      split_ifs <;> exact ih
    | lockHeldExit now =>
      simp only [Backoff.call, Backoff.on_lock_held_exit]
      split_ifs <;> exact ih

theorem window_run : (Backoff.run scale past).window = 600 * scale * SECOND := by
  induction past with
  | nil => rfl
  | cons e past ih =>
    rw [Backoff.run]
    cases e with
    | ready now | reset => exact ih
    | exit now =>
      simp only [Backoff.call, Backoff.on_exit]
      split_ifs <;> exact ih
    | lockHeldExit now =>
      simp only [Backoff.call, Backoff.on_lock_held_exit]
      split_ifs <;> exact ih

/-- The readiness the state remembers. -/
def readyAt : List Event → Option ℕ
  | .ready now :: _ => some now
  | _ => none

@[simp] theorem leaveReady_scale (b : Backoff) (now : ℕ) : (b.leaveReady now).scale = b.scale := rfl

@[simp] theorem leaveReady_window (b : Backoff) (now : ℕ) : (b.leaveReady now).window = b.window := rfl

@[simp] theorem leaveReady_exits (b : Backoff) (now : ℕ) : (b.leaveReady now).exits = b.exits := rfl

@[simp] theorem leaveReady_given_up (b : Backoff) (now : ℕ) :
    (b.leaveReady now).given_up = b.given_up := rfl

/-- The part of the state that counts while the backoff has not given up. -/
structure Follows (scale : ℕ) (past : List Event) (b : Backoff) : Prop where
  scale_eq : b.scale = scale
  window_eq : b.window = 600 * scale * SECOND
  ready : b.ready_since = readyAt past
  delay : b.delay_index = exitsSince scale past
  exits : ∀ now, (∀ t ∈ past.filterMap Event.instant?, t ≤ now) →
    b.exits.filter (fun t => now - t ≤ b.window) =
      (countedExits past).reverse.filter (fun t => now - t ≤ b.window)

variable {now : ℕ}

theorem renews_iff : Renews scale past now ↔
    ∃ ready, readyAt past = some ready ∧ 600 * scale * SECOND ≤ now - ready := by
  have hhead : ∀ ready, past.head? = some (.ready ready) ↔ readyAt past = some ready := by
    intro ready
    cases past with
    | nil => simp [readyAt]
    | cons e past => cases e <;> simp [readyAt]
  simp only [Renews, hhead]

variable {b : Backoff}

/-- The delay counter as an exit reads it. -/
theorem Follows.leaveReady (h : Follows scale past b) (now : ℕ) :
    (b.leaveReady now).delay_index = exitsBefore scale past now := by
  have hrenews : Renews scale past now ↔ _ := renews_iff
  rw [← h.ready, ← h.window_eq] at hrenews
  rw [exitsBefore, ← h.delay, Backoff.leaveReady]
  cases hr : b.ready_since with
  | none =>
    rw [if_neg (by simp [hrenews, hr])]
  | some ready =>
    simp only [hrenews, hr, Option.some.injEq, exists_eq_left', ge_iff_le]

/-- The exits still in the window when one at `now` is added. -/
theorem Follows.crowded (h : Follows scale past b)
    (hlast : ∀ t ∈ past.filterMap Event.instant?, t ≤ now) :
    (b.exits.filter (fun t => now - t ≤ b.window) ++ [now]).length ≥ 5 ↔ Fifth scale past now := by
  rw [h.exits now hlast, filter_reverse, h.window_eq]
  simp [Fifth]

/-- The exits kept for later once one at `now` is added. -/
theorem Follows.exits_exit (h : Follows scale past b) {later : ℕ}
    (hlast : ∀ t ∈ past.filterMap Event.instant?, t ≤ now) (hle : now ≤ later) :
    (b.exits.filter (fun t => now - t ≤ b.window) ++ [now]).filter (fun t => later - t ≤ b.window) =
      (countedExits (.exit now :: past)).reverse.filter (fun t => later - t ≤ b.window) := by
  have hkept : (b.exits.filter (fun t => now - t ≤ b.window)).filter
      (fun t => later - t ≤ b.window) = b.exits.filter (fun t => later - t ≤ b.window) := by
    rw [filter_filter]
    apply filter_congr
    intro t _
    have : later - t ≤ b.window → now - t ≤ b.window := by omega
    simp only [← Bool.decide_and]
    exact decide_eq_decide.mpr ⟨fun hb => hb.1, fun hb => ⟨hb, this hb⟩⟩
  rw [filter_append, hkept, h.exits later (fun t ht => Nat.le_trans (hlast t ht) hle),
    countedExits_exit, reverse_cons, filter_append]

/-- What an exit of either kind leaves behind, once the readiness is over. -/
theorem exitsSince_exit (now : ℕ) :
    exitsSince scale (.exit now :: past) = exitsBefore scale past now + 1 := by
  rw [exitsSince, exitsBefore]
  split_ifs <;> rfl

theorem exitsSince_lockHeldExit (now : ℕ) :
    exitsSince scale (.lockHeldExit now :: past) = exitsBefore scale past now + 1 := by
  rw [exitsSince, exitsBefore]
  split_ifs <;> rfl

theorem follows_new : Follows scale [] (Backoff.new scale) where
  scale_eq := rfl
  window_eq := rfl
  ready := rfl
  delay := rfl
  exits := by simp [Backoff.new]

/-- A state that has given up keeps its scale and its window, and a reset brings
back the rest. -/
theorem follows_reset : Follows scale (.reset :: past) (Backoff.run scale past).reset where
  scale_eq := scale_run
  window_eq := window_run
  ready := rfl
  delay := rfl
  exits := by simp [Backoff.reset]

/-! ### One call, and a whole history -/

theorem given_up_call (b : Backoff) (e : Event) : (b.call e).1.given_up = true ↔
    (b.call e).2 = some .giveUp ∨ (e ≠ .reset ∧ b.given_up = true) := by
  cases e with
  | ready now => simp [Backoff.call, Backoff.on_ready]
  | reset => simp [Backoff.call, Backoff.reset]
  | exit now =>
    simp only [Backoff.call, Backoff.on_exit]
    by_cases hg : b.given_up = true
    · simp [hg]
    · rw [if_neg hg]
      split_ifs with hlen
      · simp
      · simp [Backoff.nextDelay, hg]
  | lockHeldExit now =>
    simp only [Backoff.call, Backoff.on_lock_held_exit]
    by_cases hg : b.given_up = true
    · simp [hg]
    · simp [Backoff.nextDelay, hg]

theorem given_up_run : (Backoff.run scale past).given_up = true ↔ GaveUp scale past := by
  induction past with
  | nil => simp [Backoff.run, Backoff.new, not_gaveUp_nil]
  | cons e past ih => rw [Backoff.run, given_up_call, gaveUp_cons, ih, answer]

theorem on_exit_crowded (hg : ¬ b.given_up = true)
    (hlen : (b.exits.filter (fun t => now - t ≤ b.window) ++ [now]).length ≥ 5) :
    (b.on_exit now).2 = .giveUp := by
  rw [Backoff.on_exit, if_neg hg]
  exact congrArg Prod.snd (if_pos hlen)

theorem on_exit_delayed (hg : ¬ b.given_up = true)
    (hlen : ¬ (b.exits.filter (fun t => now - t ≤ b.window) ++ [now]).length ≥ 5) :
    b.on_exit now = Backoff.nextDelay { b.leaveReady now with
      exits := b.exits.filter (fun t => now - t ≤ b.window) ++ [now] } := by
  rw [Backoff.on_exit, if_neg hg]
  exact if_neg hlen

/-- The answer to an exit in a state that follows its history, and the state after it. -/
theorem Follows.on_exit (h : Follows scale past b) (hg : ¬ b.given_up = true)
    (hlast : ∀ t ∈ past.filterMap Event.instant?, t ≤ now) :
    ((b.on_exit now).2 = if Fifth scale past now then .giveUp
      else .after (base_delay_secs (exitsBefore scale past now) * scale * SECOND)) ∧
    (¬ Fifth scale past now → Follows scale (.exit now :: past) (b.on_exit now).1) := by
  have hcrowded := h.crowded hlast
  by_cases hfifth : Fifth scale past now
  · refine ⟨?_, fun hno => absurd hfifth hno⟩
    rw [if_pos hfifth, on_exit_crowded hg (hcrowded.mpr hfifth)]
  · rw [if_neg hfifth, on_exit_delayed hg (mt hcrowded.mp hfifth)]
    have hdelay := h.leaveReady now
    refine ⟨?_, fun _ => ⟨h.scale_eq, h.window_eq, rfl, ?_, ?_⟩⟩
    · show RestartDecision.after (base_delay_secs (b.leaveReady now).delay_index * b.scale * SECOND) = _
      rw [hdelay, h.scale_eq]
    · show (b.leaveReady now).delay_index + 1 = _
      rw [hdelay, exitsSince_exit]
    · intro later hlater
      exact h.exits_exit hlast (hlater now (by simp [Event.instant?]))

theorem Follows.on_lock_held_exit (h : Follows scale past b) (hg : ¬ b.given_up = true) (now : ℕ) :
    (b.on_lock_held_exit now).2 = .after (base_delay_secs (exitsBefore scale past now) * scale * SECOND) ∧
    Follows scale (.lockHeldExit now :: past) (b.on_lock_held_exit now).1 := by
  rw [Backoff.on_lock_held_exit, if_neg hg]
  have hdelay := h.leaveReady now
  refine ⟨?_, h.scale_eq, h.window_eq, rfl, ?_, ?_⟩
  · show RestartDecision.after (base_delay_secs (b.leaveReady now).delay_index * b.scale * SECOND) = _
    rw [hdelay, h.scale_eq]
  · show (b.leaveReady now).delay_index + 1 = _
    rw [hdelay, exitsSince_lockHeldExit]
  · intro later hlater
    rw [countedExits_lockHeldExit]
    exact h.exits later (fun t ht => hlater t (by simp [Event.instant?, ht]))

theorem last_of_nondecreasing (h : Nondecreasing (e :: past)) (he : e.instant? = some now) :
    ∀ t ∈ past.filterMap Event.instant?, t ≤ now := by
  rw [Nondecreasing, filterMap_cons_some he] at h
  exact (pairwise_cons.mp h).1

/-- While the backoff has not given up its state follows the history. -/
theorem follows_run (h : Nondecreasing past) (hg : ¬ GaveUp scale past) :
    Follows scale past (Backoff.run scale past) := by
  induction past with
  | nil => exact follows_new
  | cons e past ih =>
    rw [gaveUp_cons] at hg
    push Not at hg
    obtain ⟨hanswer, hbefore⟩ := hg
    cases e with
    | reset => exact follows_reset
    | ready now =>
      have hprev := ih (nondecreasing_tail h) (hbefore (by simp))
      refine ⟨hprev.scale_eq, hprev.window_eq, rfl, hprev.delay, fun later hlater => ?_⟩
      rw [countedExits_ready]
      exact hprev.exits later (fun t ht => hlater t (by simp [Event.instant?, ht]))
    | exit now =>
      have hnot := hbefore (by simp)
      have hprev := ih (nondecreasing_tail h) hnot
      have hexit := hprev.on_exit (mt given_up_run.mp hnot) (last_of_nondecreasing h rfl)
      apply hexit.2
      intro hfifth
      apply hanswer
      show some (Backoff.on_exit _ now).2 = _
      rw [hexit.1, if_pos hfifth]
    | lockHeldExit now =>
      have hnot := hbefore (by simp)
      exact ((ih (nondecreasing_tail h) hnot).on_lock_held_exit (mt given_up_run.mp hnot) now).2

theorem base_delay_secs_eq (n : ℕ) : base_delay_secs n * SECOND = delayAfter n := by
  unfold base_delay_secs delayAfter
  by_cases hn : n < 6
  · have hpow : 2 ^ n ≤ 2 ^ 5 := Nat.pow_le_pow_right (by omega) (by omega)
    have hcap : min n 6 = n := by omega
    rw [if_pos hn, hcap, if_neg (by omega), Nat.min_eq_left (by omega)]
  · have hcap : min n 6 = 6 := by omega
    rw [if_neg hn, hcap]
    rfl

/-- The answers of the backoff are those of its specification: an exit gives up when
an earlier answer since the last reset did or when it is at least the fifth counted
one in the window, a lock-held exit only when an earlier answer did, and every other
answer is the delay that belongs to the number of exits before this one. -/
theorem backoff_spec (past : List Event) (now : ℕ) : (Nondecreasing (.exit now :: past) →
      (answer 1 past (.exit now) = some .giveUp ↔ GaveUp 1 past ∨ Fifth 1 past now) ∧
      (answer 1 past (.exit now) ≠ some .giveUp →
        answer 1 past (.exit now) = some (.after (delayAfter (exitsBefore 1 past now))))) ∧
    (Nondecreasing (.lockHeldExit now :: past) →
      (answer 1 past (.lockHeldExit now) = some .giveUp ↔ GaveUp 1 past) ∧
      (answer 1 past (.lockHeldExit now) ≠ some .giveUp → answer 1 past (.lockHeldExit now) =
          some (.after (delayAfter (exitsBefore 1 past now))))) := by
  have hdelay : base_delay_secs (exitsBefore 1 past now) * 1 * SECOND =
      delayAfter (exitsBefore 1 past now) := by rw [Nat.mul_one, base_delay_secs_eq]
  by_cases hgave : GaveUp 1 past
  · have hg := given_up_run.mpr hgave
    have hexit : answer 1 past (.exit now) = some .giveUp := by
      simp [answer, Backoff.call, Backoff.on_exit, hg]
    have hheld : answer 1 past (.lockHeldExit now) = some .giveUp := by
      simp [answer, Backoff.call, Backoff.on_lock_held_exit, hg]
    exact ⟨fun _ => ⟨by simp [hexit, hgave], fun hne => absurd hexit hne⟩,
      fun _ => ⟨by simp [hheld, hgave], fun hne => absurd hheld hne⟩⟩
  · have hg := mt given_up_run.mp hgave
    constructor
    · intro h
      have hfollows := follows_run (nondecreasing_tail h) hgave
      have hexit : answer 1 past (.exit now) = _ :=
        congrArg some (hfollows.on_exit hg (last_of_nondecreasing h rfl)).1
      rw [hexit, hdelay]
      by_cases hfifth : Fifth 1 past now
      · simp [hfifth]
      · simp [hfifth, hgave]
    · intro h
      have hfollows := follows_run (nondecreasing_tail h) hgave
      have hheld : answer 1 past (.lockHeldExit now) = _ :=
        congrArg some (hfollows.on_lock_held_exit hg now).1
      rw [hheld, hdelay]
      simp [hgave]

/-- The fifth exit in ten minutes gives up, a lock-held one in between does not
count but delays. -/
theorem backoff_spec_fifth :
    answer 1 [.exit 4, .exit 3, .lockHeldExit 3, .exit 2, .exit 1] (.exit 5) = some .giveUp ∧
    answer 1 [.exit 3, .lockHeldExit 3, .exit 2, .exit 1] (.lockHeldExit 5) =
      some (.after (16 * SECOND)) := by
  have hexit := (backoff_spec [.exit 4, .exit 3, .lockHeldExit 3, .exit 2, .exit 1] 5).1 (by decide)
  have hheld := (backoff_spec [.exit 3, .lockHeldExit 3, .exit 2, .exit 1] 5).2 (by decide)
  exact ⟨hexit.1.mpr (Or.inr (by decide)), hheld.2 (by decide)⟩

end Plur1bus.Supervisor
