import Plur1bus.Jobs.Model

/-!
A job runs each slot at most once and never beside itself. A claim moves its job
to a slot after the time of the claim, and every later edit to one after the
time of the edit; so the clock that has passed a slot has passed it for good. A
row that says that its run is running stands for a job that is marked as running
in memory, or for a process that was closed.
-/

namespace Plur1bus.Jobs

open List Option

variable {wallOf : ℤ → String → Wall} {env : Env} {s s' : State} {past : List Event}

/-! ### Slots -/

theorem lt_of_nextAfter {c : ParsedCron} {tz : String} {fromMs t : ℤ} (h : nextAfter wallOf c tz fromMs = some t) :
    fromMs < t := by
  obtain ⟨day, -, hday⟩ := exists_of_findSome?_eq_some h
  dsimp only at hday
  split at hday
  · obtain ⟨hour, -, hhour⟩ := exists_of_findSome?_eq_some hday
    obtain ⟨minute, -, hminute⟩ := exists_of_findSome?_eq_some hhour
    obtain ⟨-, hlt⟩ := filter_eq_some_iff.mp hminute
    exact of_decide_eq_true hlt
  · cases hday

variable {j : Job}

theorem lt_of_nextOf {time t : ℤ} (h : State.nextOf wallOf j time = some t) : time < t := by
  unfold State.nextOf at h
  split at h
  · exact lt_of_nextAfter h
  · cases h

theorem job?_some {id : ℕ} (h : s.job? id = some j) : j ∈ s.jobs ∧ j.id = id :=
  ⟨mem_of_find?_eq_some h, by simpa using List.find?_some h⟩

theorem mem_save {k : Job} (h : k ∈ (s.save j).jobs) : k = j ∨ (k ∈ s.jobs ∧ k.id ≠ j.id) := by
  grind [State.save]

/-! ### The invariant -/

/-- The job and the slot of a run that a scan began. -/
def Event.key (e : Event) : Option (ℕ × ℤ) := e.slot.map fun t => (e.jobId, t)

structure Inv (s : State) (past : List Event) : Prop where
  fresh : (∀ j ∈ s.jobs, j.id < s.fresh) ∧ ∀ r ∈ s.runs, r.runId < s.fresh ∧ r.jobId < s.fresh
  started : ∀ r ∈ s.runs, r.startedAt ≤ s.clock
  later : ∀ j ∈ s.jobs, ∀ n, j.nextRunAt = some n → ∀ r ∈ s.runs, r.jobId = j.id → r.startedAt < n
  slots : ∀ e ∈ past, ∀ t, e.slot = some t → e.jobId < s.fresh ∧ t ≤ s.clock ∧
    ∀ j ∈ s.jobs, j.id = e.jobId → ∀ n, j.nextRunAt = some n → t < n
  once : (past.filterMap Event.key).Nodup
  own : ∀ r ∈ s.runs, r.outcome = .running → r.runId ∈ s.own
  busy : ∀ r ∈ s.runs, r.outcome = .running → s.closed = true ∨ r.jobId ∈ s.running
  single : ∀ r ∈ s.runs, ∀ r' ∈ s.runs, r.outcome = .running → r'.outcome = .running → r.jobId = r'.jobId →
    r.runId = r'.runId
  turns : ∀ t ∈ s.turns, (∃ r ∈ s.runs, r.runId = t.runId ∧ r.outcome = .running) ∧
    ∀ r ∈ s.runs, r.runId = t.runId → r.jobId = t.jobId ∧ r.startedAt = t.startedAt

theorem Inv.pass (h : Inv s past) (ms : ℕ) : Inv (s.pass ms) past where
  fresh := h.fresh
  started := fun r hr => Int.le_trans (h.started r hr) (Int.le_add_of_nonneg_right (Int.natCast_nonneg ms))
  later := h.later
  slots := by
    intro e he t ht
    obtain ⟨hfresh, hclock, hnext⟩ := h.slots e he t ht
    exact ⟨hfresh, Int.le_trans hclock (Int.le_add_of_nonneg_right (Int.natCast_nonneg ms)), hnext⟩
  once := h.once
  own := h.own
  busy := h.busy
  single := h.single
  turns := h.turns

theorem Inv.scans (h : Inv s past) (scans : List Scan) : Inv { s with scans := scans } past :=
  ⟨h.fresh, h.started, h.later, h.slots, h.once, h.own, h.busy, h.single, h.turns⟩

/-- A job is saved whose next slot is in the future. -/
theorem Inv.save (h : Inv s past) (hid : j.id < s.fresh)
    (hnext : ∀ n, j.nextRunAt = some n → s.clock < n) : Inv (s.save j) past where
  fresh := by
    refine ⟨fun k hk => ?_, h.fresh.2⟩
    obtain rfl | ⟨hk, -⟩ := mem_save hk
    · exact hid
    · exact h.fresh.1 k hk
  started := h.started
  later := by
    intro k hk n hn r hr hjob
    obtain rfl | ⟨hk, -⟩ := mem_save hk
    · exact Int.lt_of_le_of_lt (h.started r hr) (hnext n hn)
    · exact h.later k hk n hn r hr hjob
  slots := by
    intro e he t ht
    obtain ⟨hfresh, hclock, hold⟩ := h.slots e he t ht
    refine ⟨hfresh, hclock, fun k hk hjob n hn => ?_⟩
    obtain rfl | ⟨hk, -⟩ := mem_save hk
    · exact Int.lt_of_le_of_lt hclock (hnext n hn)
    · exact hold k hk hjob n hn
  once := h.once
  own := h.own
  busy := h.busy
  single := h.single
  turns := h.turns

/-! ### Runs -/

variable {outcome : Outcome}

theorem Inv.finish (h : Inv s past) {run : UserJobRun} (hover : outcome ≠ .running)
    (hrow : ∃ r ∈ s.runs, r.runId = run.runId ∧ r.outcome = .running)
    (hsame : ∀ r ∈ s.runs, r.runId = run.runId → r.jobId = run.jobId ∧ r.startedAt = run.startedAt)
    (hturns : ∀ t ∈ s.turns, t.runId ≠ run.runId) : Inv (s.finish run outcome) past := by
  set run' : UserJobRun := { run with
    outcome := outcome, finishedAt := s.clock, durationMs := max 0 (s.clock - run.startedAt) }
  set t : State := { s with runs := s.runs.map fun r => if r.runId = run.runId then run' else r }
  obtain ⟨row, hrow, hrowId, hrowRunning⟩ := hrow
  have hcases : ∀ {r : UserJobRun}, r ∈ t.runs → (r = run' ∧ r.runId = run.runId) ∨ (r ∈ s.runs ∧ r.runId ≠ run.runId) := by
    grind
  have hstart := hsame row hrow hrowId
  -- A row that is running now is another one, of another job.
  have hrunning : ∀ {r : UserJobRun}, r ∈ t.runs → r.outcome = .running →
      r ∈ s.runs ∧ r.runId ≠ run.runId ∧ r.jobId ≠ run.jobId := by
    intro r hr hout
    obtain ⟨rfl, -⟩ | ⟨hr, hne⟩ := hcases hr
    · exact absurd hout hover
    · refine ⟨hr, hne, fun hjob => hne ?_⟩
      rw [← hrowId]
      exact h.single r hr row hrow hout hrowRunning (hjob.trans hstart.1.symm)
  have ht : Inv { t with running := s.running.filter (· ≠ run.jobId) } past := by
    constructor
    case fresh =>
      refine ⟨h.fresh.1, fun r hr => ?_⟩
      obtain ⟨rfl, -⟩ | ⟨hr, -⟩ := hcases hr
      · have hfresh := h.fresh.2 row hrow
        rw [hrowId, hstart.1] at hfresh
        exact hfresh
      · exact h.fresh.2 r hr
    case started =>
      intro r hr
      obtain ⟨rfl, -⟩ | ⟨hr, -⟩ := hcases hr
      · have hle := h.started row hrow
        rw [hstart.2] at hle
        exact hle
      · exact h.started r hr
    case later =>
      intro j hj n hn r hr hjob
      obtain ⟨rfl, -⟩ | ⟨hr, -⟩ := hcases hr
      · have hlt := h.later j hj n hn row hrow (hstart.1.trans hjob)
        rw [hstart.2] at hlt
        exact hlt
      · exact h.later j hj n hn r hr hjob
    case slots => exact h.slots
    case once => exact h.once
    case own => exact fun r hr hout => h.own r (hrunning hr hout).1 hout
    case busy =>
      intro r hr hout
      obtain ⟨hr, -, hjob⟩ := hrunning hr hout
      exact (h.busy r hr hout).imp id fun hin => mem_filter.mpr ⟨hin, decide_eq_true hjob⟩
    case single =>
      exact fun r hr r' hr' hout hout' => h.single r (hrunning hr hout).1 r' (hrunning hr' hout').1 hout hout'
    case turns =>
      intro u hu
      obtain ⟨⟨r, hr, hid, hout⟩, hall⟩ := h.turns u hu
      refine ⟨⟨r, mem_map.mpr ⟨r, hr, if_neg ?_⟩, hid, hout⟩, ?_⟩
      · rw [hid]
        exact hturns u hu
      · grind
  unfold State.finish
  dsimp only
  split
  · cases hjob : t.job? run.jobId with
    | none => exact ht
    | some latest =>
      -- The job that is switched off has no next slot.
      exact ht.save (h.fresh.1 latest (job?_some hjob).1) (fun _ hn => (by cases hn))
  · exact ht

/-- A run begins: its job moves on, it has its row, and its job is marked as running. -/
theorem Inv.claim (h : Inv s past) {requestedBy : Option String} {run : UserJobRun}
    (hopen : s.closed = false) (hfree : j.id ∉ s.running)
    (hclaim : s.claim wallOf j requestedBy = some (s', run)) :
    Inv { s' with running := j.id :: s'.running } past ∧
      run.runId = s.fresh ∧ run.jobId = j.id ∧ run.startedAt = s.clock ∧ s'.clock = s.clock ∧ s'.fresh = s.fresh + 1 ∧
      s'.turns = s.turns ∧
      (∃ r ∈ s'.runs, r.runId = run.runId ∧ r.outcome = .running) ∧
      (∀ r ∈ s'.runs, r.runId = run.runId → r.jobId = run.jobId ∧ r.startedAt = run.startedAt) ∧
      ∀ k ∈ s'.jobs, k.id = j.id → ∀ n, k.nextRunAt = some n → s.clock < n := by
  unfold State.claim at hclaim
  dsimp only at hclaim
  split at hclaim
  · cases hclaim
  next latest hlatest =>
    obtain ⟨hmem, hid⟩ := job?_some hlatest
    cases hclaim
    set job : Job := { latest with nextRunAt := State.nextOf wallOf latest s.clock }
    set row : UserJobRun := ⟨s.fresh, j.id, j.agentId, j.runAs, requestedBy, s.clock, s.clock, 0, .running⟩
    have hnext : ∀ n, job.nextRunAt = some n → s.clock < n := fun n hn => lt_of_nextOf hn
    have hs : Inv (s.save job) past := h.save (j := job) (h.fresh.1 latest hmem) hnext
    have hnew : ∀ r ∈ s.runs, r.runId ≠ row.runId := by
      intro r hr
      exact Nat.ne_of_lt (h.fresh.2 r hr).1
    -- No row of this job is running.
    have hidle : ∀ r ∈ s.runs, r.outcome = .running → r.jobId ≠ j.id := by
      intro r hr hout heq
      obtain hclosed | hin := h.busy r hr hout
      · rw [hopen] at hclosed
        cases hclosed
      · rw [heq] at hin
        exact hfree hin
    have hcases : ∀ {r : UserJobRun}, r ∈ s.runs ++ [row] → r ∈ s.runs ∨ r = row := by simp_all
    refine ⟨?_, rfl, rfl, rfl, rfl, rfl, rfl, ?_, ?_, ?_⟩
    · constructor
      case fresh =>
        refine ⟨fun k hk => Nat.lt_succ_of_lt (hs.fresh.1 k hk), fun r hr => ?_⟩
        obtain hr | rfl := hcases hr
        · exact ⟨Nat.lt_succ_of_lt (h.fresh.2 r hr).1, Nat.lt_succ_of_lt (h.fresh.2 r hr).2⟩
        · refine ⟨Nat.lt_succ_self _, Nat.lt_succ_of_lt ?_⟩
          show j.id < s.fresh
          rw [← hid]
          exact h.fresh.1 latest hmem
      case started =>
        intro r hr
        obtain hr | rfl := hcases hr
        · exact h.started r hr
        · exact Int.le_refl _
      case later =>
        intro k hk n hn r hr hjob
        obtain hr | rfl := hcases hr
        · exact hs.later k hk n hn r hr hjob
        · obtain rfl | ⟨-, hne⟩ := mem_save hk
          · exact hnext n hn
          · exact absurd (hjob.symm.trans hid.symm) hne
      case slots =>
        intro e he t ht
        obtain ⟨hfresh, hrest⟩ := hs.slots e he t ht
        exact ⟨Nat.lt_succ_of_lt hfresh, hrest⟩
      case once => exact h.once
      case own =>
        intro r hr hout
        obtain hr | rfl := hcases hr
        · exact mem_cons_of_mem _ (h.own r hr hout)
        · exact mem_cons_self ..
      case busy =>
        intro r hr hout
        obtain hr | rfl := hcases hr
        · exact (h.busy r hr hout).imp id fun hin => mem_cons_of_mem _ hin
        · exact .inr (mem_cons_self ..)
      case single =>
        intro r hr r' hr' hout hout' hjob
        obtain hr₀ | rfl := hcases hr
        · obtain hr₁ | rfl := hcases hr'
          · exact h.single r hr₀ r' hr₁ hout hout' hjob
          · exact absurd hjob (hidle r hr₀ hout)
        · obtain hr₁ | rfl := hcases hr'
          · exact absurd hjob.symm (hidle r' hr₁ hout')
          · rfl
      case turns =>
        intro t ht
        obtain ⟨⟨r, hr, hrid, hout⟩, hall⟩ := h.turns t ht
        refine ⟨⟨r, mem_append_left _ hr, hrid, hout⟩, fun r' hr' hrid' => ?_⟩
        obtain hr' | rfl := hcases hr'
        · exact hall r' hr' hrid'
        · exact absurd (hrid.trans hrid'.symm) (hnew r hr)
    · exact ⟨row, mem_append_right _ (mem_singleton_self _), rfl, rfl⟩
    · intro r hr hrid
      obtain hr | rfl := hcases hr
      · exact absurd hrid (hnew r hr)
      · exact ⟨rfl, rfl⟩
    · intro k hk hkid n hn
      obtain rfl | ⟨-, hne⟩ := mem_save hk
      · exact hnext n hn
      · exact absurd (hkid.trans hid.symm) hne

/-- A run that began is put on record. -/
theorem Inv.record (h : Inv s past) {e : Event} (hfresh : e.jobId < s.fresh)
    (hnew : ∀ t, e.slot = some t → (∀ e' ∈ past, e'.jobId = e.jobId → e'.slot ≠ some t) ∧ t ≤ s.clock ∧
      ∀ j ∈ s.jobs, j.id = e.jobId → ∀ n, j.nextRunAt = some n → t < n) : Inv s (past ++ [e]) := by
  refine ⟨h.fresh, h.started, h.later, ?_, ?_, h.own, h.busy, h.single, h.turns⟩
  · intro e' he' t ht
    obtain hold | hlast := mem_append.mp he'
    · exact h.slots e' hold t ht
    · obtain rfl := mem_singleton.mp hlast
      exact ⟨hfresh, (hnew t ht).2⟩
  · rw [filterMap_append]
    refine nodup_append.mpr ⟨h.once, ?_, ?_⟩
    · grind
    · intro key hkey key' hkey' heq
      subst heq
      obtain ⟨e', he', hk'⟩ := mem_filterMap.mp hkey
      obtain ⟨e'', he'', hk''⟩ := mem_filterMap.mp hkey'
      obtain rfl := mem_singleton.mp he''
      obtain ⟨t, ht, rfl⟩ := map_eq_some_iff.mp hk''
      obtain ⟨t', ht', heq⟩ := map_eq_some_iff.mp hk'
      obtain ⟨hjob, rfl⟩ := Prod.mk.inj heq
      exact (hnew t' ht).1 e' he' hjob ht'

/-- Whom a turn is submitted for. -/
def Granted (s : State) (env : Env) (e : Event) : Prop :=
  ∀ person, e.submitted = some person → ∃ j ∈ s.jobs, j.id = e.jobId ∧ person.userId = j.runAs ∧ person.isPerson = true ∧
    env.resolve j.runAs = some person ∧ env.authorize person j.agentId = true

theorem admitRun_inr {person : Principal} (h : State.admitRun env j = .inr person) :
    person.userId = j.runAs ∧ person.isPerson = true ∧ env.resolve j.runAs = some person ∧
      env.authorize person j.agentId = true := by
  unfold State.admitRun at h
  split at h
  · cases h
  · split at h
    · cases h
    · split at h
      · cases h
      next person' hperson => grind

theorem admitRun_inl (h : State.admitRun env j = .inl outcome) : outcome ≠ .running := by
  grind [State.admitRun]

theorem Inv.executeRun (h : Inv s past) {j : Job} {requestedBy : Option String} {slot : Option ℤ} (hopen : s.closed = false)
    (hj : j ∈ s.jobs) (hslot : ∀ t, slot = some t → j.nextRunAt = some t ∧ t ≤ s.clock) :
    ((s.executeRun wallOf env j requestedBy slot).2 = none ∧ Inv (s.executeRun wallOf env j requestedBy slot).1 past) ∨
      ∃ runId e, (s.executeRun wallOf env j requestedBy slot).2 = some (runId, e) ∧
        Inv (s.executeRun wallOf env j requestedBy slot).1 (past ++ [e]) ∧ Granted s env e := by
  unfold State.executeRun
  split
  · exact .inl ⟨rfl, h⟩
  next hfree =>
    dsimp only
    have hpass := h.pass env.delay
    split
    · exact .inl ⟨rfl, hpass⟩
    · split
      · exact .inl ⟨rfl, hpass⟩
      next s' run hclaim =>
        right
        obtain ⟨hinv, hid, hjob, hstarted, hclock, hfresh, hturns, hrow, hsame, hnext⟩ :=
          hpass.claim (s := s.pass env.delay) hopen hfree hclaim
        -- The slot was the next one of the job, so no run was begun for it.
        have hrecord : ∀ submitted, Inv { s' with running := j.id :: s'.running }
            (past ++ [⟨j.id, slot, run.startedAt, submitted⟩]) := by
          intro submitted
          refine hinv.record ?_ ?_
          · show j.id < s'.fresh
            rw [hfresh]
            exact Nat.lt_succ_of_lt (h.fresh.1 j hj)
          · intro t ht
            obtain ⟨hnow, hle⟩ := hslot t ht
            have hle' : t ≤ (s.pass env.delay).clock :=
              Int.le_trans hle (Int.le_add_of_nonneg_right (Int.natCast_nonneg env.delay))
            refine ⟨?_, ?_, ?_⟩
            · intro e he hid' hslot'
              obtain ⟨-, -, hlt⟩ := h.slots e he t hslot'
              exact absurd (hlt j hj hid'.symm t hnow) (Int.lt_irrefl t)
            · show t ≤ s'.clock
              rw [hclock]
              exact hle'
            · exact fun k hk hkid n hn => Int.lt_of_le_of_lt hle' (hnext k hk hkid n hn)
        have hother : ∀ t ∈ s'.turns, t.runId ≠ run.runId := by
          intro t ht
          rw [hturns] at ht
          obtain ⟨⟨r, hr, hrid, -⟩, -⟩ := h.turns t ht
          rw [hid, ← hrid]
          exact Nat.ne_of_lt (h.fresh.2 r hr).1
        split
        next outcome hadmit =>
          refine ⟨run.runId, _, rfl, ?_, fun _ hno => (by cases hno)⟩
          exact ((hrecord none).pass env.after).finish (admitRun_inl hadmit) hrow hsame hother
        next person hadmit =>
          refine ⟨run.runId, _, rfl, ?_, ?_⟩
          · have hr := hrecord (some person)
            refine ⟨hr.fresh, hr.started, hr.later, hr.slots, hr.once, hr.own, hr.busy, hr.single, ?_⟩
            intro t ht
            obtain hold | hlast := mem_append.mp ht
            · exact hr.turns t hold
            · obtain rfl := mem_singleton.mp hlast
              exact ⟨hrow, hsame⟩
          · intro person' hperson'
            cases hperson'
            exact ⟨j, hj, rfl, admitRun_inr hadmit⟩

/-! ### Every step -/

theorem TurnOutcome.outcome_ne (outcome : TurnOutcome) : outcome.outcome ≠ .running := by
  cases outcome <;> decide

theorem Inv.complete (h : Inv s past) (runId : ℕ) (outcome : TurnOutcome) : Inv (s.complete runId outcome) past := by
  unfold State.complete
  split
  · exact h
  next run hrun =>
    have hmem : run ∈ s.turns := mem_of_find?_eq_some hrun
    have hid : run.runId = runId := by simpa using List.find?_some hrun
    obtain ⟨hrow, hsame⟩ := h.turns run hmem
    have hfilter : Inv { s with turns := s.turns.filter (·.runId ≠ runId) } past :=
      ⟨h.fresh, h.started, h.later, h.slots, h.once, h.own, h.busy, h.single,
        fun t ht => h.turns t (mem_filter.mp ht).1⟩
    dsimp only
    split
    next hclosed =>
      exact ⟨h.fresh, h.started, h.later, h.slots, h.once, h.own, fun r hr hout => .inl hclosed, h.single,
        hfilter.turns⟩
    · refine hfilter.finish outcome.outcome_ne hrow hsame ?_
      intro t ht
      rw [hid]
      exact of_decide_eq_true (mem_filter.mp ht).2

theorem Inv.create (h : Inv s past) (given : State.Given) (caller : String) (accepted : Bool) :
    Inv (s.create wallOf env given caller accepted) past := by
  unfold State.create
  split
  · exact h
  · have hp := h.pass env.delay
    have hfresh : Inv { s.pass env.delay with fresh := (s.pass env.delay).fresh + 1 } past := by
      refine ⟨⟨fun j hj => Nat.lt_succ_of_lt (hp.fresh.1 j hj), fun r hr => ?_⟩, hp.started, hp.later, ?_, hp.once, hp.own,
        hp.busy, hp.single, hp.turns⟩
      · exact ⟨Nat.lt_succ_of_lt (hp.fresh.2 r hr).1, Nat.lt_succ_of_lt (hp.fresh.2 r hr).2⟩
      · intro e he t ht
        obtain ⟨hlt, hrest⟩ := hp.slots e he t ht
        exact ⟨Nat.lt_succ_of_lt hlt, hrest⟩
    exact hfresh.save (Nat.lt_succ_self _) (fun n hn => lt_of_nextOf hn)

theorem Inv.update (h : Inv s past) (id : ℕ) (given : State.Given) (caller : String) (accepted : Bool) :
    Inv (s.update wallOf env id given caller accepted) past := by
  unfold State.update
  split
  · exact h
  · split
    · exact h
    next old hold =>
      exact (h.pass env.delay).save (h.fresh.1 old (job?_some hold).1) (fun n hn => lt_of_nextOf hn)

theorem Inv.delete (h : Inv s past) (id : ℕ) (accepted : Bool) : Inv (s.delete env id accepted) past := by
  unfold State.delete
  split
  · exact h
  · refine ⟨⟨fun j hj => h.fresh.1 j (mem_filter.mp hj).1, h.fresh.2⟩, h.started,
      fun j hj => h.later j (mem_filter.mp hj).1, ?_, h.once, h.own, h.busy, h.single, h.turns⟩
    intro e he t ht
    obtain ⟨hfresh, hclock, hnext⟩ := h.slots e he t ht
    exact ⟨hfresh, hclock, fun j hj => hnext j (mem_filter.mp hj).1⟩

/-- No row is running when a process starts. -/
theorem Inv.restart (h : Inv s past) : Inv s.restart past := by
  have hcases : ∀ {r : UserJobRun}, r ∈ s.restart.runs → ∃ r₀ ∈ s.runs, r.runId = r₀.runId ∧ r.jobId = r₀.jobId ∧
      r.startedAt = r₀.startedAt ∧ r.outcome ≠ .running := by
    intro r hr
    obtain ⟨r₀, hr₀, rfl⟩ := mem_map.mp hr
    refine ⟨r₀, hr₀, ?_⟩
    split
    · exact ⟨rfl, rfl, rfl, fun hno => (by cases hno)⟩
    next hover => exact ⟨rfl, rfl, rfl, hover⟩
  have hnone : ∀ {r : UserJobRun}, r ∈ s.restart.runs → r.outcome = .running → False := by
    intro r hr hout
    obtain ⟨-, -, -, -, -, hno⟩ := hcases hr
    exact hno hout
  constructor
  case fresh =>
    refine ⟨h.fresh.1, fun r hr => ?_⟩
    obtain ⟨r₀, hr₀, hid, hjob, -⟩ := hcases hr
    rw [hid, hjob]
    exact h.fresh.2 r₀ hr₀
  case started =>
    intro r hr
    obtain ⟨r₀, hr₀, -, -, hstart, -⟩ := hcases hr
    rw [hstart]
    exact h.started r₀ hr₀
  case later =>
    intro j hj n hn r hr hjob
    obtain ⟨r₀, hr₀, -, hjob₀, hstart, -⟩ := hcases hr
    rw [hstart]
    exact h.later j hj n hn r₀ hr₀ (hjob₀.symm.trans hjob)
  case slots => exact h.slots
  case once => exact h.once
  case own => exact fun r hr hout => (hnone hr hout).elim
  case busy => exact fun r hr hout => (hnone hr hout).elim
  case single => exact fun r hr _ _ hout => (hnone hr hout).elim
  case turns => exact fun t ht => (by cases ht)

theorem Inv.scanNext (h : Inv s past) (k : ℕ) :
    Inv (s.scanNext wallOf env k).1 (past ++ (s.scanNext wallOf env k).2.toList) ∧
      ∀ e, (s.scanNext wallOf env k).2 = some e → Granted s env e := by
  have hskip : ∀ {scans : List Scan}, Inv { s with scans := scans } (past ++ (none : Option Event).toList) ∧
      ∀ e : Event, none = some e → Granted s env e := by
    intro scans
    rw [toList_none, append_nil]
    exact ⟨h.scans scans, fun _ hno => (by cases hno)⟩
  unfold State.scanNext
  split
  · exact hskip
  next scan _ =>
    split
    · exact hskip
    · split
      · exact hskip
      next snapshot due _ =>
        split
        · exact hskip
        next hopen =>
          split
          · exact hskip
          · split
            · exact hskip
            next current hcurrent =>
              split
              next hdue =>
                have hopen' : s.closed = false := by
                  simp only [Bool.or_eq_true, not_or, Bool.not_eq_true] at hopen
                  exact hopen.1
                have hslot : ∀ t, current.nextRunAt = some t → current.nextRunAt = some t ∧ t ≤ s.clock := by grind
                obtain ⟨hnone, hinv⟩ | ⟨runId, e, hsome, hinv, hgranted⟩ :=
                  @Inv.executeRun wallOf env s past h current none current.nextRunAt hopen' (job?_some hcurrent).1 hslot
                · split
                  next s' hs' =>
                    rw [hs'] at hinv
                    rw [toList_none, append_nil]
                    exact ⟨hinv.scans _, fun _ hno => (by cases hno)⟩
                  next s' runId e hs' =>
                    rw [hs'] at hnone
                    cases hnone
                · split
                  next s' hs' =>
                    rw [hs'] at hsome
                    cases hsome
                  next s' runId' e' hs' =>
                    rw [hs'] at hsome hinv
                    cases hsome
                    refine ⟨hinv.scans _, fun _ he => ?_⟩
                    cases he
                    exact hgranted
              · exact hskip

theorem Inv.run (h : Inv s past) (id : ℕ) (caller : String) (allowed : Bool) :
    Inv (s.run wallOf env id caller allowed).1 (past ++ (s.run wallOf env id caller allowed).2.toList) ∧
      ∀ e, (s.run wallOf env id caller allowed).2 = some e → Granted s env e := by
  have hskip : Inv s (past ++ (none : Option Event).toList) ∧ ∀ e : Event, none = some e → Granted s env e := by
    rw [toList_none, append_nil]
    exact ⟨h, fun _ hno => (by cases hno)⟩
  unfold State.run
  split
  · exact hskip
  next hopen =>
    split
    · exact hskip
    next j hj =>
      split
      · exact hskip
      · obtain ⟨hnone, hinv⟩ | ⟨runId, e, hsome, hinv, hgranted⟩ :=
          @Inv.executeRun wallOf env s past h j (some caller) none (Bool.eq_false_iff.mpr hopen) (job?_some hj).1
            (fun _ hno => (by cases hno))
        · dsimp only
          rw [hnone, map_none, toList_none, append_nil]
          exact ⟨hinv, fun _ hno => (by cases hno)⟩
        · dsimp only
          rw [hsome, map_some]
          refine ⟨hinv, fun _ he => ?_⟩
          cases he
          exact hgranted

theorem Inv.step (h : Inv s past) (env : Env) (step : Step) :
    Inv (s.step wallOf env step).1 (past ++ (s.step wallOf env step).2.toList) ∧
      ∀ e, (s.step wallOf env step).2 = some e → Granted s env e := by
  have hp := h.pass env.wait
  have hplain : ∀ {s' : State}, Inv s' past → Inv s' (past ++ (none : Option Event).toList) ∧
      ∀ e : Event, none = some e → Granted s env e := by
    intro s' hs'
    rw [toList_none, append_nil]
    exact ⟨hs', fun _ hno => (by cases hno)⟩
  cases step with
  | create given caller accepted => exact hplain (hp.create given caller accepted)
  | update id given caller accepted => exact hplain (hp.update id given caller accepted)
  | delete id accepted => exact hplain (hp.delete id accepted)
  | tick =>
    refine hplain ?_
    show Inv ((s.pass env.wait).tick env) past
    unfold State.tick
    split
    · exact hp
    · exact hp.scans _
  | scanNext k => exact hp.scanNext k
  | run id caller allowed => exact hp.run id caller allowed
  | complete runId outcome => exact hplain (hp.complete runId outcome)
  | close =>
    refine hplain ⟨hp.fresh, hp.started, hp.later, hp.slots, hp.once, hp.own, fun _ _ _ => .inl rfl, hp.single, hp.turns⟩
  | restart => exact hplain hp.restart

theorem Inv.init : Inv {} [] := by
  refine ⟨⟨?_, ?_⟩, ?_, ?_, ?_, nodup_nil, ?_, ?_, ?_, ?_⟩
  all_goals intros
  all_goals contradiction

theorem inv_after (wallOf : ℤ → String → Wall) (steps : List (Env × Step)) :
    Inv (State.after wallOf {} steps).1 (State.after wallOf {} steps).2 := by
  unfold State.after
  refine List.foldlRecOn (motive := fun (p : State × List Event) => Inv p.1 p.2) steps _ Inv.init ?_
  intro p hp q _
  exact (hp.step q.1 q.2).1

/-! ### What is promised -/

/-- What holds of the jobs, the runs and what was begun so far. -/
structure Orderly (s : State) (past : List Event) : Prop where
  /-- No job has two runs that are not over. -/
  alone : ∀ r ∈ s.runs, ∀ r' ∈ s.runs, r.outcome = .running → r'.outcome = .running → r.jobId = r'.jobId →
    r.runId = r'.runId
  /-- A slot of a job is begun once. -/
  once : (past.filterMap Event.key).Nodup
  /-- The next slot of a job is after the start of every run of it. -/
  next : ∀ j ∈ s.jobs, j.enabled = true → ∀ n, j.nextRunAt = some n → ∀ r ∈ s.runs, r.jobId = j.id → r.startedAt < n
  /-- A run that another process began is over. -/
  ended : ∀ r ∈ s.runs, r.runId ∉ s.own → r.outcome ≠ .running

/-- In every state the jobs are in order, and whatever step comes next, a turn is submitted only for
the person that its job is stored for, who was found and allowed to use the agent in that step. -/
theorem jobs_run_once (wallOf : ℤ → String → Wall) (steps : List (Env × Step)) :
    Orderly (State.after wallOf {} steps).1 (State.after wallOf {} steps).2 ∧
      ∀ (env : Env) (step : Step) (e : Event),
        ((State.after wallOf {} steps).1.step wallOf env step).2 = some e →
          Granted (State.after wallOf {} steps).1 env e := by
  have h := inv_after wallOf steps
  refine ⟨⟨h.single, h.once, fun j hj _ => h.later j hj, ?_⟩, fun env step => (h.step env step).2⟩
  intro r hr hown hout
  exact hown (h.own r hr hout)

/-- A job of a person is created and run: the turn is submitted for them. -/
theorem jobs_run_once_of_create :
    let env : Env := ⟨1, 0, 0, false, true, false, fun id => some ⟨id, true⟩, fun _ => true, fun _ _ => true,
      fun _ _ _ => true, fun _ => false⟩
    let given : State.Given := ⟨"agent", none, ⟨[0], [0], [1], [1], [0], false, false⟩, "UTC", true⟩
    let s := (State.after (fun _ _ => ⟨1970, 1, 1, 0, 0⟩) {} [(env, .create given "ann" true)]).1
    Granted s env ⟨0, none, 2, some ⟨"ann", true⟩⟩ :=
  (jobs_run_once _ _).2 _ (.run 0 "bob" true) _ rfl

end Plur1bus.Jobs
