import Mathlib.Data.List.Nodup
import Plur1bus.Collab.Chains

/-!
When the end of a task is final. Every write but one leaves an ended task as it
is: a run is started only while its task is open, a run that fails after its
task was cancelled finds its chain aborted and records a cancellation again, a
part of an answer is recorded as a cancellation, and a sweep over a trace
touches open tasks only. The one that does not look is the complete answer: it
is recorded whatever became of the task meanwhile, and whatever became of its
trace.
-/

namespace Plur1bus.Collab

open List

variable {env : Env} {w w' : World}

/-! ### What is kept -/

/-- The trace was finished as cancelled. -/
def World.cancelledTrace (w : World) (traceId : String) : Prop :=
  ∃ t ∈ w.traces, t.traceId = traceId ∧ t.status = .cancelled ∧ t.endedAt ≠ none

/-- Ended tasks stay as they ended, finished traces stay cancelled, and no task
of a cancelled trace comes to succeed. -/
structure Final (w w' : World) : Prop where
  tasks : ∀ t ∈ w.tasks, ∃ t' ∈ w'.tasks, t'.id = t.id ∧ t'.traceId = t.traceId ∧
    (t.isOpen = false → t'.status = t.status)
  succeeded : ∀ t' ∈ w'.tasks, t'.status = .succeeded →
    (∃ t ∈ w.tasks, t.id = t'.id ∧ t.traceId = t'.traceId ∧ t.status = .succeeded) ∨
      ¬w.cancelledTrace t'.traceId
  traces : ∀ traceId, w.cancelledTrace traceId → w'.cancelledTrace traceId

namespace Final

/-- Where the tasks are the same rows and no cancelled trace is touched. -/
theorem of_tasks_eq (htasks : w'.tasks = w.tasks)
    (htraces : ∀ traceId, w.cancelledTrace traceId → w'.cancelledTrace traceId) : Final w w' where
  tasks t ht := ⟨t, htasks ▸ ht, rfl, rfl, fun _ => rfl⟩
  succeeded t' ht' hs := .inl ⟨t', htasks ▸ ht', rfl, rfl, hs⟩
  traces := htraces

theorem of_eq (htasks : w'.tasks = w.tasks) (htraces : w'.traces = w.traces) : Final w w' :=
  of_tasks_eq htasks fun traceId h => by rwa [World.cancelledTrace, htraces]

theorem refl (w : World) : Final w w := of_eq rfl rfl

theorem trans {a b c : World} (hab : Final a b) (hbc : Final b c) : Final a c where
  tasks t ht := by
    obtain ⟨t', ht', hid, htrace, hstatus⟩ := hab.tasks t ht
    obtain ⟨t'', ht'', hid', htrace', hstatus'⟩ := hbc.tasks t' ht'
    refine ⟨t'', ht'', hid'.trans hid, htrace'.trans htrace, fun hended => ?_⟩
    have hsame := hstatus hended
    have hended' : t'.isOpen = false := by simpa [TaskRow.isOpen, hsame] using hended
    rw [hstatus' hended', hsame]
  succeeded t'' ht'' hs := by
    rcases hbc.succeeded t'' ht'' hs with ⟨t', ht', hid, htrace, hs'⟩ | hnot
    · rcases hab.succeeded t' ht' hs' with ⟨t, ht, hid', htrace', hs''⟩ | hnot
      · exact .inl ⟨t, ht, hid'.trans hid, htrace'.trans htrace, hs''⟩
      · exact .inr (htrace ▸ hnot)
    · exact .inr fun hcancelled => hnot (hab.traces _ hcancelled)
  traces traceId h := hbc.traces _ (hab.traces _ h)

/-- Rows rewritten one by one. -/
theorem of_map {f : TaskRow → TaskRow} (htasks : w'.tasks = w.tasks.map f)
    (htraces : w'.traces = w.traces) (hid : ∀ t, (f t).id = t.id)
    (htrace : ∀ t, (f t).traceId = t.traceId)
    (hkeep : ∀ t ∈ w.tasks, t.isOpen = false → (f t).status = t.status)
    (hnew : ∀ t ∈ w.tasks, (f t).status = .succeeded → t.status = .succeeded ∨
      ¬w.cancelledTrace t.traceId) : Final w w' where
  tasks t ht := ⟨f t, htasks ▸ mem_map_of_mem ht, hid t, htrace t, hkeep t ht⟩
  succeeded t' ht' hs := by
    rw [htasks] at ht'
    obtain ⟨t, ht, rfl⟩ := mem_map.mp ht'
    rcases hnew t ht hs with hsame | hnot
    · exact .inl ⟨t, ht, (hid t).symm, (htrace t).symm, hsame⟩
    · exact .inr (by rwa [htrace])
  traces traceId h := by rwa [World.cancelledTrace, htraces]

theorem cancelOpenTasks (env : Env) (traceId : String) : Final w (w.cancelOpenTasks env traceId) := by
  refine of_map rfl rfl (fun t => ?_) (fun t => ?_) (fun t _ hended => ?_) fun t _ hs => ?_
  · split <;> rfl
  · split <;> rfl
  · rw [if_neg (by simp [hended])]
  · split at hs
    · cases hs
    · exact .inl hs

/-- A sweep over a trace: its open tasks and its running spans. -/
theorem sweep (env : Env) (traceId error : String) :
    Final w ((w.cancelOpenTasks env traceId).cancelSpans env traceId error) :=
  (cancelOpenTasks env traceId).trans (of_eq rfl rfl)

theorem updateTask (env : Env) {id : String} {p : TaskPatch}
    (hkeep : ∀ t ∈ w.tasks, t.id = id → t.isOpen = false → p.status = t.status)
    (hnew : ∀ t ∈ w.tasks, t.id = id → p.status = .succeeded → ¬w.cancelledTrace t.traceId) :
    Final w (w.updateTask env id p) := by
  refine of_map rfl rfl (fun t => ?_) (fun t => ?_) (fun t ht hended => ?_) fun t ht hs => ?_
  · split <;> rfl
  · split <;> rfl
  · split
    · exact hkeep t ht ‹_› hended
    · rfl
  · split at hs
    · exact .inr (hnew t ht ‹_› hs)
    · exact .inl hs

/-- Finishing a trace that was not finished. -/
theorem finishTrace {traceId : String} {status : SpanStatus}
    (h : ∀ t ∈ w.traces, t.traceId = traceId → t.endedAt = none) :
    Final w (w.finishTrace env traceId status) := by
  refine of_tasks_eq rfl fun T => ?_
  rintro ⟨t, ht, hT, hstatus, hended⟩
  have hne : t.traceId ≠ traceId := fun heq => hended (h t ht heq)
  exact ⟨t, mem_map.mpr ⟨t, ht, if_neg hne⟩, hT, hstatus, hended⟩

end Final

/-! ### The runs and their tasks -/

/-- Every run has its chain, and every delegation a task of its own that is
open, or cancelled with its chain aborted. The task of the run that is
`leaving` may already have ended; while the store is `closing` a chain need not
be aborted yet. -/
structure Sound (leaving : Option ℕ) (closing : Prop) (w : World) : Prop where
  taskIds : (w.tasks.map (·.id)).Nodup
  traceIds : (w.traces.map (·.traceId)).Nodup
  chainTrace : ∀ c ∈ w.chains, ∃ t ∈ w.traces, t.traceId = c.traceId
  ended : ∀ c ∈ w.chains, ∀ t ∈ w.traces, t.traceId = c.traceId → t.endedAt ≠ none → c.ended = true
  runChain : ∀ r ∈ w.runs, ∃ c ∈ w.chains, c.traceId = r.traceId
  oneRun : ∀ r ∈ w.runs, ∀ o ∈ w.runs, ∀ id, r.task = some id → o.task = some id →
    r.controller = o.controller
  runTask : ∀ r ∈ w.runs, ∀ id, r.task = some id → ∃ t ∈ w.tasks, t.id = id ∧
    t.traceId = r.traceId ∧ (some r.controller = leaving ∨ t.isOpen = true ∨
      t.status = .cancelled ∧ (closing ∨ w.chainAborted r.traceId = true))

namespace Sound

variable {leaving : Option ℕ} {closing : Prop}

/-- Tables and runs that are the same, under chains that abort no less. -/
theorem congr (h : Sound leaving closing w) (htasks : w'.tasks = w.tasks)
    (htraces : w'.traces = w.traces) (hruns : w'.runs = w.runs)
    (hchains : w'.chains = w.chains) : Sound leaving closing w' := by
  have haborted : ∀ T, w'.chainAborted T = w.chainAborted T := by
    intro T
    unfold World.chainAborted
    rw [hchains]
  obtain ⟨taskIds, traceIds, chainTrace, ended, runChain, oneRun, runTask⟩ := h
  constructor <;> simpa only [htasks, htraces, hruns, hchains, haborted]

theorem weaken (h : Sound none closing w) (leaving : Option ℕ) : Sound leaving closing w := by
  refine ⟨h.taskIds, h.traceIds, h.chainTrace, h.ended, h.runChain, h.oneRun, fun r hr id hid => ?_⟩
  obtain ⟨t, ht, htid, htrace, hstate⟩ := h.runTask r hr id hid
  exact ⟨t, ht, htid, htrace, .inr (hstate.resolve_left nofun)⟩

theorem chainAborted_iff {T : String} :
    w.chainAborted T = true ↔ ∃ c ∈ w.chains, c.traceId = T ∧ c.aborted = true := by
  simp [World.chainAborted]

/-- Chains that are changed keep their trace, and are aborted or ended no less. -/
theorem mapChains (h : Sound leaving closing w) {g : Chain → Chain}
    (hchains : w'.chains = w.chains.map g) (htasks : w'.tasks = w.tasks)
    (htraces : w'.traces = w.traces) (hruns : w'.runs = w.runs)
    (htrace : ∀ c, (g c).traceId = c.traceId) (hended : ∀ c, c.ended = true → (g c).ended = true)
    (haborted : ∀ c, c.aborted = true → (g c).aborted = true) : Sound leaving closing w' := by
  refine ⟨htasks ▸ h.taskIds, htraces ▸ h.traceIds, fun c' hc' => ?_, fun c' hc' t ht htc hne => ?_,
    fun r hr => ?_, hruns ▸ h.oneRun, fun r hr id hid => ?_⟩
  · rw [hchains] at hc'
    obtain ⟨c, hc, rfl⟩ := mem_map.mp hc'
    rw [htrace, htraces]
    exact h.chainTrace c hc
  · rw [hchains] at hc'
    rw [htraces] at ht
    obtain ⟨c, hc, rfl⟩ := mem_map.mp hc'
    exact hended c (h.ended c hc t ht (htc.trans (htrace c)) hne)
  · rw [hruns] at hr
    obtain ⟨c, hc, hT⟩ := h.runChain r hr
    exact ⟨g c, hchains ▸ mem_map_of_mem hc, (htrace c).trans hT⟩
  · rw [hruns] at hr
    obtain ⟨t, ht, htid, htr, hstate⟩ := h.runTask r hr id hid
    refine ⟨t, htasks ▸ ht, htid, htr, hstate.imp_right (Or.imp_right fun ⟨hs, hclosing⟩ =>
      ⟨hs, hclosing.imp_right fun hab => ?_⟩)⟩
    obtain ⟨c, hc, hT, hcab⟩ := chainAborted_iff.mp hab
    exact chainAborted_iff.mpr
      ⟨g c, hchains ▸ mem_map_of_mem hc, (htrace c).trans hT, haborted c hcab⟩

variable {traceId : String} {f : Chain → Chain}

theorem mem_setChain {c' : Chain} : c' ∈ (w.setChain traceId f).chains ↔
      ∃ c ∈ w.chains, (if c.traceId = traceId then f c else c) = c' := by
  simp [World.setChain]

theorem setChain (h : Sound leaving closing w) (htrace : ∀ c, (f c).traceId = c.traceId)
    (hended : ∀ c, c.ended = true → (f c).ended = true)
    (haborted : ∀ c, c.aborted = true → (f c).aborted = true) :
    Sound leaving closing (w.setChain traceId f) := by
  refine h.mapChains rfl rfl rfl rfl (fun c => ?_) (fun c => ?_) fun c => ?_
  · split
    · exact htrace c
    · rfl
  · split
    · exact hended c
    · exact id
  · split
    · exact haborted c
    · exact id

/-- A task that is rewritten keeps its id and its trace; an open one ends only
for the run that leaves, or by being cancelled with its chain. -/
theorem mapTasks (h : Sound leaving closing w) {f : TaskRow → TaskRow}
    (htasks : w'.tasks = w.tasks.map f) (htraces : w'.traces = w.traces)
    (hruns : w'.runs = w.runs) (hchains : w'.chains = w.chains) (hid : ∀ t, (f t).id = t.id)
    (htrace : ∀ t, (f t).traceId = t.traceId)
    (hstep : ∀ r ∈ w.runs, ∀ t ∈ w.tasks, r.task = some t.id → t.traceId = r.traceId →
      some r.controller ≠ leaving →
      (t.isOpen = true ∨ t.status = .cancelled ∧ (closing ∨ w.chainAborted r.traceId = true)) →
      (f t).isOpen = true ∨ (f t).status = .cancelled ∧ (closing ∨ w.chainAborted r.traceId = true)) :
    Sound leaving closing w' := by
  have hids : w'.tasks.map (·.id) = w.tasks.map (·.id) := by
    rw [htasks, List.map_map]
    exact map_congr_left fun t _ => hid t
  have haborted : ∀ T, w'.chainAborted T = w.chainAborted T := by
    intro T
    unfold World.chainAborted
    rw [hchains]
  refine ⟨hids ▸ h.taskIds, htraces ▸ h.traceIds, hchains ▸ htraces ▸ h.chainTrace,
    hchains ▸ htraces ▸ h.ended, hruns ▸ hchains ▸ h.runChain, hruns ▸ h.oneRun,
    fun r hr id hrid => ?_⟩
  rw [hruns] at hr
  obtain ⟨t, ht, rfl, htr, hstate⟩ := h.runTask r hr id hrid
  refine ⟨f t, htasks ▸ mem_map_of_mem ht, hid t, (htrace t).trans htr, ?_⟩
  rw [haborted]
  by_cases hleaving : some r.controller = leaving
  · exact .inl hleaving
  · exact .inr (hstep r hr t ht hrid htr hleaving (hstate.resolve_left hleaving))

theorem cancelOpenTasks (h : Sound leaving closing w) (env : Env)
    (hsweep : ∀ r ∈ w.runs, r.traceId = traceId → closing ∨ w.chainAborted traceId = true) :
    Sound leaving closing (w.cancelOpenTasks env traceId) := by
  refine h.mapTasks rfl rfl rfl rfl (fun t => ?_) (fun t => ?_) fun r hr t _ _ htr _ hstate => ?_
  · split <;> rfl
  · split <;> rfl
  · split
    · rename_i hin
      have hT : r.traceId = traceId := htr.symm.trans hin.1
      exact .inr ⟨rfl, hT ▸ hsweep r hr hT⟩
    · exact hstate

theorem sweep (h : Sound leaving closing w) (env : Env) (error : String)
    (hsweep : ∀ r ∈ w.runs, r.traceId = traceId → closing ∨ w.chainAborted traceId = true) :
    Sound leaving closing ((w.cancelOpenTasks env traceId).cancelSpans env traceId error) :=
  (h.cancelOpenTasks env hsweep).congr rfl rfl rfl rfl

/-- The write of a run that leaves, to its own task. -/
theorem updateTask_leaving (h : Sound none closing w) (env : Env) {r : Run} (hr : r ∈ w.runs) {id : String}
    (hrid : r.task = some id) (p : TaskPatch) :
    Sound (some r.controller) closing (w.updateTask env id p) := by
  refine (h.weaken _).mapTasks rfl rfl rfl rfl (fun t => ?_) (fun t => ?_)
    fun o ho t _ hot _ hne hstate => ?_
  · split <;> rfl
  · split <;> rfl
  · split
    · rename_i htid
      rw [htid] at hot
      exact absurd (congrArg some (h.oneRun o ho r hr id hot hrid)) hne
    · exact hstate

/-- Finishing the trace of a chain that is marked as ended. -/
theorem finishTrace (h : Sound leaving closing w) {status : SpanStatus}
    (hended : ∀ c ∈ w.chains, c.traceId = traceId → c.ended = true) :
    Sound leaving closing (w.finishTrace env traceId status) := by
  have hrow : ∀ t' ∈ (w.finishTrace env traceId status).traces, ∃ t ∈ w.traces,
      t'.traceId = t.traceId ∧ (t'.endedAt ≠ none → t.traceId = traceId ∨ t.endedAt ≠ none) := by
    intro t' ht'
    obtain ⟨t, ht, rfl⟩ := mem_map.mp ht'
    refine ⟨t, ht, ?_⟩
    split
    · exact ⟨rfl, fun _ => .inl ‹_›⟩
    · exact ⟨rfl, .inr⟩
  have hids : (w.finishTrace env traceId status).traces.map (·.traceId) = w.traces.map (·.traceId) := by
    simp only [World.finishTrace, List.map_map]
    refine map_congr_left fun t _ => ?_
    simp only [Function.comp_apply]
    split <;> rfl
  refine ⟨h.taskIds, hids ▸ h.traceIds, fun c hc => ?_, fun c hc t' ht' htc hne => ?_, h.runChain,
    h.oneRun, h.runTask⟩
  · obtain ⟨t, ht, hT⟩ := h.chainTrace c hc
    have hmem : c.traceId ∈ (w.finishTrace env traceId status).traces.map (·.traceId) := by
      rw [hids, ← hT]
      exact mem_map_of_mem ht
    exact mem_map.mp hmem
  · obtain ⟨t, ht, hT, hcase⟩ := hrow t' ht'
    rcases hcase hne with heq | hold
    · exact hended c hc (htc.symm.trans (hT.trans heq))
    · exact h.ended c hc t ht (hT.symm.trans htc) hold

theorem chain?_some {c : Chain} (h : w.chain? traceId = some c) : c ∈ w.chains ∧ c.traceId = traceId :=
  ⟨mem_of_find?_eq_some h, by simpa using List.find?_some h⟩

theorem chain?_none (h : w.chain? traceId = none) : ∀ c ∈ w.chains, c.traceId ≠ traceId := by
  intro c hc
  simpa using List.find?_eq_none.mp h c hc

/-- Marking a chain as ended and finishing its trace. -/
theorem endChain (h : Sound leaving closing w) {c : Chain} (hc : w.chain? traceId = some c)
    (hopen : c.ended = false) (status : SpanStatus) :
    Final w ((w.setChain traceId (fun c => { c with ended := true })).finishTrace env traceId status) ∧
    Sound leaving closing
      ((w.setChain traceId (fun c => { c with ended := true })).finishTrace env traceId status) := by
  obtain ⟨hmem, hT⟩ := chain?_some hc
  have hfresh : ∀ t ∈ w.traces, t.traceId = traceId → t.endedAt = none := by
    intro t ht heq
    by_contra hne
    have := h.ended c hmem t ht (heq.trans hT.symm) hne
    simp [hopen] at this
  have hmark : Sound leaving closing (w.setChain traceId (fun c => { c with ended := true })) :=
    h.setChain (fun _ => rfl) (fun _ _ => rfl) (fun _ => id)
  refine ⟨(Final.of_eq rfl rfl : Final w (w.setChain traceId _)).trans (Final.finishTrace hfresh),
    hmark.finishTrace fun c' hc' hT' => ?_⟩
  obtain ⟨c, _, rfl⟩ := mem_setChain.mp hc'
  split
  · rfl
  · rename_i hne
    rw [if_neg hne] at hT'
    exact absurd hT' hne

theorem endChainIfIdle (h : Sound leaving closing w) (env : Env) (traceId : String) (status : SpanStatus) :
    Final w (w.endChainIfIdle env traceId status) ∧
      Sound leaving closing (w.endChainIfIdle env traceId status) := by
  unfold World.endChainIfIdle
  split
  · exact ⟨.refl w, h⟩
  · rename_i c hc
    split
    · exact ⟨.refl w, h⟩
    · rename_i hidle
      simp only [not_or, Bool.not_eq_true] at hidle
      exact h.endChain hc hidle.2.2 status

theorem cancelChainInner (h : Sound leaving closing w) (env : Env) (traceId : String) :
    Final w (w.cancelChainInner env traceId) ∧ Sound leaving closing (w.cancelChainInner env traceId) := by
  have habort : Sound leaving closing (w.setChain traceId Chain.abort) :=
    h.setChain (fun _ => rfl) (fun _ => id) (fun _ _ => rfl)
  have hfinal : Final w (w.setChain traceId Chain.abort) := .of_eq rfl rfl
  unfold World.cancelChainInner
  dsimp only
  split
  · exact ⟨hfinal, habort⟩
  · -- every run of the trace has its chain, and the chain is aborted now
    have hsweep : ∀ r ∈ (w.setChain traceId Chain.abort).runs, r.traceId = traceId →
        closing ∨ (w.setChain traceId Chain.abort).chainAborted traceId = true := by
      intro r hr hT
      obtain ⟨c, hc, hcT⟩ := h.runChain r hr
      refine .inr (chainAborted_iff.mpr ⟨c.abort, mem_setChain.mpr ⟨c, hc, ?_⟩, ?_, rfl⟩)
      · rw [if_pos (hcT.trans hT)]
      · exact hcT.trans hT
    obtain ⟨hfinal', hsound'⟩ := (habort.sweep env "aborted" hsweep).endChainIfIdle env traceId .cancelled
    exact ⟨hfinal.trans ((Final.sweep env traceId "aborted").trans hfinal'), hsound'⟩

/-- The run that leaves is gone. -/
theorem settle {r : Run} (h : Sound (some r.controller) closing w) (env : Env) :
    Final w (w.settle env r) ∧ Sound none closing (w.settle env r) := by
  have hgone : Sound none closing
      { w with runs := w.runs.filter (·.controller ≠ r.controller) } := by
    refine ⟨h.taskIds, h.traceIds, h.chainTrace, h.ended, fun o ho => h.runChain o (mem_of_mem_filter ho),
      fun a ha b hb => h.oneRun a (mem_of_mem_filter ha) b (mem_of_mem_filter hb),
      fun o ho id hid => ?_⟩
    obtain ⟨ho, hne⟩ := mem_filter.mp ho
    obtain ⟨t, ht, htid, htr, hstate⟩ := h.runTask o ho id hid
    refine ⟨t, ht, htid, htr, .inr (hstate.resolve_left fun heq => ?_)⟩
    simp [Option.some.inj heq] at hne
  have hflight : Sound none closing
      (World.setChain { w with runs := w.runs.filter (·.controller ≠ r.controller) } r.traceId
        (fun c => { c with inflight := c.inflight.filter (· ≠ r.controller) })) :=
    hgone.setChain (fun _ => rfl) (fun _ => id) (fun _ => id)
  have hfinal : Final w (World.setChain { w with runs := w.runs.filter (·.controller ≠ r.controller) }
      r.traceId (fun c => { c with inflight := c.inflight.filter (· ≠ r.controller) })) :=
    .of_eq rfl rfl
  unfold World.settle
  dsimp only
  split
  · obtain ⟨hfinal', hsound'⟩ := hflight.endChainIfIdle env r.traceId .cancelled
    exact ⟨hfinal.trans hfinal', hsound'⟩
  · exact ⟨hfinal, hflight⟩

end Sound

/-! ### Steps -/

/-- What one step keeps. -/
def Keeps (w w' : World) : Prop := Final w w' ∧ Sound none False w'

variable {r : Run}

theorem Sound.taskRow (h : Sound none False w) (hr : r ∈ w.runs) {id : String} (hid : r.task = some id)
    {t : TaskRow} (ht : t ∈ w.tasks) (htid : t.id = id) : t.traceId = r.traceId ∧
      (t.isOpen = true ∨ t.status = .cancelled ∧ w.chainAborted r.traceId = true) := by
  obtain ⟨u, hu, huid, hutrace, hstate⟩ := h.runTask r hr id hid
  obtain rfl := inj_on_of_nodup_map h.taskIds ht hu (htid.trans huid.symm)
  refine ⟨hutrace, ?_⟩
  simpa using hstate

theorem Sound.runTrace (h : Sound none False w) (hr : r ∈ w.runs) :
    ∃ t ∈ w.traces, t.traceId = r.traceId := by
  obtain ⟨c, hc, hT⟩ := h.runChain r hr
  rw [← hT]
  exact h.chainTrace c hc

variable {traceId : String} {t : TraceRow}

theorem trace?_some (ht : w.trace? traceId = some t) : t ∈ w.traces ∧ t.traceId = traceId :=
  ⟨mem_of_find?_eq_some ht, by simpa using List.find?_some ht⟩

theorem Keeps.trans {a b c : World} (hab : Keeps a b) (hbc : Keeps b c) : Keeps a c :=
  ⟨hab.1.trans hbc.1, hbc.2⟩

variable (h : Sound none False w)

include h

/-- What a run records of its own task and span as it leaves. Its task may have
ended before: then it is cancelled, and the run records a cancellation. -/
theorem keeps_recordEnd (env : Env) (hr : r ∈ w.runs) {p : TaskPatch} (sp : SpanPatch)
    (hended : p.status ≠ .cancelled → ∀ id t, r.task = some id → t ∈ w.tasks → t.id = id →
      w.chainAborted r.traceId = true → t.isOpen = true)
    (hnew : p.status = .succeeded → r.task ≠ none → ¬w.cancelledTrace r.traceId) :
    Final w (w.recordEnd env r p sp) ∧ Sound (some r.controller) False (w.recordEnd env r p sp) := by
  unfold World.recordEnd
  cases htask : r.task with
  | none => exact ⟨.of_eq rfl rfl, (h.weaken _).congr rfl rfl rfl rfl⟩
  | some id =>
    have hfinal : Final w (w.updateTask env id p) := by
      refine .updateTask env (fun t ht htid hclosed => ?_) fun t ht htid hs => ?_
      · obtain ⟨_, hopen | ⟨hcancelled, hab⟩⟩ := h.taskRow hr htask ht htid
        · simp [hclosed] at hopen
        · by_contra hne
          have hopen := hended (fun hp => hne (hp.trans hcancelled.symm)) id t htask ht htid hab
          simp [hclosed] at hopen
      · rw [(h.taskRow hr htask ht htid).1]
        exact hnew hs (by simp [htask])
    exact ⟨hfinal.trans (.of_eq rfl rfl), (h.updateTask_leaving env hr htask p).congr rfl rfl rfl rfl⟩

theorem keeps_settle (env : Env) (r : Run) : Keeps w (w.settle env r) :=
  (h.weaken (some r.controller)).settle env

theorem keeps_fail (env : Env) (hr : r ∈ w.runs) (message : String) : Keeps w (w.fail env r message) := by
  unfold World.fail
  split
  · exact keeps_settle h env r
  · dsimp only
    -- a failure is recorded only where neither the chain nor the caller's signal is aborted
    have hfailed : (if w.aborted r then TaskStatus.cancelled else .failed) ≠ .cancelled →
        w.chainAborted r.traceId = true → False := by
      intro hne hab
      exact hne (if_pos (by simp [World.aborted, hab]))
    obtain ⟨hfinal, hsound⟩ := keeps_recordEnd h env hr
      (p := { status := if w.aborted r then .cancelled else .failed
              error := some (if w.aborted r then "aborted" else message) })
      { status := if w.aborted r then .cancelled else .failed
        error := some (if w.aborted r then "aborted" else message) }
      (fun hne _ _ _ _ _ hab => (hfailed hne hab).elim)
      (fun hs => absurd hs (by dsimp only; split <;> simp))
    generalize World.recordEnd env w r _ _ = recorded at hfinal hsound ⊢
    split
    · obtain ⟨hfinal₁, hsound₁⟩ := hsound.cancelChainInner env r.traceId
      obtain ⟨hfinal₂, hsound₂⟩ := hsound₁.settle env
      exact ⟨(hfinal.trans hfinal₁).trans hfinal₂, hsound₂⟩
    · obtain ⟨hfinal₂, hsound₂⟩ := hsound.settle env
      exact ⟨hfinal.trans hfinal₂, hsound₂⟩

theorem keeps_start (env : Env) (hr : r ∈ w.runs) : Keeps w (w.start env r) := by
  unfold World.start
  split
  · exact ⟨.refl w, h⟩
  split
  · exact keeps_fail h env hr "aborted"
  · rename_i hrun
    simp only [not_or, Bool.not_eq_true, World.aborted, Bool.or_eq_false_iff] at hrun
    have hmarked : Sound none False (w.markStarted r.controller) := by
      have hrow : ∀ o ∈ (w.markStarted r.controller).runs, ∃ o' ∈ w.runs,
          o.controller = o'.controller ∧ o.traceId = o'.traceId ∧ o.task = o'.task := by
        intro o ho
        obtain ⟨o', ho', rfl⟩ := mem_map.mp ho
        refine ⟨o', ho', ?_⟩
        split <;> simp
      refine ⟨h.taskIds, h.traceIds, h.chainTrace, h.ended, fun o ho => ?_,
        fun a ha b hb id haid hbid => ?_, fun o ho id hid => ?_⟩
      · obtain ⟨o', ho', _, hT, _⟩ := hrow o ho
        rw [hT]
        exact h.runChain o' ho'
      · obtain ⟨a', ha', hac, _, hat⟩ := hrow a ha
        obtain ⟨b', hb', hbc, _, hbt⟩ := hrow b hb
        rw [hac, hbc]
        exact h.oneRun a' ha' b' hb' id (hat.symm.trans haid) (hbt.symm.trans hbid)
      · obtain ⟨o', ho', hc, hT, ht⟩ := hrow o ho
        rw [hc, hT]
        exact h.runTask o' ho' id (ht.symm.trans hid)
    dsimp only
    split
    · rename_i id htask
      refine ⟨(Final.of_eq rfl rfl : Final w (w.markStarted r.controller)).trans
        (.updateTask env (fun t ht htid hclosed => ?_) fun _ _ _ hs => nomatch hs), ?_⟩
      · -- the chain is not aborted, so the task is open
        obtain ⟨_, hopen | ⟨_, hab⟩⟩ := h.taskRow hr htask ht htid
        · simp [hclosed] at hopen
        · simp [hrun.2.1] at hab
      · refine hmarked.mapTasks rfl rfl rfl rfl (fun t => ?_) (fun t => ?_)
          fun _ _ t _ _ _ _ hstate => ?_
        · split <;> rfl
        · split <;> rfl
        · split
          · exact .inl rfl
          · exact hstate
    · exact ⟨.of_eq rfl rfl, hmarked⟩

/-- The complete answer of a delegation comes while its task is open and its
trace not cancelled. -/
def World.Timely (w : World) (r : Run) (a : Answer) : Prop := a.partly = false → ∀ id, r.task = some id →
    (∀ t ∈ w.tasks, t.id = id → t.isOpen = true) ∧ ¬w.cancelledTrace r.traceId

theorem keeps_answer (env : Env) (hr : r ∈ w.runs) {a : Answer}
    (htimely : w.storeClosed = false → w.Timely r a) : Keeps w (w.answer env r a) := by
  unfold World.answer
  split
  · exact ⟨.refl w, h⟩
  split
  · exact keeps_settle h env r
  · rename_i hopen
    have htimely := htimely (by simpa using hopen)
    dsimp only
    obtain ⟨hfinal, hsound⟩ := keeps_recordEnd h env hr
      (p := { status := if a.partly then .cancelled else .succeeded
              error := if a.partly then some "partial" else none
              result := some a.result
              truncated := a.truncated
              artifactId := some a.artifactId
              inputTokens := some a.inputTokens
              outputTokens := some a.outputTokens })
      { status := if a.partly then .partially else .succeeded
        inputTokens := a.inputTokens
        outputTokens := a.outputTokens }
      (fun hne id t hid ht htid _ => by
        cases hpart : a.partly with
        | true => exact absurd (if_pos hpart) hne
        | false => exact (htimely hpart id hid).1 t ht htid)
      (fun hs hsome => by
        cases hpart : a.partly with
        | true => simp [hpart] at hs
        | false =>
          obtain ⟨id, hid⟩ := Option.ne_none_iff_exists'.mp hsome
          exact (htimely hpart id hid).2)
    obtain ⟨hfinal₂, hsound₂⟩ := hsound.settle env
    exact ⟨hfinal.trans hfinal₂, hsound₂⟩

/-- A chain for a trace that no run is on. -/
theorem sound_putChain {c : Chain} (htrace : ∃ t ∈ w.traces, t.traceId = c.traceId)
    (hended : ∀ t ∈ w.traces, t.traceId = c.traceId → t.endedAt ≠ none → c.ended = true)
    (hruns : ∀ r ∈ w.runs, r.traceId ≠ c.traceId) : Sound none False (w.putChain c) := by
  have hmem : ∀ d ∈ (w.putChain c).chains, d ∈ w.chains ∨ d = c := by
    intro d hd
    rcases mem_append.mp hd with hd | hd
    · exact .inl (mem_of_mem_filter hd)
    · exact .inr (mem_singleton.mp hd)
  have hkept : ∀ d ∈ w.chains, ∀ r ∈ w.runs, d.traceId = r.traceId → d ∈ (w.putChain c).chains := by
    intro d hd r hr hT
    refine mem_append_left _ (mem_filter.mpr ⟨hd, ?_⟩)
    simpa [hT] using hruns r hr
  refine ⟨h.taskIds, h.traceIds, fun d hd => ?_, fun d hd t ht hT hne => ?_, fun r hr => ?_,
    h.oneRun, fun r hr id hid => ?_⟩
  · rcases hmem d hd with hd | rfl
    · exact h.chainTrace d hd
    · exact htrace
  · rcases hmem d hd with hd | rfl
    · exact h.ended d hd t ht hT hne
    · exact hended t ht hT hne
  · obtain ⟨d, hd, hT⟩ := h.runChain r hr
    exact ⟨d, hkept d hd r hr hT, hT⟩
  · obtain ⟨t, ht, htid, htr, hstate⟩ := h.runTask r hr id hid
    refine ⟨t, ht, htid, htr, hstate.imp_right (Or.imp_right fun ⟨hs, hab⟩ => ⟨hs, .inr ?_⟩)⟩
    obtain ⟨d, hd, hT, hdab⟩ := Sound.chainAborted_iff.mp (hab.resolve_left not_false)
    exact Sound.chainAborted_iff.mpr ⟨d, hkept d hd r hr hT, hT, hdab⟩

theorem keeps_beginChain (env : Env) (projectId rootAgent : String) (signal : Option ℕ) :
    Keeps w (w.beginChain env projectId rootAgent signal).1 := by
  unfold World.beginChain
  split
  · exact ⟨.refl w, h⟩
  · rename_i hfresh
    push Not at hfresh
    dsimp only
    generalize htrace : TraceRow.mk env.traceId projectId rootAgent env.rootSpanId env.now none
      .running = trace
    have hid : trace.traceId = env.traceId := by rw [← htrace]
    have hended : trace.endedAt = none := by rw [← htrace]
    have hrow : Sound none False { w with traces := w.traces ++ [trace] } := by
      refine ⟨h.taskIds, ?_, fun c hc => ?_, fun c hc t ht hT hne => ?_, h.runChain, h.oneRun, h.runTask⟩
      · rw [map_append, nodup_append]
        refine ⟨h.traceIds, by simp, fun x hx y hy hxy => ?_⟩
        obtain ⟨t, ht, rfl⟩ := mem_map.mp hx
        exact hfresh t ht (hxy.trans (by simpa [hid] using hy))
      · obtain ⟨t, ht, hT⟩ := h.chainTrace c hc
        exact ⟨t, mem_append_left _ ht, hT⟩
      · rcases mem_append.mp ht with ht | ht
        · exact h.ended c hc t ht hT hne
        · rw [mem_singleton.mp ht] at hne
          exact absurd hended hne
    refine ⟨.of_tasks_eq rfl fun T => ?_, sound_putChain hrow ⟨trace, by simp, hid⟩
      (fun t ht hT hne => ?_) fun r hr hT => ?_⟩
    · rintro ⟨t, ht, hcancelled⟩
      exact ⟨t, mem_append_left _ ht, hcancelled⟩
    · grind
    · obtain ⟨t, ht, htr⟩ := h.runTrace hr
      exact hfresh t ht (htr.trans hT)

theorem keeps_revive (ht : t ∈ w.traces) (hnone : w.chain? t.traceId = none) (signal : Option ℕ) :
    Keeps w (w.revive t signal) := by
  refine ⟨.of_eq rfl rfl, sound_putChain h ⟨t, ht, rfl⟩ (fun u hu hT hne => ?_) fun r hr hT => ?_⟩
  · obtain rfl := inj_on_of_nodup_map h.traceIds hu ht hT
    exact Option.isSome_iff_ne_none.mpr hne
  · obtain ⟨c, hc, hcT⟩ := h.runChain r hr
    exact Sound.chain?_none hnone c hc (hcT.trans hT)

theorem keeps_getChain (env : Env) (traceId : Option String) (projectId rootAgent : String)
    (signal : Option ℕ) : Keeps w (w.getChain env traceId projectId rootAgent signal).1 := by
  unfold World.getChain
  split
  · exact keeps_beginChain h env projectId rootAgent signal
  · exact keeps_beginChain h env projectId rootAgent signal
  · split
    · exact ⟨.refl w, h⟩
    · rename_i hnone
      split
      · rename_i t ht
        obtain ⟨hmem, rfl⟩ := trace?_some ht
        split
        · exact keeps_revive h hmem hnone signal
        · exact ⟨.refl w, h⟩
      · exact ⟨.refl w, h⟩

/-- The span is inserted on a chain that is there; the tasks are untouched. -/
theorem keeps_admitSpan (env : Env) (traceId : String) (i : CallInput) (kind : SpanKind) :
    Keeps w (w.admitSpan env traceId i kind).1 ∧ (w.admitSpan env traceId i kind).1.tasks = w.tasks ∧
      ((w.admitSpan env traceId i kind).2 ≠ none →
        ∃ c ∈ (w.admitSpan env traceId i kind).1.chains, c.traceId = traceId) := by
  unfold World.admitSpan
  split
  · exact ⟨⟨.refl w, h⟩, rfl, fun hne => absurd rfl hne⟩
  · rename_i chain hchain
    have hcount : Sound none False
        (w.setChain traceId (fun c => { c with fanout := c.fanout + 1 })) :=
      h.setChain (fun _ => rfl) (fun _ => id) (fun _ => id)
    dsimp only
    generalize (if chain.fanout = 0 then chain.rootSpanId else env.spanId) = spanId
    split
    · exact ⟨⟨.of_eq rfl rfl, hcount⟩, rfl, fun hne => absurd rfl hne⟩
    · refine ⟨⟨.of_eq rfl rfl, hcount.congr rfl rfl rfl rfl⟩, rfl, fun _ => ?_⟩
      obtain ⟨hmem, hT⟩ := Sound.chain?_some hchain
      refine ⟨_, Sound.mem_setChain.mpr ⟨chain, hmem, rfl⟩, ?_⟩
      rw [if_pos hT]
      exact hT

/-- A run is added with a task of its own that is open, or with none. -/
theorem keeps_launch (spanId : String) {task : Option String} (signal : Option ℕ)
    (hchain : ∃ c ∈ w.chains, c.traceId = traceId)
    (htask : ∀ id, task = some id → (∃ t ∈ w.tasks, t.id = id ∧ t.traceId = traceId ∧
      t.isOpen = true) ∧ ∀ r ∈ w.runs, r.task ≠ some id) :
    Keeps w (w.launch traceId spanId task signal) := by
  have hflight : Sound none False
      (w.setChain traceId (fun c => { c with inflight := c.inflight ++ [w.next] })) :=
    h.setChain (fun _ => rfl) (fun _ => id) (fun _ => id)
  refine ⟨.of_eq rfl rfl, hflight.taskIds, hflight.traceIds, hflight.chainTrace, hflight.ended,
    fun r hr => ?_, fun a ha b hb id haid hbid => ?_, fun r hr id hid => ?_⟩
  · rcases mem_append.mp hr with hr | hr
    · exact hflight.runChain r hr
    · obtain ⟨c, hc, hT⟩ := hchain
      rw [mem_singleton.mp hr]
      refine ⟨_, Sound.mem_setChain.mpr ⟨c, hc, rfl⟩, ?_⟩
      rw [if_pos hT]
      exact hT
  · rcases mem_append.mp ha with ha | ha <;> rcases mem_append.mp hb with hb | hb
    · exact h.oneRun a ha b hb id haid hbid
    · rw [mem_singleton.mp hb] at hbid
      exact absurd haid ((htask id hbid).2 a ha)
    · rw [mem_singleton.mp ha] at haid
      exact absurd hbid ((htask id haid).2 b hb)
    · rw [mem_singleton.mp ha, mem_singleton.mp hb]
  · rcases mem_append.mp hr with hr | hr
    · exact hflight.runTask r hr id hid
    · rw [mem_singleton.mp hr] at hid ⊢
      obtain ⟨⟨t, ht, htid, hT, hopen⟩, _⟩ := htask id hid
      exact ⟨t, ht, htid, hT, .inr (.inl hopen)⟩

theorem keeps_admitConsult (env : Env) (traceId : String) (i : CallInput) :
    Keeps w (w.admitConsult env traceId i) := by
  obtain ⟨hspan, _, hchain⟩ := keeps_admitSpan h env traceId i .consult
  unfold World.admitConsult
  split
  · rename_i hres
    rw [hres] at hspan
    exact hspan
  · rename_i hres
    rw [hres] at hspan hchain
    exact hspan.trans (keeps_launch hspan.2 _ _ (hchain nofun) fun _ hid => nomatch hid)

theorem keeps_admitTask (env : Env) (traceId : String) (i : CallInput) :
    Keeps w (w.admitTask env traceId i) := by
  obtain ⟨hspan, htasks, hchain⟩ := keeps_admitSpan h env traceId i .delegate
  unfold World.admitTask
  split
  · rename_i hres
    rw [hres] at hspan
    exact hspan
  · rename_i w₁ spanId hres
    rw [hres] at hspan hchain
    have hchain := hchain nofun
    split
    · exact ⟨hspan.1.trans (.of_eq rfl rfl), hspan.2.congr rfl rfl rfl rfl⟩
    · rename_i hfresh
      push Not at hfresh
      dsimp only
      generalize htask : TaskRow.mk env.taskId i.projectId traceId spanId i.parentTaskId i.fromAgent
        i.toAgent .queued i.question i.acceptanceCriteria
        (i.path.getD [i.fromAgent] ++ [i.toAgent]) env.now none none none false none none none none
        = task
      have hid : task.id = env.taskId := by rw [← htask]
      have hT : task.traceId = traceId := by rw [← htask]
      have hstatus : task.status = .queued := by rw [← htask]
      have hsound := hspan.2
      have hrow : Sound none False { w₁ with tasks := w₁.tasks ++ [task] } := by
        refine ⟨?_, hsound.traceIds, hsound.chainTrace, hsound.ended, hsound.runChain,
          hsound.oneRun, fun r hr id hrid => ?_⟩
        · rw [map_append, nodup_append]
          refine ⟨hsound.taskIds, by simp, fun x hx y hy hxy => ?_⟩
          obtain ⟨t, ht, rfl⟩ := mem_map.mp hx
          exact hfresh t ht (hxy.trans (by simpa [hid] using hy))
        · obtain ⟨t, ht, hrest⟩ := hsound.runTask r hr id hrid
          exact ⟨t, mem_append_left _ ht, hrest⟩
      have hfinal : Final w₁ { w₁ with tasks := w₁.tasks ++ [task] } := by
        refine ⟨fun t ht => ⟨t, mem_append_left _ ht, rfl, rfl, fun _ => rfl⟩,
          fun t' ht' hs => ?_, fun _ hc => hc⟩
        rcases mem_append.mp ht' with ht' | ht'
        · exact .inl ⟨t', ht', rfl, rfl, hs⟩
        · rw [mem_singleton.mp ht', hstatus] at hs
          cases hs
      refine hspan.trans (Keeps.trans ⟨hfinal, hrow⟩ (keeps_launch hrow _ _ hchain ?_))
      intro id hid'
      cases hid'
      refine ⟨⟨task, by simp, hid, hT, by simp [TaskRow.isOpen, hstatus]⟩, fun r hr hrt => ?_⟩
      -- a run that already had this id would have its row in the table
      obtain ⟨t, ht, htid, _⟩ := hsound.runTask r hr _ hrt
      exact hfresh t ht htid

theorem keeps_call (env : Env) (i : CallInput) {enter : World → String → World}
    (henter : ∀ w₁, Sound none False w₁ → ∀ traceId, Keeps w₁ (enter w₁ traceId)) :
    Keeps w (w.call env i enter) := by
  unfold World.call
  split
  · exact ⟨.refl w, h⟩
  · have hget := keeps_getChain h env i.traceId i.projectId i.fromAgent i.signal
    split
    · rename_i hres
      rw [hres] at hget
      exact hget
    · rename_i w₁ traceId hres
      rw [hres] at hget
      split
      · exact hget
      · exact hget
      · unfold World.refuse
        split
        · exact hget
        · exact ⟨hget.1.trans (.of_eq rfl rfl), hget.2.congr rfl rfl rfl rfl⟩
      · exact hget.trans (henter _ hget.2 traceId)

theorem keeps_cancelChain (env : Env) (traceId : String) : Keeps w (w.cancelChain env traceId) := by
  unfold World.cancelChain
  split
  · exact ⟨.refl w, h⟩
  split
  · exact h.cancelChainInner env traceId
  · rename_i hnone
    -- a trace without a chain has no runs
    refine ⟨.cancelOpenTasks env traceId, h.cancelOpenTasks env fun r hr hT => ?_⟩
    obtain ⟨c, hc, hcT⟩ := h.runChain r hr
    exact absurd (hcT.trans hT) (Sound.chain?_none hnone c hc)

theorem keeps_finishChain (env : Env) (traceId : String) : Keeps w (w.finishChain env traceId) := by
  unfold World.finishChain
  split
  · exact ⟨.refl w, h⟩
  · exact h.endChainIfIdle env traceId _

theorem keeps_abortSignal (k : ℕ) : Keeps w (w.abortSignal k) := by
  refine ⟨.of_eq rfl rfl, h.mapChains rfl rfl rfl rfl (fun c => ?_) (fun c => ?_) fun c => ?_⟩
  · split <;> rfl
  · split
    · exact id
    · exact id
  · split
    · exact fun _ => rfl
    · exact id

theorem keeps_abortAll : Keeps w w.abortAll :=
  ⟨.of_eq rfl rfl, h.mapChains rfl rfl rfl rfl (fun _ => rfl) (fun _ => id) fun _ _ => rfl⟩

omit h

/-- Closing aborts every chain, so whatever was cancelled while closing has an
aborted chain then. -/
theorem keeps_close {closing : Prop} (h : Sound none closing w) (hopen : w.storeClosed = false) :
    Keeps w w.close := by
  unfold World.close
  rw [if_neg (by simp [hopen])]
  have habort : Sound none closing w.abortAll :=
    h.mapChains rfl rfl rfl rfl (fun _ => rfl) (fun _ => id) fun _ _ => rfl
  refine ⟨.of_eq rfl rfl, habort.taskIds, habort.traceIds, habort.chainTrace, habort.ended,
    habort.runChain, habort.oneRun, fun r hr id hid => ?_⟩
  obtain ⟨t, ht, htid, htr, hstate⟩ := h.runTask r hr id hid
  refine ⟨t, ht, htid, htr, hstate.imp_right (Or.imp_right fun ⟨hs, _⟩ => ⟨hs, .inr ?_⟩)⟩
  obtain ⟨c, hc, hT⟩ := h.runChain r hr
  exact Sound.chainAborted_iff.mpr ⟨c.abort, mem_map_of_mem hc, hT, rfl⟩

theorem abandonChain_kept (h : Sound none True w) (env : Env) (traceId : String) :
    Final w (w.abandonChain env traceId) ∧ Sound none True (w.abandonChain env traceId) ∧
      (w.abandonChain env traceId).storeClosed = w.storeClosed := by
  have hsound : Sound none True ((w.cancelOpenTasks env traceId).cancelSpans env traceId
      "abandoned at shutdown") := h.sweep env _ fun _ _ _ => .inl trivial
  have hfinal : Final w _ := Final.sweep env traceId "abandoned at shutdown"
  have hclosed : ((w.cancelOpenTasks env traceId).cancelSpans env traceId
      "abandoned at shutdown").storeClosed = w.storeClosed := rfl
  unfold World.abandonChain
  dsimp only
  generalize (w.cancelOpenTasks env traceId).cancelSpans env traceId "abandoned at shutdown" = w₁
    at hsound hfinal hclosed ⊢
  split
  · rename_i c hc
    split
    · exact ⟨hfinal.trans (.of_eq rfl rfl),
        hsound.setChain (fun _ => rfl) (fun _ => id) (fun _ => id), hclosed⟩
    · rename_i hended
      obtain ⟨hfinal', hsound'⟩ := hsound.endChain hc (by simpa using hended) .cancelled
      exact ⟨(hfinal.trans hfinal').trans (.of_eq rfl rfl),
        hsound'.setChain (fun _ => rfl) (fun _ => id) (fun _ => id), hclosed⟩
  · exact ⟨hfinal.trans (.of_eq rfl rfl),
      hsound.setChain (fun _ => rfl) (fun _ => id) (fun _ => id), hclosed⟩

theorem keeps_abandon (h : Sound none False w) (env : Env) : Keeps w (w.abandon env) := by
  unfold World.abandon
  split
  · refine ⟨.of_eq rfl rfl, h.mapChains rfl rfl rfl rfl (fun c => ?_) (fun c => ?_) fun c => ?_⟩
    all_goals split
    all_goals first | rfl | exact id
  · rename_i hopen
    have hclosing : Sound none True w := by
      refine ⟨h.taskIds, h.traceIds, h.chainTrace, h.ended, h.runChain, h.oneRun, fun r hr id hid => ?_⟩
      obtain ⟨t, ht, htid, htr, hstate⟩ := h.runTask r hr id hid
      exact ⟨t, ht, htid, htr, hstate.imp_right (Or.imp_right fun ⟨hs, _⟩ => ⟨hs, .inl trivial⟩)⟩
    -- the busy chains are abandoned one after the other
    have hfold : ∀ (busy : List String) (w₁ : World), Sound none True w₁ →
        Final w₁ (busy.foldl (fun w traceId => w.abandonChain env traceId) w₁) ∧
        Sound none True (busy.foldl (fun w traceId => w.abandonChain env traceId) w₁) ∧
        (busy.foldl (fun w traceId => w.abandonChain env traceId) w₁).storeClosed = w₁.storeClosed := by
      intro busy
      induction busy with
      | nil => exact fun w₁ h₁ => ⟨.refl w₁, h₁, rfl⟩
      | cons traceId rest ih =>
        intro w₁ h₁
        obtain ⟨hf, hs, hc⟩ := abandonChain_kept h₁ env traceId
        obtain ⟨hf', hs', hc'⟩ := ih _ hs
        exact ⟨hf.trans hf', hs', hc'.trans hc⟩
    obtain ⟨hfinal, hsound, hsame⟩ := hfold ((w.chains.filter (·.inflight ≠ [])).map (·.traceId)) w
      hclosing
    obtain ⟨hfinal', hsound'⟩ := keeps_close hsound (hsame.trans (by simpa using hopen))
    exact ⟨hfinal.trans hfinal', hsound'⟩

/-! ### Histories -/

/-- A complete answer to a delegation comes, while the store is open, only for a
task that is open in a trace that was not finished as cancelled. -/
def World.Allows (w : World) : Step → Prop
  | .answer controller a => w.storeClosed = false → ∀ r, w.run? controller = some r → w.Timely r a
  | _ => True

theorem run?_mem {controller : ℕ} (h : w.run? controller = some r) : r ∈ w.runs := mem_of_find?_eq_some h

theorem keeps_step (h : Sound none False w) (env : Env) {step : Step} (hstep : w.Allows step) :
    Keeps w (w.step env step) := by
  cases step with
  | openChain projectId fromAgent signal =>
    simp only [World.step]
    split
    · exact ⟨.refl w, h⟩
    · exact keeps_beginChain h env projectId fromAgent signal
  | delegate i => exact keeps_call h env i fun _ h₁ traceId => keeps_admitTask h₁ env traceId i
  | consult i => exact keeps_call h env i fun _ h₁ traceId => keeps_admitConsult h₁ env traceId i
  | start controller =>
    simp only [World.step]
    cases hr : w.run? controller with
    | none => exact ⟨.refl w, h⟩
    | some r => exact keeps_start h env (run?_mem hr)
  | answer controller a =>
    simp only [World.step]
    cases hr : w.run? controller with
    | none => exact ⟨.refl w, h⟩
    | some r => exact keeps_answer h env (run?_mem hr) fun hopen => hstep hopen r hr
  | fail controller message =>
    simp only [World.step]
    cases hr : w.run? controller with
    | none => exact ⟨.refl w, h⟩
    | some r => exact keeps_fail h env (run?_mem hr) message
  | cancelChain traceId => exact keeps_cancelChain h env traceId
  | finishChain traceId => exact keeps_finishChain h env traceId
  | abortSignal k => exact keeps_abortSignal h k
  | stop => exact keeps_abortAll h
  | abandon => exact keeps_abandon h env
  | close =>
    cases hclosed : w.storeClosed with
    | true =>
      have hsame : w.step env .close = w := if_pos hclosed
      rw [hsame]
      exact ⟨.refl w, h⟩
    | false => exact keeps_close h hclosed

/-- Steps, each with the ids and the time it got. -/
abbrev History := List (Env × Step)

def after (w : World) : History → World
  | [] => w
  | (env, step) :: rest => after (w.step env step) rest

/-- Every step of the history is allowed where it is taken. -/
def AllowsAll (w : World) : History → Prop
  | [] => True
  | (env, step) :: rest => w.Allows step ∧ AllowsAll (w.step env step) rest

theorem keeps_after (h : Sound none False w) {history : History} (hall : AllowsAll w history) :
    Keeps w (after w history) := by
  induction history generalizing w with
  | nil => exact ⟨.refl w, h⟩
  | cons entry rest ih =>
    obtain ⟨env, step⟩ := entry
    have hstep := keeps_step h env hall.1
    exact hstep.trans (ih hstep.2 hall.2)

theorem allowsAll_append {history later : History} :
    AllowsAll w (history ++ later) ↔ AllowsAll w history ∧ AllowsAll (after w history) later := by
  induction history generalizing w with
  | nil => simp [AllowsAll, after]
  | cons entry rest ih =>
    obtain ⟨env, step⟩ := entry
    simp only [cons_append, AllowsAll, after, ih, and_assoc]

/-- The store as a process finds it, with no chain and no run yet. -/
structure Found (w : World) : Prop where
  taskIds : (w.tasks.map (·.id)).Nodup
  traceIds : (w.traces.map (·.traceId)).Nodup
  chains : w.chains = []
  runs : w.runs = []

theorem Found.sound (h : Found w) : Sound none False w := by
  refine ⟨h.taskIds, h.traceIds, ?_, ?_, ?_, ?_, ?_⟩ <;> simp [h.chains, h.runs]

/-- In a history whose complete answers all come in time, a task that has ended
keeps its status, and no task of a trace that was finished as cancelled is
recorded as succeeded afterwards. -/
theorem delegated_end_final {start : World} (hstart : Found start) {history later : History}
    (hall : AllowsAll start (history ++ later)) :
    ((after (after start history) later).tasks.map (·.id)).Nodup ∧
    (∀ t ∈ (after start history).tasks, t.isOpen = false →
      ∃ t' ∈ (after (after start history) later).tasks, t'.id = t.id ∧ t'.status = t.status) ∧
    (∀ traceId, (after start history).cancelledTrace traceId →
      ∀ t' ∈ (after (after start history) later).tasks, t'.traceId = traceId → t'.status = .succeeded →
        ∃ t ∈ (after start history).tasks, t.id = t'.id ∧ t.status = .succeeded) := by
  obtain ⟨hfirst, hsecond⟩ := allowsAll_append.mp hall
  obtain ⟨_, hsound⟩ := keeps_after hstart.sound hfirst
  obtain ⟨hfinal, hsound'⟩ := keeps_after hsound hsecond
  refine ⟨hsound'.taskIds, fun t ht hended => ?_, fun traceId hcancelled t' ht' hT hs => ?_⟩
  · obtain ⟨t', ht', hid, _, hstatus⟩ := hfinal.tasks t ht
    exact ⟨t', ht', hid, hstatus hended⟩
  · rcases hfinal.succeeded t' ht' hs with ⟨t, ht, hid, _, hs'⟩ | hnot
    · exact ⟨t, ht, hid, hs'⟩
    · rw [hT] at hnot
      exact absurd hcancelled hnot

/-! ### Late answers -/

def sampleEnv : Env := ⟨"trace", "root", "span", "task", 0⟩

def sampleCall : CallInput where
  projectId := "p"
  fromAgent := "lead"
  toAgent := "worker"
  question := "do it"

def sampleAnswer : Answer := ⟨false, "done", false, "art", 1, 1⟩

def emptyWorld : World := { traces := [], spans := [], tasks := [] }

/-- A store in which the trace was finished as cancelled by an earlier process. -/
def cancelledWorld : World :=
  { emptyWorld with traces := [⟨"old", "p", "lead", "root", 0, some 1, .cancelled⟩] }

def inTime : History := [.delegate sampleCall, .start 0, .answer 0 sampleAnswer].map (sampleEnv, ·)

def cancelled : History := [.delegate sampleCall, .start 0, .cancelChain "trace"].map (sampleEnv, ·)

def late : History := [(sampleEnv, .answer 0 sampleAnswer)]

def joined : History :=
  [.delegate { sampleCall with traceId := some "old" }, .start 0, .answer 0 sampleAnswer].map
    (sampleEnv, ·)

/-- An answer that comes after its chain was cancelled turns the cancelled task
into a succeeded one, and a delegation that joins a trace an earlier process
finished as cancelled succeeds in it. -/
theorem late_answer_succeeds :
    (after emptyWorld cancelled).tasks.map (fun t => (t.id, t.status)) = [("task", .cancelled)] ∧
    (after (after emptyWorld cancelled) late).tasks.map (fun t => (t.id, t.status)) =
      [("task", .succeeded)] ∧
    cancelledWorld.cancelledTrace "old" ∧ cancelledWorld.tasks = [] ∧
    (after cancelledWorld joined).tasks.map (fun t => (t.traceId, t.status)) = [("old", .succeeded)] := by
  refine ⟨by decide, by decide, ?_, rfl, by decide⟩
  exact ⟨_, mem_singleton.mpr rfl, rfl, rfl, nofun⟩

theorem found_emptyWorld : Found emptyWorld := ⟨nodup_nil, nodup_nil, rfl, rfl⟩

instance (traceId : String) : Decidable (w.cancelledTrace traceId) := by
  unfold World.cancelledTrace
  infer_instance

instance (r : Run) (a : Answer) : Decidable (w.Timely r a) := by
  unfold World.Timely
  infer_instance

instance (step : Step) : Decidable (w.Allows step) :=
  match step with
  | .answer controller a =>
    inferInstanceAs (Decidable (w.storeClosed = false → ∀ r, w.run? controller = some r → w.Timely r a))
  | .openChain .. | .delegate _ | .consult _ | .start _ | .fail .. | .cancelChain _
  | .finishChain _ | .abortSignal _ | .stop | .abandon | .close => isTrue trivial

def decidableAllowsAll (w : World) : (history : History) → Decidable (AllowsAll w history)
  | [] => isTrue trivial
  | (env, step) :: rest =>
    have := decidableAllowsAll (w.step env step) rest
    inferInstanceAs (Decidable (w.Allows step ∧ AllowsAll (w.step env step) rest))

instance (history : History) : Decidable (AllowsAll w history) := decidableAllowsAll w history

/-- An answer in time, and a cancellation that comes after it. -/
theorem delegated_end_final_in_time : AllowsAll emptyWorld (inTime ++ [(sampleEnv, .cancelChain "trace")]) ∧
    (after emptyWorld inTime).tasks.map (·.status) = [.succeeded] ∧
    ∃ t' ∈ (after (after emptyWorld inTime) [(sampleEnv, .cancelChain "trace")]).tasks,
      t'.id = "task" ∧ t'.status = .succeeded := by
  have hall : AllowsAll emptyWorld (inTime ++ [(sampleEnv, .cancelChain "trace")]) := by
    decide
  have hstatus : (after emptyWorld inTime).tasks.map (fun t => (t.id, t.status)) =
      [("task", .succeeded)] := by decide
  refine ⟨hall, by decide, ?_⟩
  obtain ⟨t, ht, hpair⟩ := mem_map.mp (hstatus ▸ mem_singleton.mpr rfl :
    (("task", .succeeded) : String × TaskStatus) ∈
      (after emptyWorld inTime).tasks.map (fun t => (t.id, t.status)))
  obtain ⟨hid, hs⟩ := Prod.mk.inj hpair
  obtain ⟨t', ht', hid', hs'⟩ := (delegated_end_final found_emptyWorld hall).2.1 t ht
    (by simp [TaskRow.isOpen, hs])
  exact ⟨t', ht', hid'.trans hid, hs'.trans hs⟩

end Plur1bus.Collab
