import Plur1bus.Collab.Ends
import Plur1bus.Collab.Slots

/-!
The counts of the writer slots are exact in every state, whatever throws and in
whatever order the calls, the runs and the releases come; a reservation is used
once and by whom it was made for; and a delegation that throws before its task
is queued leaves nothing behind. The caller that throws when it is told that its
delegation was admitted is the exception: the task stays queued and the run
stays in flight.
-/

namespace Plur1bus.Collab

open List Option Function

variable {env : Env} {d d' d'' : Desk}

/-! ### The counts -/

/-- The number of reservations of a kind. -/
def Desk.count (d : Desk) (p : Reservation → Bool) : ℤ := (d.reservations.countP p : ℕ)

def Reservation.heldFor (projectId : String) (r : Reservation) : Bool :=
  !r.released && decide (r.identity.projectId = projectId)

def Reservation.heldLocal (r : Reservation) : Bool := !r.released && r.isLocal

def Reservation.inUse (r : Reservation) : Bool := !r.released && r.isLocal && r.running

/-- The counters are the numbers of the reservations that are not released. -/
structure Exact (d : Desk) : Prop where
  writers : ∀ projectId, (d.writers projectId).getD 0 = d.count (Reservation.heldFor projectId)
  localReserved : d.localReserved = d.count Reservation.heldLocal
  localRunning : d.localRunning = d.count Reservation.inUse

variable {r : ℕ} {slot slot' : Reservation}

theorem count_set {d : Desk} (h : d.reservations[r]? = some slot) (p : Reservation → Bool) :
    (((d.reservations.set r slot').countP p : ℕ) : ℤ) =
      d.count p - (if p slot then 1 else 0) + (if p slot' then 1 else 0) := by
  grind [Desk.count]

theorem Exact.release (h : Exact d) (r : ℕ) : Exact (d.release r) := by
  unfold Desk.release
  split
  · exact h
  next slot hslot =>
    split
    · exact h
    next hheld =>
      have hheld' : slot.released = false := Bool.eq_false_iff.mpr hheld
      constructor
      · intro p
        show (Function.update d.writers slot.identity.projectId _ p).getD 0 = ((List.countP _ _ : ℕ) : ℤ)
        rw [count_set hslot]
        have hwriters := h.writers p
        by_cases hp : p = slot.identity.projectId
        · subst hp
          -- The slot is counted, so there is a count.
          have hin : slot.heldFor slot.identity.projectId = true := by simp [Reservation.heldFor, hheld']
          have hpos : 1 ≤ d.count (Reservation.heldFor slot.identity.projectId) := by
            have hone := one_le_countP_iff.mpr ⟨slot, mem_of_getElem? hslot, hin⟩
            unfold Desk.count
            omega
          rw [update_self, if_pos hin]
          cases hget : d.writers slot.identity.projectId with
          | none =>
            rw [hget] at hwriters
            change (0 : ℤ) = _ at hwriters
            omega
          | some n =>
            rw [hget] at hwriters
            change n = _ at hwriters
            show n - 1 = _
            rw [hwriters]
            simp [Reservation.heldFor]
        · rw [update_of_ne hp, hwriters]
          have hp' : ¬slot.identity.projectId = p := fun heq => hp heq.symm
          simp [Reservation.heldFor, hp']
      · show (if slot.isLocal then d.localReserved - 1 else d.localReserved) = ((List.countP _ _ : ℕ) : ℤ)
        rw [count_set hslot, h.localReserved]
        cases hl : slot.isLocal <;> simp [Reservation.heldLocal, hheld', hl]
      · show (if slot.isLocal ∧ slot.running then d.localRunning - 1 else d.localRunning) = ((List.countP _ _ : ℕ) : ℤ)
        rw [count_set hslot, h.localRunning]
        cases hl : slot.isLocal <;> cases hr : slot.running <;> simp [Reservation.inUse, hheld', hl, hr]

/-- The counters do not depend on the rest of the service. -/
theorem Exact.congr (h : Exact d) (hreservations : d'.reservations = d.reservations) (hwriters : d'.writers = d.writers)
    (hreserved : d'.localReserved = d.localReserved) (hrunning : d'.localRunning = d.localRunning) : Exact d' := by
  refine ⟨fun p => ?_, ?_, ?_⟩
  · rw [hwriters, Desk.count, hreservations]
    exact h.writers p
  · rw [hreserved, Desk.count, hreservations]
    exact h.localReserved
  · rw [hrunning, Desk.count, hreservations]
    exact h.localRunning

theorem Exact.reserveWriter (h : Exact d) (identity : WriterIdentity) (facts : SlotFacts) :
    Exact (d.reserveWriter env identity facts).1 := by
  unfold Desk.reserveWriter
  split
  · exact h
  · split
    · split
      · exact h.congr rfl rfl rfl rfl
      · exact h.congr rfl rfl rfl rfl
    · have hcount : ∀ p : Reservation → Bool,
          (((d.reservations ++ [(⟨identity, facts.isLocal, false, false⟩ : Reservation)]).countP p : ℕ) : ℤ) =
            d.count p + (if p (⟨identity, facts.isLocal, false, false⟩ : Reservation) then 1 else 0) := by
        intro p
        rw [countP_append, countP_singleton, Desk.count]
        split <;> simp
      constructor
      · intro p
        show (Function.update d.writers identity.projectId _ p).getD 0 = ((List.countP _ _ : ℕ) : ℤ)
        rw [hcount]
        by_cases hp : p = identity.projectId
        · subst hp
          rw [update_self, getD_some, h.writers]
          simp [Reservation.heldFor]
        · have hp' : ¬identity.projectId = p := fun heq => hp heq.symm
          rw [update_of_ne hp, h.writers]
          simp [Reservation.heldFor, hp']
      · show (if facts.isLocal then d.localReserved + 1 else d.localReserved) = ((List.countP _ _ : ℕ) : ℤ)
        rw [hcount, h.localReserved]
        cases hl : facts.isLocal <;> simp [Reservation.heldLocal]
      · show d.localRunning = ((List.countP _ _ : ℕ) : ℤ)
        rw [hcount, h.localRunning]
        simp [Reservation.inUse]

variable {input : WriterIdentity}

theorem Exact.useReservation (h : Exact d) (huse : d.useReservation r input = some d') : Exact d' := by
  unfold Desk.useReservation at huse
  split at huse
  · cases huse
  next slot hslot =>
    split at huse
    · cases huse
    next hfree =>
      cases huse
      have hheld : slot.released = false := Bool.eq_false_iff.mpr fun hno => hfree (.inl hno)
      have hidle : slot.running = false := Bool.eq_false_iff.mpr fun hno => hfree (.inr (.inl hno))
      constructor
      · intro p
        show (d.writers p).getD 0 = ((List.countP _ _ : ℕ) : ℤ)
        rw [count_set hslot, h.writers]
        simp [Reservation.heldFor]
      · show d.localReserved = ((List.countP _ _ : ℕ) : ℤ)
        rw [count_set hslot, h.localReserved]
        simp [Reservation.heldLocal]
      · show (if slot.isLocal then d.localRunning + 1 else d.localRunning) = ((List.countP _ _ : ℕ) : ℤ)
        rw [count_set hslot, h.localRunning]
        cases hl : slot.isLocal <;> simp [Reservation.inUse, hheld, hidle, hl]

/-! ### Reservations over time -/

/-- Reservations are not lost, and what is in use or released stays so. -/
def Later (d d' : Desk) : Prop :=
  ∀ (r : ℕ) (slot : Reservation), d.reservations[r]? = some slot → ∃ slot', d'.reservations[r]? = some slot' ∧
    slot'.identity = slot.identity ∧ (slot.running = true → slot'.running = true) ∧
      (slot.released = true → slot'.released = true)

theorem Later.of_eq (h : d'.reservations = d.reservations) : Later d d' := by
  intro r slot hslot
  exact ⟨slot, by rw [h]; exact hslot, rfl, id, id⟩

theorem Later.trans (h : Later d d') (h' : Later d' d'') : Later d d'' := by
  intro r slot hslot
  obtain ⟨slot', hslot', hid, hrun, hrel⟩ := h r slot hslot
  obtain ⟨slot'', hslot'', hid', hrun', hrel'⟩ := h' r slot' hslot'
  exact ⟨slot'', hslot'', hid'.trans hid, fun hr => hrun' (hrun hr), fun hr => hrel' (hrel hr)⟩

theorem later_set (hslot : d.reservations[r]? = some slot)
    (h : d'.reservations = d.reservations.set r slot') (hid : slot'.identity = slot.identity)
    (hrun : slot.running = true → slot'.running = true)
    (hrel : slot.released = true → slot'.released = true) : Later d d' := by
  grind [Later]

theorem later_release (r : ℕ) : Later d (d.release r) := by
  unfold Desk.release
  split
  · exact Later.of_eq rfl
  next slot hslot =>
    split
    · exact Later.of_eq rfl
    · exact later_set hslot rfl rfl id (fun _ => rfl)

theorem later_releaseAny (reservation : Option ℕ) : Later d (d.releaseAny reservation) := by
  cases reservation with
  | none => exact Later.of_eq rfl
  | some r => exact later_release r

theorem length_release (r : ℕ) : (d.release r).reservations.length = d.reservations.length := by
  unfold Desk.release
  split
  · rfl
  · split
    · rfl
    · exact length_set

theorem writers_release_le (r : ℕ) (projectId : String) :
    ((d.release r).writers projectId).getD 0 ≤ (d.writers projectId).getD 0 := by
  unfold Desk.release
  split
  · exact Int.le_refl _
  next slot _ =>
    split
    · exact Int.le_refl _
    · show (Function.update d.writers slot.identity.projectId _ projectId).getD 0 ≤ _
      by_cases hp : projectId = slot.identity.projectId
      · subst hp
        rw [update_self, getD_some]
        cases d.writers slot.identity.projectId with
        | none => decide
        | some n =>
          show n - 1 ≤ n
          omega
      · rewrite [update_of_ne hp]
        exact Int.le_refl _

/-- A reservation that is released is released. -/
theorem released_release (hslot : (d.release r).reservations[r]? = some slot) : slot.released = true := by
  grind [Desk.release]

/-- A reservation that is made is the last one, for whom it is asked, and within
the limit of the project. Where it throws there is none. -/
theorem reserveWriter_spec (identity : WriterIdentity) (facts : SlotFacts) :
    ((d.reserveWriter env identity facts).2 = none ∧
        (d.reserveWriter env identity facts).1.reservations = d.reservations) ∨
      ((d.reserveWriter env identity facts).2 = some d.reservations.length ∧
        (d.reserveWriter env identity facts).1.reservations =
          d.reservations ++ [(⟨identity, facts.isLocal, false, false⟩ : Reservation)] ∧
        (d.reserveWriter env identity facts).1.world = d.world ∧
        ((d.reserveWriter env identity facts).1.writers identity.projectId).getD 0 ≤ facts.perProject) := by
  unfold Desk.reserveWriter
  split
  · exact .inl ⟨rfl, rfl⟩
  · split
    · split
      · exact .inl ⟨rfl, rfl⟩
      · exact .inl ⟨rfl, rfl⟩
    next hfull =>
      refine .inr ⟨rfl, rfl, rfl, ?_⟩
      show (Function.update d.writers identity.projectId _ identity.projectId).getD 0 ≤ _
      rw [update_self, getD_some]
      simp only [Desk.full, Bool.or_eq_true, decide_eq_true_eq, not_or] at hfull
      omega

theorem later_reserveWriter (identity : WriterIdentity) (facts : SlotFacts) :
    Later d (d.reserveWriter env identity facts).1 := by
  grind [Desk.reserveWriter, Later]

/-- A reservation is used while it is neither in use nor released, by whom it is for. -/
theorem useReservation_spec (huse : d.useReservation r input = some d') :
    ∃ slot, d.reservations[r]? = some slot ∧ slot.released = false ∧ slot.running = false ∧
      slot.identity.fits input = true ∧ d'.reservations = d.reservations.set r { slot with running := true } ∧
      d'.world = d.world ∧ d'.writers = d.writers ∧ d'.booked = d.booked := by
  unfold Desk.useReservation at huse
  split at huse
  · cases huse
  next slot hslot => grind

theorem later_useReservation (huse : d.useReservation r input = some d') : Later d d' := by
  obtain ⟨slot, hslot, -, -, -, hset, -⟩ := useReservation_spec huse
  exact later_set hslot hset rfl (fun _ => rfl) id

/-! ### The chains and the runs -/

/-- Chains come with their traces, traces stay, and so do the runs, but for `x`. -/
structure Mild (x : Option ℕ) (w w' : World) : Prop where
  chains : ∀ c' ∈ w'.chains, (∃ c ∈ w.chains, c.traceId = c'.traceId) ∨ ∃ t ∈ w'.traces, t.traceId = c'.traceId
  traces : ∀ t ∈ w.traces, ∃ t' ∈ w'.traces, t'.traceId = t.traceId
  runs : ∀ r ∈ w.runs, some r.controller ≠ x → ∃ r' ∈ w'.runs, r'.controller = r.controller

section Mild

variable {x : Option ℕ} {w w' w'' : World}

theorem Mild.of_eq (hchains : w'.chains = w.chains) (htraces : w'.traces = w.traces) (hruns : w'.runs = w.runs) :
    Mild x w w' where
  chains := fun c hc => .inl ⟨c, by rw [← hchains]; exact hc, rfl⟩
  traces := fun t ht => ⟨t, by rw [htraces]; exact ht, rfl⟩
  runs := fun r hr _ => ⟨r, by rw [hruns]; exact hr, rfl⟩

theorem Mild.refl : Mild x w w := Mild.of_eq rfl rfl rfl

theorem Mild.trans (h : Mild x w w') (h' : Mild x w' w'') : Mild x w w'' where
  chains := by
    intro c'' hc''
    obtain ⟨c', hc', hid⟩ | hnew := h'.chains c'' hc''
    · obtain ⟨c, hc, hid'⟩ | ⟨t', ht', hid'⟩ := h.chains c' hc'
      · exact .inl ⟨c, hc, hid'.trans hid⟩
      · obtain ⟨t'', ht'', hid''⟩ := h'.traces t' ht'
        exact .inr ⟨t'', ht'', hid''.trans (hid'.trans hid)⟩
    · exact .inr hnew
  traces := by
    intro t ht
    obtain ⟨t', ht', hid⟩ := h.traces t ht
    obtain ⟨t'', ht'', hid'⟩ := h'.traces t' ht'
    exact ⟨t'', ht'', hid'.trans hid⟩
  runs := by
    intro r hr hne
    obtain ⟨r', hr', hid⟩ := h.runs r hr hne
    obtain ⟨r'', hr'', hid'⟩ := h'.runs r' hr' (by rw [hid]; exact hne)
    exact ⟨r'', hr'', hid'.trans hid⟩

variable {f : Chain → Chain}

theorem mild_mapChains (hf : ∀ c, (f c).traceId = c.traceId) (hchains : w'.chains = w.chains.map f)
    (htraces : w'.traces = w.traces) (hruns : w'.runs = w.runs) : Mild x w w' where
  chains := by
    intro c' hc'
    rw [hchains] at hc'
    obtain ⟨c, hc, rfl⟩ := mem_map.mp hc'
    exact .inl ⟨c, hc, (hf c).symm⟩
  traces := fun t ht => ⟨t, by rw [htraces]; exact ht, rfl⟩
  runs := fun r hr _ => ⟨r, by rw [hruns]; exact hr, rfl⟩

theorem mild_setChain {traceId : String} (hf : ∀ c, (f c).traceId = c.traceId) :
    Mild x w (w.setChain traceId f) := by
  refine mild_mapChains (f := fun c => if c.traceId = traceId then f c else c) ?_ rfl rfl rfl
  intro c
  split
  · exact hf c
  · rfl

theorem mild_putChain {c : Chain} (htrace : ∃ t ∈ w.traces, t.traceId = c.traceId) : Mild x w (w.putChain c) where
  chains := by
    intro c' hc'
    obtain hold | hnew := mem_append.mp hc'
    · exact .inl ⟨c', (mem_filter.mp hold).1, rfl⟩
    · cases mem_singleton.mp hnew
      exact .inr htrace
  traces := fun t ht => ⟨t, ht, rfl⟩
  runs := fun r hr _ => ⟨r, hr, rfl⟩

theorem mild_beginChain (env : Env) (projectId rootAgent : String) (signal : Option ℕ) :
    Mild x w (w.beginChain env projectId rootAgent signal).1 := by
  unfold World.beginChain
  split
  · exact Mild.refl
  · have hmid : Mild x w { w with traces := w.traces ++
        [⟨env.traceId, projectId, rootAgent, env.rootSpanId, env.now, none, .running⟩] } := by
      refine ⟨?_, ?_, ?_⟩
      · exact fun c hc => .inl ⟨c, hc, rfl⟩
      · exact fun t ht => ⟨t, mem_append_left _ ht, rfl⟩
      · exact fun r hr _ => ⟨r, hr, rfl⟩
    exact hmid.trans (mild_putChain ⟨_, mem_append_right _ (mem_singleton_self _), rfl⟩)

theorem mild_getChain (env : Env) (traceId : Option String) (projectId rootAgent : String) (signal : Option ℕ) :
    Mild x w (w.getChain env traceId projectId rootAgent signal).1 := by
  unfold World.getChain
  split
  · exact mild_beginChain env projectId rootAgent signal
  · exact mild_beginChain env projectId rootAgent signal
  · split
    · exact Mild.refl
    · split
      next persisted htrace =>
        split
        · obtain ⟨ht, -⟩ := trace?_some htrace
          exact mild_putChain ⟨persisted, ht, rfl⟩
        · exact Mild.refl
      · exact Mild.refl

theorem mild_refuse (env : Env) (traceId : String) (i : CallInput) (reason : String) :
    Mild x w (w.refuse env traceId i reason) := by
  unfold World.refuse
  split
  · exact Mild.refl
  · exact Mild.of_eq rfl rfl rfl

/-- The span of a call is counted and stored, and nothing else happens. -/
theorem admitSpan_spec (env : Env) (traceId : String) (i : CallInput) (kind : SpanKind) :
    (w.admitSpan env traceId i kind).1 = w ∨ ∃ spans, (w.admitSpan env traceId i kind).1 =
      { w.setChain traceId (fun c => { c with fanout := c.fanout + 1 }) with spans := spans } := by
  unfold World.admitSpan
  split
  · exact .inl rfl
  next chain _ =>
    dsimp only
    generalize (if chain.fanout = 0 then chain.rootSpanId else env.spanId) = spanId
    split
    · exact .inr ⟨_, rfl⟩
    · exact .inr ⟨_, rfl⟩

theorem mild_admitSpan (env : Env) (traceId : String) (i : CallInput) (kind : SpanKind) :
    Mild x w (w.admitSpan env traceId i kind).1 := by
  obtain hsame | ⟨spans, hspans⟩ := admitSpan_spec (w := w) env traceId i kind
  · rw [hsame]
    exact Mild.refl
  · rw [hspans]
    exact (mild_setChain (f := fun c => { c with fanout := c.fanout + 1 }) fun _ => rfl).trans (Mild.of_eq rfl rfl rfl)

theorem mild_launch (traceId spanId : String) (task : Option String) (signal : Option ℕ) :
    Mild x w (w.launch traceId spanId task signal) := by
  have hchain : Mild x w (w.setChain traceId fun c => { c with inflight := c.inflight ++ [w.next] }) :=
    mild_setChain fun _ => rfl
  refine hchain.trans ⟨?_, ?_, ?_⟩
  · exact fun c hc => .inl ⟨c, hc, rfl⟩
  · exact fun t ht => ⟨t, ht, rfl⟩
  · exact fun r hr _ => ⟨r, mem_append_left _ hr, rfl⟩

end Mild

/-! ### What a call that throws leaves alone -/

/-- What is in flight in a trace. -/
def World.inflight (w : World) (traceId : String) : List ℕ := ((w.chain? traceId).map (·.inflight)).getD []

/-- No task is added, and what is in flight stays. -/
structure Leaves (w w' : World) : Prop where
  tasks : w'.tasks = w.tasks
  inflight : ∀ traceId, w'.inflight traceId = w.inflight traceId

/-- Every chain has its trace. -/
def Chained (w : World) : Prop := ∀ c ∈ w.chains, ∃ t ∈ w.traces, t.traceId = c.traceId

section Leaves

variable {w w' w'' : World}

theorem Chained.step {x : Option ℕ} (h : Chained w) (hm : Mild x w w') : Chained w' := by
  intro c' hc'
  obtain ⟨c, hc, hid⟩ | hnew := hm.chains c' hc'
  · obtain ⟨t, ht, hid'⟩ := h c hc
    obtain ⟨t', ht', hid''⟩ := hm.traces t ht
    exact ⟨t', ht', hid''.trans (hid'.trans hid)⟩
  · exact hnew

theorem Leaves.of_eq (htasks : w'.tasks = w.tasks) (hchains : w'.chains = w.chains) : Leaves w w' := by
  refine ⟨htasks, fun traceId => ?_⟩
  unfold World.inflight World.chain?
  rw [hchains]

theorem Leaves.trans (h : Leaves w w') (h' : Leaves w' w'') : Leaves w w'' :=
  ⟨h'.tasks.trans h.tasks, fun traceId => (h'.inflight traceId).trans (h.inflight traceId)⟩

theorem leaves_setChain {traceId : String} {f : Chain → Chain} (hid : ∀ c, (f c).traceId = c.traceId)
    (hinflight : ∀ c, (f c).inflight = c.inflight) : Leaves w (w.setChain traceId f) := by
  refine ⟨rfl, fun T => ?_⟩
  have hsame : ∀ c : Chain, (if c.traceId = traceId then f c else c).traceId = c.traceId := by
    intro c
    split
    · exact hid c
    · rfl
  unfold World.inflight World.chain? World.setChain
  rw [List.find?_map, Option.map_map]
  have hfind : ((fun c : Chain => decide (c.traceId = T)) ∘ fun c => if c.traceId = traceId then f c else c) =
      fun c => decide (c.traceId = T) := by
    funext c
    exact congrArg (fun id => decide (id = T)) (hsame c)
  rw [hfind]
  congr 2
  funext c
  show (if c.traceId = traceId then f c else c).inflight = c.inflight
  split
  · exact hinflight c
  · rfl

theorem leaves_putChain {c : Chain} (hnone : ∀ c' ∈ w.chains, c'.traceId ≠ c.traceId) (hc : c.inflight = []) :
    Leaves w (w.putChain c) := by
  refine ⟨rfl, fun T => ?_⟩
  unfold World.inflight World.chain? World.putChain
  have hall : w.chains.filter (·.traceId ≠ c.traceId) = w.chains :=
    filter_eq_self.mpr fun c' hc' => decide_eq_true (hnone c' hc')
  show (Option.map (·.inflight) (List.find? _ (w.chains.filter (·.traceId ≠ c.traceId) ++ [c]))).getD [] = _
  rw [hall, List.find?_append]
  cases hfind : w.chains.find? (fun c => decide (c.traceId = T)) with
  | some c' => rfl
  | none =>
    rw [none_or, List.find?_singleton]
    split
    · exact hc
    · rfl

theorem leaves_beginChain (h : Chained w) (env : Env) (projectId rootAgent : String) (signal : Option ℕ) :
    Leaves w (w.beginChain env projectId rootAgent signal).1 := by
  unfold World.beginChain
  split
  · exact Leaves.of_eq rfl rfl
  next hfree =>
    have htrace : Leaves w { w with traces := w.traces ++
        [⟨env.traceId, projectId, rootAgent, env.rootSpanId, env.now, none, .running⟩] } := Leaves.of_eq rfl rfl
    refine htrace.trans (leaves_putChain ?_ rfl)
    intro c hc heq
    obtain ⟨t, ht, hid⟩ := h c hc
    exact hfree ⟨t, ht, hid.trans heq⟩

theorem leaves_getChain (h : Chained w) (env : Env) (traceId : Option String) (projectId rootAgent : String)
    (signal : Option ℕ) : Leaves w (w.getChain env traceId projectId rootAgent signal).1 := by
  unfold World.getChain
  split
  · exact leaves_beginChain h env projectId rootAgent signal
  · exact leaves_beginChain h env projectId rootAgent signal
  next T _ =>
    split
    · exact Leaves.of_eq rfl rfl
    next hnone =>
      split
      next persisted htrace =>
        split
        · refine leaves_putChain ?_ rfl
          obtain ⟨-, hid⟩ := trace?_some htrace
          intro c hc heq
          exact Sound.chain?_none hnone c hc (heq.trans hid)
        · exact Leaves.of_eq rfl rfl
      · exact Leaves.of_eq rfl rfl

theorem leaves_refuse (env : Env) (traceId : String) (i : CallInput) (reason : String) :
    Leaves w (w.refuse env traceId i reason) := by
  unfold World.refuse
  split
  · exact Leaves.of_eq rfl rfl
  · exact Leaves.of_eq rfl rfl

theorem leaves_admitSpan (env : Env) (traceId : String) (i : CallInput) (kind : SpanKind) :
    Leaves w (w.admitSpan env traceId i kind).1 := by
  obtain hsame | ⟨spans, hspans⟩ := admitSpan_spec (w := w) env traceId i kind
  · rw [hsame]
    exact Leaves.of_eq rfl rfl
  · rw [hspans]
    exact (leaves_setChain (f := fun c => { c with fanout := c.fanout + 1 }) (fun _ => rfl) fun _ => rfl).trans
      (Leaves.of_eq rfl rfl)

end Leaves

/-! ### A delegation -/

/-- What holds after a part of a call, whatever came of it. -/
structure Goes (d d' : Desk) : Prop where
  exact : Exact d'
  later : Later d d'
  mild : Mild none d.world d'.world
  booked : d'.booked = d.booked

theorem Goes.trans (h : Goes d d') (h' : Goes d' d'') : Goes d d'' :=
  ⟨h'.exact, h.later.trans h'.later, h.mild.trans h'.mild, h'.booked.trans h.booked⟩

variable {w : World}

theorem goes_world (h : Exact d) (hw : Mild none d.world w) : Goes d { d with world := w } :=
  ⟨h.congr rfl rfl rfl rfl, Later.of_eq rfl, hw, rfl⟩

theorem release_rest (r : ℕ) : (d.release r).world = d.world ∧ (d.release r).booked = d.booked := by
  unfold Desk.release
  split
  · exact ⟨rfl, rfl⟩
  · split
    · exact ⟨rfl, rfl⟩
    · exact ⟨rfl, rfl⟩

theorem goes_release (h : Exact d) (r : ℕ) : Goes d (d.release r) := by
  obtain ⟨hworld, hbooked⟩ := @release_rest d r
  refine ⟨h.release r, later_release r, ?_, hbooked⟩
  rw [hworld]
  exact Mild.refl

theorem goes_releaseAny (h : Exact d) (reservation : Option ℕ) : Goes d (d.releaseAny reservation) := by
  cases reservation with
  | none => exact ⟨h, Later.of_eq rfl, Mild.refl, rfl⟩
  | some r => exact goes_release h r

theorem world_releaseAny (reservation : Option ℕ) : (d.releaseAny reservation).world = d.world := by
  cases reservation with
  | none => rfl
  | some r => exact (@release_rest d r).1

theorem goes_reserveWriter (h : Exact d) (identity : WriterIdentity) (facts : SlotFacts) :
    Goes d (d.reserveWriter env identity facts).1 := by
  refine ⟨h.reserveWriter identity facts, later_reserveWriter identity facts, ?_, ?_⟩
  · unfold Desk.reserveWriter
    split
    · exact Mild.refl
    · split
      · have hget := @mild_getChain none d.world env identity.traceId identity.projectId identity.fromAgent none
        split
        next w hw =>
          rw [hw] at hget
          exact hget
        next w T hw =>
          rw [hw] at hget
          exact hget.trans (mild_refuse env T _ _)
      · exact Mild.refl
  · unfold Desk.reserveWriter
    split
    · rfl
    · split
      · split
        · rfl
        · rfl
      · rfl

theorem leaves_reserveWriter (h : Chained d.world) (identity : WriterIdentity) (facts : SlotFacts) :
    Leaves d.world (d.reserveWriter env identity facts).1.world := by
  unfold Desk.reserveWriter
  split
  · exact Leaves.of_eq rfl rfl
  · split
    · have hget := leaves_getChain h env identity.traceId identity.projectId identity.fromAgent none
      split
      next w hw =>
        rw [hw] at hget
        exact hget
      next w T hw =>
        rw [hw] at hget
        exact hget.trans (leaves_refuse env T _ _)
    · exact Leaves.of_eq rfl rfl

theorem goes_useReservation (h : Exact d) (huse : d.useReservation r input = some d') : Goes d d' := by
  obtain ⟨slot, -, -, -, -, -, hworld, -, hbooked⟩ := useReservation_spec huse
  refine ⟨h.useReservation huse, later_useReservation huse, ?_, hbooked⟩
  rw [hworld]
  exact Mild.refl

/-- Call `i` has taken reservation `r` into use. -/
structure Uses (d d' : Desk) (i : DelegateInput) (r : ℕ) : Prop where
  before : ∀ slot, d.reservations[r]? = some slot → slot.running = false ∧ slot.released = false
  after : ∃ slot, d'.reservations[r]? = some slot ∧ slot.running = true ∧
    slot.identity.fits (i.identity i.call.traceId) = true

variable {i : DelegateInput}

theorem Uses.later (h : Uses d d' i r) (hl : Later d' d'') : Uses d d'' i r := by
  refine ⟨h.before, ?_⟩
  obtain ⟨slot, hslot, hrun, hfits⟩ := h.after
  obtain ⟨slot', hslot', hid, hrun', -⟩ := hl r slot hslot
  exact ⟨slot', hslot', hrun' hrun, by rw [hid]; exact hfits⟩

/-- Every reservation that was made since is released, but for `kept`. -/
def Freed (d d' : Desk) (kept : Option ℕ) : Prop :=
  ∀ (r : ℕ) (slot : Reservation), d.reservations.length ≤ r → d'.reservations[r]? = some slot →
    slot.released = true ∨ kept = some r

theorem freed_of_eq {kept : Option ℕ} (h : d'.reservations.length = d.reservations.length) : Freed d d' kept := by
  intro r slot hr hslot
  have hlt := (List.getElem?_eq_some_iff.mp hslot).1
  omega

/-- What `hold` does. -/
structure Holds (d d' : Desk) (i : DelegateInput) (held : Option (Option ℕ)) : Prop where
  goes : Goes d d'
  leaves : Leaves d.world d'.world
  uses : ∀ r, held = some (some r) → Uses d d' i r
  freed : Freed d d' (held.getD none)
  limit : d.reservations.length < d'.reservations.length → (d'.writers i.call.projectId).getD 0 ≤ i.facts.perProject

theorem holds_hold (h : Exact d) (hc : Chained d.world) (i : DelegateInput) (traceId : String) :
    Holds d (d.hold env i traceId).1 i (d.hold env i traceId).2 := by
  have hsame : ∀ {kept : Option ℕ}, Freed d d kept := freed_of_eq rfl
  have hstay : Goes d d := ⟨h, Later.of_eq rfl, Mild.refl, rfl⟩
  unfold Desk.hold
  split
  · exact ⟨hstay, Leaves.of_eq rfl rfl, fun r hr => (by cases hr), hsame, fun hno => absurd hno (Nat.lt_irrefl _)⟩
  · split
    next r hr =>
      split
      · exact ⟨hstay, Leaves.of_eq rfl rfl, fun r hr => (by cases hr), hsame, fun hno => absurd hno (Nat.lt_irrefl _)⟩
      next d' huse =>
        obtain ⟨slot, hslot, hrel, hrun, hfits, hset, hworld, -⟩ := useReservation_spec huse
        have hlen : d'.reservations.length = d.reservations.length := by rw [hset, length_set]
        refine ⟨goes_useReservation h huse, ?_, ?_, freed_of_eq hlen, fun hno => ?_⟩
        · show Leaves d.world d'.world
          rw [hworld]
          exact Leaves.of_eq rfl rfl
        · intro r' hr'
          cases hr'
          refine ⟨?_, { slot with running := true }, ?_, rfl, hfits⟩
          · intro slot' hslot'
            rw [hslot] at hslot'
            cases hslot'
            exact ⟨hrun, hrel⟩
          · grind
        · change _ < d'.reservations.length at hno
          omega
    · -- The call takes a reservation itself.
      have hgo := @goes_reserveWriter env d h (i.identity (some traceId)) i.facts
      have hleaves := @leaves_reserveWriter env d hc (i.identity (some traceId)) i.facts
      have hspec := @reserveWriter_spec env d (i.identity (some traceId)) i.facts
      split
      next d₁ hres =>
        rw [hres] at hgo hleaves hspec
        obtain ⟨-, hsame'⟩ | ⟨hno, -⟩ := hspec
        · refine ⟨hgo, hleaves, fun r hr => (by cases hr), freed_of_eq (by rw [hsame']), fun hno => ?_⟩
          change _ < d₁.reservations.length at hno
          change d₁.reservations = _ at hsame'
          rw [hsame'] at hno
          exact absurd hno (Nat.lt_irrefl _)
        · cases hno
      next d₁ r hres =>
        rw [hres] at hgo hleaves hspec
        obtain ⟨hno, -⟩ | ⟨hr, hnew, -, hlimit⟩ := hspec
        · cases hno
        · obtain rfl : r = d.reservations.length := Option.some.inj hr
          have hlen : d₁.reservations.length = d.reservations.length + 1 := by
            change d₁.reservations = _ at hnew
            rw [hnew, length_append, length_singleton]
          split
          · refine ⟨hgo.trans (goes_release hgo.exact _), ?_, fun r hr => (by cases hr), ?_,
              fun _ => Int.le_trans (writers_release_le _ _) hlimit⟩
            · show Leaves d.world (d₁.release _).world
              rw [(@release_rest d₁ _).1]
              exact hleaves
            · intro r slot hle hslot'
              have hlt := (List.getElem?_eq_some_iff.mp hslot').1
              change r < (d₁.release _).reservations.length at hlt
              rw [length_release, hlen] at hlt
              obtain rfl : r = d.reservations.length := by omega
              exact .inl (released_release hslot')
          next d₂ huse =>
            obtain ⟨slot, hslot', hrel, hrun, hfits, hset, hworld', hwriters, -⟩ := useReservation_spec huse
            refine ⟨hgo.trans (goes_useReservation hgo.exact huse), ?_, ?_, ?_, fun _ => ?_⟩
            · show Leaves d.world d₂.world
              rw [hworld']
              exact hleaves
            · intro r hr'
              cases hr'
              refine ⟨?_, { slot with running := true }, ?_, rfl, hfits⟩
              · intro old hold
                exact absurd (List.getElem?_eq_some_iff.mp hold).1 (Nat.lt_irrefl _)
              · simp_all
            · intro r slot' hle hnew'
              have hlt := (List.getElem?_eq_some_iff.mp hnew').1
              change r < d₂.reservations.length at hlt
              rw [hset, length_set, hlen] at hlt
              obtain rfl : r = d.reservations.length := by omega
              exact .inr rfl
            · show (d₂.writers i.call.projectId).getD 0 ≤ _
              rw [hwriters]
              exact hlimit

/-- What a delegation does up to its queued task. -/
structure Delegates (d d' : Desk) (i : DelegateInput) (o : Outcome) : Prop where
  exact : Exact d'
  later : Later d d'
  mild : Mild none d.world d'.world
  booked : ∀ c r, d'.booked c = some r → d.booked c = some r ∨
    ((∃ slot, d'.reservations[r]? = some slot) ∧ ∃ run ∈ d'.world.runs, run.controller = c)
  uses : ∀ r, o.used = some r → Uses d d' i r
  threw : o.threw = true → Leaves d.world d'.world ∧ Freed d d' none
  limit : d.reservations.length < d'.reservations.length → (d'.writers i.call.projectId).getD 0 ≤ i.facts.perProject

theorem Goes.threw (h : Goes d d') (hleaves : Leaves d.world d'.world) (hfreed : Freed d d' none)
    (hlimit : d.reservations.length < d'.reservations.length →
      (d'.writers i.call.projectId).getD 0 ≤ i.facts.perProject) :
    Delegates d d' i { threw := true } where
  exact := h.exact
  later := h.later
  mild := h.mild
  booked := fun c r hr => .inl (by rw [← h.booked]; exact hr)
  uses := fun r hr => (by cases hr)
  threw := fun _ => ⟨hleaves, hfreed⟩
  limit := hlimit

variable {reservation : Option ℕ}

/-- A call that has its reservation and throws. -/
theorem Holds.threw (h : Holds d d' i (some reservation)) (hmild : Mild none d'.world w)
    (hleaves : Leaves d'.world w) :
    Delegates d (({ d' with world := w } : Desk).releaseAny reservation) i { threw := true, used := reservation } := by
  have hgo : Goes d (({ d' with world := w } : Desk).releaseAny reservation) :=
    (h.goes.trans (goes_world h.goes.exact hmild)).trans (goes_releaseAny (goes_world h.goes.exact hmild).exact reservation)
  refine ⟨hgo.exact, hgo.later, hgo.mild, fun c r hr => .inl (by rw [← hgo.booked]; exact hr), ?_, fun _ => ⟨?_, ?_⟩,
    fun hmore => ?_⟩
  · intro r hr
    have hl : Later d' (({ d' with world := w } : Desk).releaseAny reservation) :=
      Later.trans (show Later d' { d' with world := w } from Later.of_eq rfl) (later_releaseAny reservation)
    exact (h.uses r (congrArg some hr)).later hl
  · rw [world_releaseAny]
    exact h.leaves.trans hleaves
  · intro r slot hle hslot
    left
    cases reservation with
    | none =>
      obtain hrel | hno := h.freed r slot hle hslot
      · exact hrel
      · cases hno
    | some r' =>
      by_cases hr : r = r'
      · subst hr
        exact released_release hslot
      · -- Another reservation that was made since was released before.
        have hlt := (List.getElem?_eq_some_iff.mp hslot).1
        change r < (Desk.release { d' with world := w } r').reservations.length at hlt
        rw [length_release] at hlt
        obtain hrel | heq := h.freed r _ hle (List.getElem?_eq_getElem hlt)
        · obtain ⟨slot', hslot', -, -, hkeep⟩ := @later_release { d' with world := w } r' r _ (List.getElem?_eq_getElem hlt)
          cases hslot'.symm.trans hslot
          exact hkeep hrel
        · exact absurd (Option.some.inj heq).symm hr
  · cases reservation with
    | none => exact h.limit hmore
    | some r' =>
      change _ < (Desk.release { d' with world := w } r').reservations.length at hmore
      rw [length_release] at hmore
      exact Int.le_trans (writers_release_le _ _) (h.limit hmore)

theorem Holds.insert (h : Holds d d' i (some reservation)) (traceId : String) :
    Delegates d (d'.insert env i traceId reservation).1 i (d'.insert env i traceId reservation).2 := by
  unfold Desk.insert
  split
  · exact h.threw (mild_setChain fun _ => rfl) (leaves_setChain (fun _ => rfl) fun _ => rfl)
  · have hmild := @mild_admitSpan none d'.world env traceId i.call .delegate
    have hleaves := @leaves_admitSpan d'.world env traceId i.call .delegate
    split
    next w hw =>
      rw [hw] at hmild hleaves
      exact h.threw hmild hleaves
    next w spanId hw =>
      rw [hw] at hmild hleaves
      split
      · dsimp only
        split
        · exact h.threw hmild hleaves
        · exact h.threw (hmild.trans (Mild.of_eq rfl rfl rfl)) (hleaves.trans (Leaves.of_eq rfl rfl))
      · dsimp only
        refine ⟨h.goes.exact.congr rfl rfl rfl rfl, h.goes.later.trans (Later.of_eq rfl), ?_, ?_, ?_,
          fun hno => (by cases hno), h.limit⟩
        · refine (h.goes.mild.trans hmild).trans (Mild.trans
            (show Mild _ w { w with tasks := w.tasks ++ [_] } from Mild.of_eq rfl rfl rfl) (mild_launch traceId spanId _ _))
        · intro c r hr
          by_cases hc : c = w.next
          · right
            subst hc
            change Function.update d'.booked w.next reservation w.next = some r at hr
            rw [update_self] at hr
            obtain ⟨slot, hslot, -⟩ := (h.uses r (congrArg some hr)).after
            exact ⟨⟨slot, hslot⟩, _, mem_append_right _ (mem_singleton_self _), rfl⟩
          · left
            change Function.update d'.booked w.next reservation c = some r at hr
            rw [update_of_ne hc, h.goes.booked] at hr
            exact hr
        · intro r hr
          exact (h.uses r (congrArg some hr)).later (Later.of_eq rfl)

theorem delegates_delegate (h : Exact d) (hc : Chained d.world) (i : DelegateInput) :
    Delegates d (d.delegate env i).1 i (d.delegate env i).2 := by
  unfold Desk.delegate
  split
  · exact (Goes.mk h (Later.of_eq rfl) Mild.refl rfl).threw (Leaves.of_eq rfl rfl) (freed_of_eq rfl) (fun hno => absurd hno (Nat.lt_irrefl _))
  · have hmild := @mild_getChain none d.world env i.call.traceId i.call.projectId i.call.fromAgent i.call.signal
    have hleaves := leaves_getChain hc env i.call.traceId i.call.projectId i.call.fromAgent i.call.signal
    split
    next w hw =>
      rw [hw] at hmild hleaves
      exact (goes_world h hmild).threw hleaves (freed_of_eq rfl) (fun hno => absurd hno (Nat.lt_irrefl _))
    next w traceId hw =>
      rw [hw] at hmild hleaves
      have hgo := goes_world h hmild
      split
      · exact hgo.threw hleaves (freed_of_eq rfl) (fun hno => absurd hno (Nat.lt_irrefl _))
      · exact hgo.threw hleaves (freed_of_eq rfl) (fun hno => absurd hno (Nat.lt_irrefl _))
      · exact (goes_world h (hmild.trans (mild_refuse env traceId i.call _))).threw
          (hleaves.trans (leaves_refuse env traceId i.call _)) (freed_of_eq rfl) (fun hno => absurd hno (Nat.lt_irrefl _))
      · have hhold := @holds_hold env { d with world := w } hgo.exact (hc.step hmild) i traceId
        -- What is held since the chain was found is held since the call began.
        have hsince : Holds d (({ d with world := w } : Desk).hold env i traceId).1 i
            (({ d with world := w } : Desk).hold env i traceId).2 :=
          ⟨hgo.trans hhold.goes, hleaves.trans hhold.leaves, fun r hr => ⟨(hhold.uses r hr).before, (hhold.uses r hr).after⟩,
            hhold.freed, hhold.limit⟩
        split
        next d' hd' =>
          rw [hd'] at hsince
          exact hsince.goes.threw hsince.leaves hsince.freed hsince.limit
        next d' reservation hd' =>
          rw [hd'] at hsince
          exact hsince.insert traceId

/-! ### Every step -/

/-- What holds of the desk in every state. -/
structure Steady (d : Desk) : Prop where
  exact : Exact d
  chained : Chained d.world
  /-- A run that is over has released its reservation. -/
  held : ∀ c r : ℕ, d.booked c = some r → ∃ slot, d.reservations[r]? = some slot ∧
    (slot.released = true ∨ ∃ run ∈ d.world.runs, run.controller = c)

/-- What is held stays held, and what comes to be held has its run. -/
theorem Steady.next (h : Steady d) (hexact : Exact d') (hlater : Later d d') {x : Option ℕ}
    (hmild : Mild x d.world d'.world)
    (hbooked : ∀ c r, d'.booked c = some r → d.booked c = some r ∨
      ((∃ slot, d'.reservations[r]? = some slot) ∧ ∃ run ∈ d'.world.runs, run.controller = c))
    (hover : ∀ c r slot, x = some c → d.booked c = some r → d'.reservations[r]? = some slot →
      slot.released = true ∨ ∃ run ∈ d'.world.runs, run.controller = c) : Steady d' := by
  refine ⟨hexact, h.chained.step hmild, ?_⟩
  intro c r hr
  obtain hold | ⟨⟨slot, hslot⟩, hrun⟩ := hbooked c r hr
  · obtain ⟨slot, hslot, hstate⟩ := h.held c r hold
    obtain ⟨slot', hslot', -, -, hrel⟩ := hlater r slot hslot
    refine ⟨slot', hslot', ?_⟩
    by_cases hx : x = some c
    · exact hover c r slot' hx hold hslot'
    · obtain hrel' | ⟨run, hrun, hc⟩ := hstate
      · exact .inl (hrel hrel')
      · obtain ⟨run', hrun', hc'⟩ := hmild.runs run hrun (by rw [hc]; exact fun heq => hx heq.symm)
        exact .inr ⟨run', hrun', hc'.trans hc⟩
  · exact ⟨slot, hslot, .inr hrun⟩

/-- As `next`, when no run is over. -/
theorem Steady.goes (h : Steady d) (hgo : Goes d d') : Steady d' :=
  h.next hgo.exact hgo.later hgo.mild (fun c r hr => .inl (by rw [← hgo.booked]; exact hr))
    (fun _ _ _ hno => (by cases hno))

theorem Steady.delegate (h : Steady d) (i : DelegateInput) : Steady (d.delegate env i).1 := by
  have hcall := @delegates_delegate env d h.exact h.chained i
  exact h.next hcall.exact hcall.later hcall.mild hcall.booked (fun _ _ _ hno => (by cases hno))

variable {c : ℕ}

theorem run?_controller {r : Run} (h : w.run? c = some r) : r.controller = c := by
  simpa using List.find?_some h

/-- A run goes on or ends; a run that ends releases its reservation. -/
theorem follow_spec (h : Exact d) (hmild : Mild (some c) d.world w) :
    Exact (d.follow w c) ∧ Later d (d.follow w c) ∧ Mild (some c) d.world (d.follow w c).world ∧
      (d.follow w c).booked = d.booked ∧
      ∀ r slot, d.booked c = some r → (d.follow w c).reservations[r]? = some slot →
        slot.released = true ∨ ∃ run ∈ (d.follow w c).world.runs, run.controller = c := by
  have hworld : Exact { d with world := w } := h.congr rfl rfl rfl rfl
  unfold Desk.follow
  split
  · have hgo := goes_releaseAny hworld (d.booked c)
    refine ⟨hgo.exact, Later.trans (show Later d { d with world := w } from Later.of_eq rfl) hgo.later, ?_, hgo.booked, ?_⟩
    · rw [world_releaseAny]
      exact hmild
    · intro r slot hr hslot
      rw [hr] at hslot
      exact .inl (released_release hslot)
  next hrun =>
    refine ⟨hworld, Later.of_eq rfl, hmild, rfl, ?_⟩
    intro r slot _ _
    obtain ⟨run, hrun'⟩ := ne_none_iff_exists'.mp hrun
    exact .inr ⟨run, run?_mem hrun', run?_controller hrun'⟩

theorem Steady.follow (h : Steady d) (hmild : Mild (some c) d.world w) : Steady (d.follow w c) := by
  obtain ⟨hexact, hlater, hmild', hbooked, hover⟩ := follow_spec h.exact hmild
  refine h.next hexact hlater hmild' (fun c' r hr => .inl (by rw [← hbooked]; exact hr)) ?_
  intro c' r slot heq hr hslot
  cases heq
  exact hover r slot hr hslot

/-- The project and the limit that a step reserves for. -/
def DeskStep.limit? : DeskStep → Option (String × ℤ)
  | .reserveWriter identity facts => some (identity.projectId, facts.perProject)
  | .delegate i => some (i.call.projectId, i.facts.perProject)
  | _ => none

/-- The caller does not throw when it is told that its call is admitted. -/
def DeskStep.returns : DeskStep → Bool
  | .admitted _ returns => returns
  | _ => true

/-- What a delegation that throws has undone: the reservation that it took, the
run and the task. One that throws before its task is queued leaves what is in
flight and the tasks as they were; of one that throws after, neither the run is
in flight nor the task open. -/
def Undone (d d' : Desk) : DeskStep → Prop
  | .delegate _ => Leaves d.world d'.world ∧ Freed d d' none
  | .admitted c _ =>
    (∀ r slot, d.booked c = some r → d'.reservations[r]? = some slot → slot.released = true) ∧
      (∀ traceId, c ∉ d'.world.inflight traceId) ∧
      ∀ run ∈ d.world.runs, run.controller = c → ∀ task ∈ d'.world.tasks, run.task = some task.id →
        task.isOpen = false
  | _ => True

theorem used_step (env : Env) (step : DeskStep) (hr : (d.step env step).2.used = some r) :
    ∃ i, step = .delegate i := by
  cases step with
  | delegate i => exact ⟨i, rfl⟩
  | admitted c returns =>
    simp only [Desk.step, Desk.admitted] at hr
    split at hr
    · cases hr
    · split at hr
      · cases hr
      · cases hr
  | reserveWriter identity facts => cases hr
  | release r => cases hr
  | answer c a => cases hr
  | fail c message => cases hr
  | aside step => cases hr

/-- The desk of a process that finds these rows in its store. -/
def Desk.found (traces : List TraceRow) (spans : List SpanRow) (tasks : List TaskRow) : Desk :=
  { world := { traces := traces, spans := spans, tasks := tasks } }

end Plur1bus.Collab
