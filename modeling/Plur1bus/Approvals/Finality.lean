import Plur1bus.Approvals.Shared

/-!
Finality and single use. Any number of callers on any number of connections
request, decide, cancel and consume, in any order and under any clock. The
chain's rows are the calls that answered ok, in order, and no two of them are
of one kind and one request; what a decision and a use checked is read back
from the rows they found.
-/

namespace Plur1bus.Approvals

open Program

/-! ### Runs -/

inductive ApprovalCall
  | request (ttl : ℤ) (input : RequestInput)
  | decide (d : DecideInput)
  | cancel (id by' : String)
  | consume (b : ApprovalBinding)

/-- A call with the clock reading its expiry check took and what came of it. -/
inductive Event
  | request (input : RequestInput) (time : ℤ) (answer : Except Exn Issued)
  | decide (d : DecideInput) (time : ℤ) (answer : Except Exn (ApprovalResult ApprovalStatus))
  | cancel (id by' : String) (time : ℤ) (answer : Except Exn (ApprovalResult Unit))
  | consume (b : ApprovalBinding) (time : ℤ) (answer : Except Exn (ApprovalResult Bool))

/-- The first reading a call takes of the clock is that of its expiry check. -/
def ApprovalCall.run (env : Env) (s : Conn) : ApprovalCall → Event × Conn
  | .request ttl input =>
    let out := ApprovalStore.request env ttl input s
    (.request input (env.now s.reads) out.1, out.2)
  | .decide d =>
    let out := ApprovalStore.decide env d s
    (.decide d (env.now s.reads) out.1, out.2)
  | .cancel id by' =>
    let out := ApprovalStore.cancel env id by' s
    (.cancel id by' (env.now s.reads) out.1, out.2)
  | .consume b =>
    let out := ApprovalStore.consume env b s
    (.consume b (env.now s.reads) out.1, out.2)

/-- The shared state and the calls so far, newest first. -/
structure Run (ι : Type) where
  shared : Shared ι := {}
  trace : List Event := []

section

variable {ι : Type} [DecidableEq ι]

def Run.step (env : Env) (r : Run ι) (call : ι × ApprovalCall) : Run ι :=
  let out := call.2.run env (r.shared.conn call.1)
  { shared := r.shared.after call.1 out.2, trace := out.1 :: r.trace }

/-- The calls in the order SQLite serialised them, on a fresh database. -/
def serialised (env : Env) (calls : List (ι × ApprovalCall)) : Run ι := calls.foldl (Run.step env) {}

end

/-! ### What a run must not do -/

def Event.decidedOk (id : String) : Event → Bool
  | .decide d _ (.ok (.ok _)) => d.requestId = id
  | _ => false

def Event.cancelledOk (id : String) : Event → Bool
  | .cancel id' _ _ (.ok (.ok _)) => id' = id
  | _ => false

def Event.consumedOk (id : String) : Event → Bool
  | .consume b _ (.ok (.ok _)) => b.requestId = id
  | _ => false

/-- The calls before a use that carry it: the request it names, and an approval
of that request by its principal with its nonce, both in time and both for the
tuple the use presents. -/
def Justified (b : ApprovalBinding) (time : ℤ) (earlier : List Event) : Prop :=
  ∃ input rtime issued d dtime status,
    Event.request input rtime (.ok issued) ∈ earlier ∧ issued.id = b.requestId ∧
    Event.decide d dtime (.ok (.ok status)) ∈ earlier ∧ d.requestId = b.requestId ∧
    d.decision = .approve ∧ d.person = input.principal ∧ d.nonce = issued.nonce ∧
    dtime < issued.expiresAt ∧ time < issued.expiresAt ∧ b.toBound.tuple = input.toBound.tuple

structure Final (trace : List Event) : Prop where
  decided_once : ∀ id, trace.countP (Event.decidedOk id) ≤ 1
  not_both : ∀ id, ¬(trace.any (Event.decidedOk id) = true ∧ trace.any (Event.cancelledOk id) = true)
  used_once : ∀ id, trace.countP (Event.consumedOk id) ≤ 1
  justified : ∀ b time delegable earlier,
    Event.consume b time (.ok (.ok delegable)) :: earlier <:+ trace → Justified b time earlier

/-! ### The rows tell the trace -/

def ChainEntry.place (e : ChainEntry) : Kind × String := (e.kind, e.refId)

/-- The row a call that answered ok has written. -/
def Event.place : Event → Option (Kind × String)
  | .request _ _ (.ok issued) => some (.requested, issued.id)
  | .decide d _ (.ok (.ok _)) => some (.decided, d.requestId)
  | .cancel id _ _ (.ok (.ok _)) => some (.cancelled, id)
  | .consume b _ (.ok (.ok _)) => some (.used, b.requestId)
  | _ => none

/-- Which call a row comes from, and for a decision what it had checked. -/
def Recorded (trace : List Event) (t : ChainTables) (e : ChainEntry) : Prop :=
  match e.kind with
  | .requested => ∃ input time issued, Event.request input time (.ok issued) ∈ trace ∧
      e.refId = issued.id ∧ e.nonce = some issued.nonce ∧
      e.payload.parsed = some (ApprovalStore.requestPayload input issued.expiresAt)
  | .decided => ∃ d time status, Event.decide d time (.ok (.ok status)) ∈ trace ∧ e.refId = d.requestId ∧
      e.payload.parsed.bind (·.get "decision") = some d.decision.json ∧
      ∃ req rp bound, find (t.byRef d.requestId) .requested = some req ∧
        req.payload.parsed = some rp ∧ rp.get "bound" = some bound ∧
        bound.get "principal" = some (.str d.person) ∧ req.nonce = some d.nonce ∧
        pastExpiry time rp = false
  | _ => True

structure Told (trace : List Event) (t : ChainTables) : Prop where
  places : trace.filterMap Event.place = (t.rows.map ChainEntry.place).reverse
  distinct : (t.rows.map ChainEntry.place).Nodup
  exclusive : ∀ id, (.decided, id) ∈ t.rows.map ChainEntry.place →
    (.cancelled, id) ∉ t.rows.map ChainEntry.place
  recorded : ∀ e ∈ t.rows, Recorded trace t e

variable {t : ChainTables} {id : String} {kind : Kind}

theorem find_eq_none_iff : find (t.byRef id) kind = none ↔ (kind, id) ∉ t.rows.map ChainEntry.place := by
  grind [find, ChainEntry.place, ChainTables.byRef]

variable {e : ChainEntry}

theorem find_mem (h : find (t.byRef id) kind = some e) : e ∈ t.rows ∧ e.kind = kind ∧ e.refId = id := by
  have hmem := List.mem_of_find?_eq_some h
  have hkind := List.find?_some h
  rw [ChainTables.byRef, List.mem_filter] at hmem
  exact ⟨hmem.1, by simpa using hkind, by simpa using hmem.2⟩

/-- A row once found stays the one that is found. -/
theorem find_extend {key : ChainKey} {r : ChainEntry} (h : find (t.byRef id) kind = some r) :
    find ((t.extend key e).byRef id) kind = some r := by
  unfold find ChainTables.byRef at h ⊢
  rw [extend_rows, List.filter_append, List.find?_append, h]
  rfl

variable {trace : List Event}

theorem Recorded.extend (h : Recorded trace t e) (key : ChainKey) (ev : Event) (x : ChainEntry) :
    Recorded (ev :: trace) (t.extend key x) e := by
  unfold Recorded at h ⊢
  split at h
  · grind
  · obtain ⟨d, time, status, hmem, hid, hdecision, req, rp, bound, hfind, hrest⟩ := h
    exact ⟨d, time, status, List.mem_cons_of_mem _ hmem, hid, hdecision, req, rp, bound,
      find_extend hfind, hrest⟩
  · trivial

theorem Recorded.later (h : Recorded trace t e) (ev : Event) : Recorded (ev :: trace) t e := by
  unfold Recorded at h ⊢
  split at h
  · grind
  · grind
  · trivial

theorem told_nil : Told [] {} where
  places := rfl
  distinct := List.nodup_nil
  exclusive := by simp
  recorded := by simp

/-- A call that wrote nothing. -/
theorem Told.skip (h : Told trace t) {ev : Event} (hev : ev.place = none) : Told (ev :: trace) t where
  places := by rw [List.filterMap_cons_none hev, h.places]
  distinct := h.distinct
  exclusive := h.exclusive
  recorded := fun e he => (h.recorded e he).later ev

/-- A call that wrote one entry. -/
theorem Told.extend (h : Told trace t) {ev : Event} (key : ChainKey) (hev : ev.place = some e.place)
    (hkind : e.kind.likeApproval = true) (hadmits : t.admits e = true)
    (hdecided : e.kind = .decided → find (t.byRef e.refId) .cancelled = none)
    (hcancelled : e.kind = .cancelled → find (t.byRef e.refId) .decided = none)
    (hrec : Recorded (ev :: trace) (t.extend key e) e) : Told (ev :: trace) (t.extend key e) := by
  have hfresh : e.place ∉ t.rows.map ChainEntry.place := by
    rw [List.mem_map]
    rintro ⟨r, hr, hplace⟩
    have hr' := List.all_eq_true.mp hadmits r hr
    obtain ⟨hk, hid⟩ := Prod.mk.inj hplace
    simp [hkind, hk, hid] at hr'
  refine ⟨?_, ?_, ?_, ?_⟩
  · rw [List.filterMap_cons_some hev, h.places, extend_rows]
    simp
  · rw [extend_rows, List.map_append, List.nodup_append]
    refine ⟨h.distinct, List.nodup_singleton _, ?_⟩
    intro a ha b hb hab
    rw [hab, List.mem_singleton.mp hb] at ha
    exact hfresh ha
  · intro id hd hc
    rw [extend_rows, List.map_append, List.mem_append] at hd hc
    rcases hd with hd | hd
    · rcases hc with hc | hc
      · exact h.exclusive id hd hc
      · obtain ⟨hk, rfl⟩ := Prod.mk.inj (List.mem_singleton.mp hc)
        exact find_eq_none_iff.mp (hcancelled hk.symm) hd
    · obtain ⟨hk, rfl⟩ := Prod.mk.inj (List.mem_singleton.mp hd)
      rcases hc with hc | hc
      · exact find_eq_none_iff.mp (hdecided hk.symm) hc
      · obtain ⟨hk', -⟩ := Prod.mk.inj (List.mem_singleton.mp hc)
        rw [← hk] at hk'
        cases hk'
  · intro r hr
    rw [extend_rows, List.mem_append] at hr
    rcases hr with hr | hr
    · exact (h.recorded r hr).extend key ev e
    · rw [List.mem_singleton.mp hr]
      exact hrec

/-! ### What the guards read back -/

section Payloads

@[simp] theorem requestPayload_bound (input : RequestInput) (expiresAt : ℤ) :
    (ApprovalStore.requestPayload input expiresAt).get "bound" = some input.toBound.json := rfl

@[simp] theorem pastExpiry_requestPayload (now : ℤ) (input : RequestInput) (expiresAt : ℤ) :
    pastExpiry now (ApprovalStore.requestPayload input expiresAt) = decide (expiresAt ≤ now) := rfl

@[simp] theorem json_principal (b : Bound) : b.json.get "principal" = some (.str b.principal) := rfl

@[simp] theorem bindingTuple_json (b : Bound) : bindingTuple (some b.json) = some b.tuple := rfl

@[simp] theorem decidePayload_decision (d : DecideInput) (delegable : Bool) (bound : Json) :
    (ApprovalStore.decidePayload d delegable bound).get "decision" = some d.decision.json := rfl

@[simp] theorem verdict_json_eq_approve (v : Verdict) : v.json = approve ↔ v = .approve := by
  cases v <;> simp [Verdict.json, approve, deny]

end Payloads

/-! ### One call -/

section Call

variable {env : Env} {s : Conn} {trace : List Event}

theorem told_request (hs : Quiet env s) (h : Told trace s.db.chain) (ttl : ℤ)
    (input : RequestInput) :
    Told (.request input (env.now s.reads) (ApprovalStore.request env ttl input s).1 :: trace)
      (ApprovalStore.request env ttl input s).2.db.chain := by
  have hwp := wp_request hs ttl input
  rcases hm : ApprovalStore.request env ttl input s with ⟨_ | issued, t⟩
  · rw [hwp.error hm]
    exact h.skip rfl
  · obtain ⟨-, -, ⟨ts, hadmits, hdb⟩, -⟩ := hwp.ok hm
    rw [hdb]
    refine h.extend env.key rfl rfl hadmits nofun nofun ?_
    exact ⟨input, _, issued, List.mem_cons_self .., rfl, rfl, rfl⟩

theorem told_decide (hs : Quiet env s) (h : Told trace s.db.chain) (d : DecideInput) :
    Told (.decide d (env.now s.reads) (ApprovalStore.decide env d s).1 :: trace)
      (ApprovalStore.decide env d s).2.db.chain := by
  have hwp := wp_decide hs d
  rcases hm : ApprovalStore.decide env d s with ⟨_ | ⟨_ | status⟩, t⟩
  · rw [hwp.error hm]
    exact h.skip rfl
  · have hdb : t.db = s.db := hwp.ok hm
    rw [hdb]
    exact h.skip rfl
  · obtain ⟨-, req, rp, bound, hmay, ts, hadmits, hdb⟩ := hwp.ok hm
    rw [hdb]
    refine h.extend env.key rfl rfl hadmits (fun _ => hmay.uncancelled) nofun ?_
    exact ⟨d, _, status, List.mem_cons_self .., rfl, rfl, req, rp, bound,
      find_extend hmay.requested, hmay.parsed, hmay.bound_eq, hmay.principal, hmay.nonce,
      hmay.inTime⟩

theorem told_cancel (hs : Quiet env s) (h : Told trace s.db.chain) (id by' : String) :
    Told (.cancel id by' (env.now s.reads) (ApprovalStore.cancel env id by' s).1 :: trace)
      (ApprovalStore.cancel env id by' s).2.db.chain := by
  have hwp := wp_cancel hs id by'
  rcases hm : ApprovalStore.cancel env id by' s with ⟨_ | ⟨_ | _⟩, t⟩
  · rw [hwp.error hm]
    exact h.skip rfl
  · have hdb : t.db = s.db := hwp.ok hm
    rw [hdb]
    exact h.skip rfl
  · obtain ⟨req, rp, hmay, ts, hadmits, hdb⟩ := hwp.ok hm
    rw [hdb]
    exact h.extend env.key rfl rfl hadmits nofun (fun _ => hmay.undecided) trivial

theorem told_consume (hs : Quiet env s) (h : Told trace s.db.chain) (b : ApprovalBinding) :
    Told (.consume b (env.now s.reads) (ApprovalStore.consume env b s).1 :: trace)
      (ApprovalStore.consume env b s).2.db.chain := by
  have hwp := wp_consume hs b
  rcases hm : ApprovalStore.consume env b s with ⟨_ | ⟨_ | _⟩, t⟩
  · rw [hwp.error hm]
    exact h.skip rfl
  · have hdb : t.db = s.db := hwp.ok hm
    rw [hdb]
    exact h.skip rfl
  · obtain ⟨req, dec, rp, dp, hmay, ts, hadmits, hdb⟩ := hwp.ok hm
    rw [hdb]
    exact h.extend env.key rfl rfl hadmits nofun nofun trivial

variable {b : ApprovalBinding} {delegable : Bool}

/-- A use that goes through finds the request and the approval among the calls
before it. -/
theorem justified_consume (hs : Quiet env s) (h : Told trace s.db.chain) {t : Conn}
    (hm : ApprovalStore.consume env b s = (.ok (.ok delegable), t)) :
    Justified b (env.now s.reads) trace := by
  obtain ⟨req, dec, rp, dp, hmay, -⟩ := (wp_consume hs b).ok hm
  -- the two rows, and the calls they come from
  obtain ⟨hreqmem, hreqkind, hreqid⟩ := find_mem hmay.requested
  obtain ⟨hdecmem, hdeckind, hdecid⟩ := find_mem hmay.decided
  have hreq := h.recorded req hreqmem
  have hdec := h.recorded dec hdecmem
  simp only [Recorded, hreqkind] at hreq
  simp only [Recorded, hdeckind] at hdec
  obtain ⟨input, rtime, issued, hrequest, hissued, hnonce, hpayload⟩ := hreq
  obtain ⟨d, dtime, status, hdecide, hdid, hdecision, req', rp', bound, hfind, hrp', hbound,
    hprincipal, hdnonce, hdtime⟩ := hdec
  -- both calls checked against the same request row
  have hid : d.requestId = b.requestId := hdid.symm.trans hdecid
  have hsame : req' = req := by
    rw [hid, hmay.requested] at hfind
    exact (Option.some.inj hfind).symm
  subst hsame
  have hrp : rp = ApprovalStore.requestPayload input issued.expiresAt :=
    Option.some.inj (hmay.parsed.symm.trans hpayload)
  have hrp'' : rp' = ApprovalStore.requestPayload input issued.expiresAt :=
    Option.some.inj (hrp'.symm.trans hpayload)
  subst hrp hrp''
  have htuple := hmay.binding
  have htime := hmay.inTime
  rw [requestPayload_bound] at hbound htuple
  cases hbound
  simp only [json_principal, Option.some.injEq, Json.str.injEq] at hprincipal
  simp only [bindingTuple_json, Option.some.injEq] at htuple
  simp only [pastExpiry_requestPayload, decide_eq_false_iff_not, not_le] at htime hdtime
  have happrove : d.decision = .approve := by
    have hjson := hmay.approved
    rw [hmay.decisionParsed] at hdecision
    rw [Option.bind_some, hjson, Option.some.injEq] at hdecision
    exact (verdict_json_eq_approve _).mp hdecision.symm
  have hn : d.nonce = issued.nonce := Option.some.inj (hdnonce.symm.trans hnonce)
  exact ⟨input, rtime, issued, d, dtime, status, hrequest, hissued.symm.trans hreqid, hdecide, hid,
    happrove, hprincipal.symm, hn, hdtime, htime, htuple.symm⟩

/-- Every call leaves its connection sound of mind, and the rows and the trace
in step. -/
theorem told_run (hs : Quiet env s) (h : Told trace s.db.chain) (call : ApprovalCall) :
    Told ((call.run env s).1 :: trace) (call.run env s).2.db.chain := by
  cases call with
  | request ttl input => exact told_request hs h ttl input
  | decide d => exact told_decide hs h d
  | cancel id by' => exact told_cancel hs h id by'
  | consume b => exact told_consume hs h b

theorem quiet_run (hs : Quiet env s) (call : ApprovalCall) : Quiet env (call.run env s).2 := by
  cases call with
  | request ttl input =>
      exact ⟨(tame_request ttl input _ s hs.inv).rebase,
        Prog.wp_snd.mp (calm_request hs.inv hs.calm ttl input)⟩
  | decide d =>
      exact ⟨(tame_decide d _ s hs.inv).rebase, Prog.wp_snd.mp (calm_decide hs.inv hs.calm d)⟩
  | cancel id by' =>
      exact ⟨(tame_cancel id by' _ s hs.inv).rebase, Prog.wp_snd.mp (calm_cancel hs.inv hs.calm id by')⟩
  | consume b =>
      exact ⟨(tame_consume b _ s hs.inv).rebase, Prog.wp_snd.mp (calm_consume hs.inv hs.calm b)⟩

theorem justified_run (hs : Quiet env s) (h : Told trace s.db.chain) {call : ApprovalCall} {time : ℤ}
    (hev : (call.run env s).1 = .consume b time (.ok (.ok delegable))) : Justified b time trace := by
  cases call with
  | request ttl input => cases hev
  | decide d => cases hev
  | cancel id by' => cases hev
  | consume b' =>
      rcases hm : ApprovalStore.consume env b' s with ⟨answer, t⟩
      simp only [ApprovalCall.run, hm, Event.consume.injEq] at hev
      obtain ⟨rfl, rfl, rfl⟩ := hev
      exact justified_consume hs h hm

end Call

/-! ### Every run -/

structure Run.Inv {ι : Type} (env : Env) (r : Run ι) : Prop where
  quiet : ∀ i, Quiet env (r.shared.conn i)
  told : Told r.trace r.shared.db.chain
  justified : ∀ b time delegable earlier,
    Event.consume b time (.ok (.ok delegable)) :: earlier <:+ r.trace → Justified b time earlier

section Runs

variable {ι : Type} [DecidableEq ι] {env : Env}

variable {r : Run ι}

theorem Run.Inv.step (h : r.Inv env) (call : ι × ApprovalCall) : (r.step env call).Inv env := by
  obtain ⟨i, c⟩ := call
  have hquiet := quiet_run (h.quiet i) c
  have htold := told_run (h.quiet i) h.told c
  refine ⟨?_, htold, ?_⟩
  · have hinv : r.shared.Inv env := fun j => (h.quiet j).inv
    intro j
    refine ⟨hinv.after hquiet.inv j, ?_⟩
    unfold Conn.Calm
    rw [Shared.conn_rollbacks]
    by_cases hj : j = i
    · subst hj
      exact (Shared.after_rollbacks_self r.shared j _).symm ▸ hquiet.calm
    · exact (Shared.after_rollbacks_of_ne r.shared _ hj).symm ▸ (h.quiet j).calm
  · intro b time delegable earlier hsuffix
    rcases List.suffix_cons_iff.mp hsuffix with hnew | hold
    · obtain ⟨hev, rfl⟩ := List.cons.inj hnew
      exact justified_run (h.quiet i) h.told hev.symm
    · exact h.justified b time delegable earlier hold

theorem Run.Inv.foldl (h : r.Inv env) (calls : List (ι × ApprovalCall)) :
    (calls.foldl (Run.step env) r).Inv env := by
  induction calls generalizing r with
  | nil => exact h
  | cons call calls ih => exact ih (h.step call)

theorem inv_serialised (env : Env) (calls : List (ι × ApprovalCall)) : (serialised env calls).Inv env := by
  refine Run.Inv.foldl ⟨fun i => ⟨inv_opened env {}, ?_⟩, told_nil, ?_⟩ calls
  · intro r hr
    cases hr
  · intro b time delegable earlier hsuffix
    cases List.suffix_nil.mp hsuffix

end Runs

/-! ### Finality -/

theorem countP_place_le_one (h : Told trace t) (place : Kind × String) :
    trace.countP (fun ev => decide (ev.place = some place)) ≤ 1 := by
  have hcount := List.nodup_iff_count_le_one.mp h.distinct place
  rw [← List.count_reverse, ← h.places, List.count_filterMap] at hcount
  simpa only [beq_eq_decide] using hcount

theorem decidedOk_eq (id : String) :
    Event.decidedOk id = fun ev => decide (ev.place = some (.decided, id)) := by
  funext ev
  rcases ev with ⟨_, _, _ | _⟩ | ⟨_, _, _ | _ | _⟩ | ⟨_, _, _, _ | _ | _⟩ | ⟨_, _, _ | _ | _⟩ <;>
    simp [Event.decidedOk, Event.place]

theorem cancelledOk_eq (id : String) :
    Event.cancelledOk id = fun ev => decide (ev.place = some (.cancelled, id)) := by
  funext ev
  rcases ev with ⟨_, _, _ | _⟩ | ⟨_, _, _ | _ | _⟩ | ⟨_, _, _, _ | _ | _⟩ | ⟨_, _, _ | _ | _⟩ <;>
    simp [Event.cancelledOk, Event.place]

theorem consumedOk_eq (id : String) :
    Event.consumedOk id = fun ev => decide (ev.place = some (.used, id)) := by
  funext ev
  rcases ev with ⟨_, _, _ | _⟩ | ⟨_, _, _ | _ | _⟩ | ⟨_, _, _, _ | _ | _⟩ | ⟨_, _, _ | _ | _⟩ <;>
    simp [Event.consumedOk, Event.place]

/-- A call that answered ok has its row. -/
theorem Told.mem_rows (h : Told trace t) {place : Kind × String}
    (hany : trace.any (fun ev => decide (ev.place = some place)) = true) :
    place ∈ t.rows.map ChainEntry.place := by
  obtain ⟨ev, hev, hplace⟩ := List.any_eq_true.mp hany
  rw [← List.mem_reverse, ← h.places, List.mem_filterMap]
  exact ⟨ev, hev, of_decide_eq_true hplace⟩

/-- However the calls of any number of connections are serialised, under any
clock, collisions and storage faults: a request is decided at most once and
never both decided and cancelled, it is used at most once, and only after its
principal's approval of that very binding, in time. -/
theorem serialised_final {ι : Type} [DecidableEq ι] (env : Env)
    (calls : List (ι × ApprovalCall)) : Final (serialised env calls).trace := by
  obtain ⟨-, htold, hjustified⟩ := inv_serialised env calls
  refine ⟨?_, ?_, ?_, hjustified⟩
  · intro id
    rw [decidedOk_eq]
    exact countP_place_le_one htold _
  · rintro id ⟨hdecided, hcancelled⟩
    rw [decidedOk_eq] at hdecided
    rw [cancelledOk_eq] at hcancelled
    exact htold.exclusive id (htold.mem_rows hdecided) (htold.mem_rows hcancelled)
  · intro id
    rw [consumedOk_eq]
    exact countP_place_le_one htold _

end Plur1bus.Approvals
