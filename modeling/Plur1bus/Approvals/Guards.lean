import Plur1bus.Approvals.Ledger

/-!
What the four store operations do to the chain. Each is one transaction that
reads the verified snapshot once, checks its guards and appends at most one
entry; after the append it does not look at the chain again, so its rollback
never meets a current cache. The guards are stated here as predicates on the
committed tables and the operation's own first clock reading.
-/

namespace Plur1bus.Approvals

open Program

/-! ### Rollbacks that leave the cache right -/

/-- Inside a transaction that has either not touched the chain yet or dropped
the cache since. -/
structure Steady (env : Env) (p : Place) (s : Conn) : Prop where
  inv : Inv env p s
  kept : s.Stale ∨ ∀ x, p.tx = some x → s.db.chain = x.old.chain

variable {env : Env} {p : Place} {s t : Conn}

theorem Steady.sameChain (h : Steady env p s) (hst : s.SameChain t) : Steady env p t := by
  refine ⟨h.inv.sameChain hst, ?_⟩
  obtain ⟨-, hcache, hgen, hdv, hchain, -⟩ := hst
  rcases h.kept with hstale | hsame
  · left
    intro c hc
    rw [hgen, hdv]
    exact hstale c (hcache ▸ hc)
  · right
    rw [hchain]
    exact hsame

/-- A rollback from here is not harmful. -/
theorem Steady.calm_rollback {base : List RolledBack} {x : Tx} (h : Steady env ⟨base, some x⟩ s)
    (hcalm : ∀ r ∈ x.rollbacks, ¬r.harmful) : s.rollback.Calm := by
  rw [rollback_eq h.inv.stands.saved]
  intro r hr
  rcases List.mem_cons.mp hr with rfl | hr
  · rintro ⟨hcurrent, hchanged⟩
    rcases h.kept with hstale | hsame
    · simp [Conn.rolledBack, hstale.cached] at hcurrent
    · simp [Conn.rolledBack, hsame x rfl] at hchanged
  · rw [h.inv.stands.rollbacks x rfl] at hr
    exact hcalm r hr

/-- Programs that leave a steady transaction steady. -/
def Light {α : Type} (env : Env) (m : Op α) : Prop := ∀ p, Prog.Keeps (Steady env p) m

section Light

variable {env : Env} {α β : Type}

theorem Light.pure (a : α) : Light env (pure a : Op α) := fun _ => Prog.Keeps.pure a

theorem Light.throw (e : Exn) : Light env (Prog.throw e : Op α) := fun _ => Prog.Keeps.throw e

theorem Light.gets (f : Conn → α) : Light env (Prog.gets f : Op α) := fun _ => Prog.Keeps.gets f

theorem Light.bind {m : Op α} {f : α → Op β} (hm : Light env m) (hf : ∀ a, Light env (f a)) :
    Light env (m >>= f) := fun p => (hm p).bind fun a => hf a p

theorem Light.ite {c : Prop} [Decidable c] {m m' : Op α} (hm : Light env m)
    (hm' : Light env m') : Light env (if c then m else m') := fun p => (hm p).ite (hm' p)

theorem Light.modify {f : Conn → Conn} (hf : ∀ s : Conn, s.SameChain (f s)) :
    Light env (Prog.modify f : Op Unit) :=
  fun _ => Prog.Keeps.modify fun s hs => hs.sameChain (hf s)

theorem light_now : Light env (now env) := (Light.gets _).bind fun _ =>
    Light.bind (Light.modify fun _ => ⟨rfl, rfl, rfl, rfl, rfl, rfl⟩) fun _ => Light.pure _

theorem light_exec {ok : Db → Bool} {f : Db → Db} (hf : ∀ db, (f db).chain = db.chain) :
    Light env (exec env ok f) := by
  have hstatement : Light env (statement env) := (Light.gets _).bind fun _ =>
      Light.bind (Light.modify fun _ => ⟨rfl, rfl, rfl, rfl, rfl, rfl⟩) fun _ =>
        Light.ite (Light.throw _) (Light.pure _)
  exact hstatement.bind fun _ => (Light.gets _).bind fun _ =>
    Light.ite (Light.modify fun s => ⟨rfl, rfl, rfl, rfl, hf s.db, rfl⟩) (Light.throw _)

/-- However an append ends, the cache is dropped. -/
theorem light_append (kind : Kind) (refId : String) (payload : Json) (nonce : Option String) :
    Light env (append env kind refId payload nonce) := by
  intro p s hs
  have hinv := tame_transaction (tame_appendRun kind refId payload nonce) p s hs.inv
  exact ⟨hinv.bumpGen.inv, .inl hinv.bumpGen.stale⟩

end Light

/-- A snapshot only reads. -/
theorem wp_snapshot_db (env : Env) (s : Conn) :
    Prog.wp (snapshot env) (fun _ t => t.db = s.db) (fun _ t => t.db = s.db) s := by
  simp only [snapshot, Prog.wp_bind, Prog.wp_gets]
  cases hc : s.cached with
  | some snap => simp
  | none => cases hb : build env.key s.db.chain <;> simp [hb]

/-- Before the first append of a transaction a snapshot does no harm. -/
theorem steady_of_unchanged (hs : Inv env p s) (hchain : ∀ x, p.tx = some x → s.db.chain = x.old.chain) :
    Prog.wp (snapshot env) (fun _ => Steady env p) (fun _ => Steady env p) s := by
  have hkeeps := Prog.keeps_iff_wp.mp (tame_snapshot p) s hs
  refine Prog.wp_mono (Prog.wp_and hkeeps (wp_snapshot_db env s)) ?_ ?_
  · rintro _ t ⟨hinv, hdb⟩
    exact ⟨hinv, .inr (by rwa [hdb])⟩
  · rintro _ t ⟨hinv, hdb⟩
    exact ⟨hinv, .inr (by rwa [hdb])⟩

/-- A transaction whose body ends steady leaves the connection calm. -/
theorem calm_transaction {α : Type} {fn : Op α} (hs : Inv env ⟨s.rollbacks, none⟩ s) (hcalm : s.Calm)
    (hfn : Prog.wp fn
      (fun _ => Steady env ⟨s.rollbacks, some ⟨s.db, s.rollbacks⟩⟩)
      (fun _ => Steady env ⟨s.rollbacks, some ⟨s.db, s.rollbacks⟩⟩) s.step.opening) :
    Prog.wp (transaction env fn) (fun _ t => t.Calm) (fun _ t => t.Calm) s := by
  rw [wp_transaction_closed hs.stands.isTransaction]
  simp only [begin', commit, Prog.wp_bind, wp_statement, Prog.wp_modify]
  refine ⟨fun _ => hcalm, fun _ => Prog.wp_mono hfn ?_ fun _ t ht => ht.calm_rollback hcalm⟩
  intro _ t ht
  have hstep : Steady env ⟨s.rollbacks, some ⟨s.db, s.rollbacks⟩⟩ t.step :=
    ht.sameChain ⟨rfl, rfl, rfl, rfl, rfl, rfl⟩
  refine ⟨fun _ => hstep.calm_rollback hcalm, fun _ => ?_⟩
  have hrb : t.rollbacks = s.rollbacks := ht.inv.stands.rollbacks _ rfl
  unfold Conn.Calm
  rw [Conn.closing_rollbacks, Conn.step_rollbacks, hrb]
  exact hcalm

/-- A body that takes its one snapshot first and is light after it. -/
theorem calm_trusted_transaction {α : Type} {f : ChainSnapshot → Op α}
    (hs : Inv env ⟨s.rollbacks, none⟩ s) (hcalm : s.Calm) (hf : ∀ snap, Light env (f snap)) :
    Prog.wp (transaction env (do let snap ← trusted env; f snap)) (fun _ t => t.Calm)
      (fun _ t => t.Calm) s := by
  refine calm_transaction hs hcalm ?_
  have hstep : Inv env ⟨s.rollbacks, none⟩ s.step := hs.sameChain ⟨rfl, rfl, rfl, rfl, rfl, rfl⟩
  have hopen : Inv env ⟨s.rollbacks, some ⟨s.db, s.rollbacks⟩⟩ s.step.opening := hstep.opening
  simp only [trusted, Prog.wp_bind]
  refine Prog.wp_mono (steady_of_unchanged hopen ?_) ?_ fun _ _ ht => ht
  · rintro x ⟨⟩
    rfl
  · intro snap t ht
    cases snap.result with
    | broken b => simpa using ht
    | ok n head sigs =>
        simp only [Prog.wp_pure]
        exact Prog.keeps_iff_wp.mp (hf snap _) t ht

/-! ### The operations are calm -/

section Calm

variable {env : Env}

theorem light_parse (e : ChainEntry) : Light env (parse e) := by
  unfold parse
  split
  · exact Light.throw _
  · exact Light.pure _

theorem light_setStatus (id : String) (status : ApprovalStatus) :
    Light env (setStatus env id status) := light_exec fun _ => rfl

variable {s : Conn} (hs : Inv env ⟨s.rollbacks, none⟩ s) (hcalm : s.Calm)

include hs hcalm

theorem calm_request (ttl : ℤ) (input : RequestInput) :
    Prog.wp (ApprovalStore.request env ttl input) (fun _ t => t.Calm) (fun _ t => t.Calm) s := by
  simp only [ApprovalStore.request, Prog.wp_bind, wp_randomBytes, Prog.wp_ite, Prog.wp_throw]
  refine ⟨fun _ => hcalm, fun _ => ⟨fun _ => hcalm, fun _ => ?_⟩⟩
  have hs' : Inv env ⟨s.draw.draw.rollbacks, none⟩ s.draw.draw :=
    hs.sameChain ⟨rfl, rfl, rfl, rfl, rfl, rfl⟩
  refine calm_trusted_transaction hs' hcalm fun snap => ?_
  exact light_now.bind fun _ => (light_append _ _ _ _).bind fun _ =>
    Light.bind (light_exec fun _ => rfl) fun _ => Light.pure _

theorem calm_decide (d : DecideInput) :
    Prog.wp (ApprovalStore.decide env d) (fun _ t => t.Calm) (fun _ t => t.Calm) s := by
  simp only [ApprovalStore.decide, Prog.wp_ite, Prog.wp_pure]
  refine ⟨fun _ => hcalm, fun _ => calm_trusted_transaction hs hcalm fun snap => ?_⟩
  dsimp only
  split
  · exact Light.pure _
  · refine (light_parse _).bind fun rp => ?_
    split
    · exact Light.throw _
    · refine Light.ite (Light.pure _) (Light.ite (Light.pure _) (Light.ite (Light.pure _)
        (Light.ite (Light.pure _) (light_now.bind fun _ => Light.ite (Light.pure _) ?_))))
      exact (light_append _ _ _ _).bind fun _ => (light_setStatus _ _).bind fun _ => Light.pure _

theorem calm_cancel (id by' : String) :
    Prog.wp (ApprovalStore.cancel env id by') (fun _ t => t.Calm) (fun _ t => t.Calm) s := by
  refine calm_trusted_transaction hs hcalm fun snap => ?_
  dsimp only
  split
  · exact Light.pure _
  · refine (light_parse _).bind fun rp => Light.ite (Light.pure _) (light_now.bind fun _ =>
      Light.ite (Light.pure _) ?_)
    exact (light_append _ _ _ _).bind fun _ => (light_setStatus _ _).bind fun _ => Light.pure _

theorem calm_consume (b : ApprovalBinding) :
    Prog.wp (ApprovalStore.consume env b) (fun _ t => t.Calm) (fun _ t => t.Calm) s := by
  refine calm_trusted_transaction hs hcalm fun snap => ?_
  dsimp only
  split
  · refine (light_parse _).bind fun rp => (light_parse _).bind fun dp => Light.ite (Light.pure _)
      (Light.ite (Light.pure _) (light_now.bind fun _ => Light.ite (Light.pure _) ?_))
    exact (light_append _ _ _ _).bind fun _ => (light_setStatus _ _).bind fun _ => Light.pure _
  · exact Light.pure _

end Calm

/-! ### What the operations do -/

def ChainTables.byRef (t : ChainTables) (id : String) : List ChainEntry :=
  t.rows.filter (fun e => e.refId = id)

@[simp] theorem verified_byRef (t : ChainTables) (sigs : SignatureSummary) (id : String) :
    (verified t sigs).byRef id = t.byRef id := rfl

/-- The chain grew by its next entry, which the constraints admit, and the
request's row took its new status. -/
def Appends (key : ChainKey) (db db' : Db) (kind : Kind) (refId : String) (payload : Json)
    (nonce : Option String) (status : ApprovalStatus) : Prop :=
  ∃ ts, db.chain.admits (nextEntry key db.chain.rows.getLast? ts kind refId payload nonce) = true ∧
    db' = (db.extend key
      (nextEntry key db.chain.rows.getLast? ts kind refId payload nonce)).setStatus refId status

/-- The guards of `decide`, in its order. -/
structure MayDecide (t : ChainTables) (now : ℤ) (d : DecideInput) (req : ChainEntry)
    (rp bound : Json) : Prop where
  requested : find (t.byRef d.requestId) .requested = some req
  parsed : req.payload.parsed = some rp
  bound_eq : rp.get "bound" = some bound
  principal : bound.get "principal" = some (.str d.person)
  nonce : req.nonce = some d.nonce
  undecided : find (t.byRef d.requestId) .decided = none
  uncancelled : find (t.byRef d.requestId) .cancelled = none
  inTime : pastExpiry now rp = false

structure MayCancel (t : ChainTables) (now : ℤ) (id : String) (req : ChainEntry) (rp : Json) : Prop where
  requested : find (t.byRef id) .requested = some req
  parsed : req.payload.parsed = some rp
  undecided : find (t.byRef id) .decided = none
  uncancelled : find (t.byRef id) .cancelled = none
  inTime : pastExpiry now rp = false

structure MayConsume (t : ChainTables) (now : ℤ) (b : ApprovalBinding) (req dec : ChainEntry)
    (rp dp : Json) : Prop where
  requested : find (t.byRef b.requestId) .requested = some req
  decided : find (t.byRef b.requestId) .decided = some dec
  parsed : req.payload.parsed = some rp
  decisionParsed : dec.payload.parsed = some dp
  approved : dp.get "decision" = some Approvals.approve
  binding : bindingTuple (rp.get "bound") = bindingTuple (some b.toBound.json)
  unused : find (t.byRef b.requestId) .used = none
  inTime : pastExpiry now rp = false

theorem InTx.sameChain (h : InTx env p s) (hst : s.SameChain t) : InTx env p t := by
  obtain ⟨hsaved, hcache, hgen, hdv, hchain, hrb⟩ := hst
  refine ⟨⟨hsaved.trans h.stands.saved, fun x hx => hrb.trans (h.stands.rollbacks x hx),
    hrb ▸ h.stands.since⟩, h.isTx, ?_, ?_⟩
  · intro c hc
    rw [hgen, hdv]
    exact h.dated c (hcache ▸ hc)
  · intro snap hsnap
    rw [hchain]
    apply h.coherent
    unfold Conn.cached at hsnap ⊢
    rwa [hcache, hgen, hdv] at hsnap

theorem InTx.tick (h : InTx env p s) : InTx env p s.tick := h.sameChain ⟨rfl, rfl, rfl, rfl, rfl, rfl⟩

theorem wp_parse {e : ChainEntry} {Q : Json → Conn → Prop} {E : Exn → Conn → Prop} :
    Prog.wp (parse e) Q E s ↔ (e.payload.parsed = none → E (.type "payload is not JSON") s) ∧
        ∀ p, e.payload.parsed = some p → Q p s := by
  unfold parse
  cases e.payload.parsed <;> simp

/-- Only a sound chain is trusted, and the snapshot is then its rows. -/
theorem wp_trusted (h : InTx env p s) {Q : ChainSnapshot → Conn → Prop}
    (hQ : Sound env.key s.db.chain → ∀ u, InTx env p u → u.db = s.db → u.reads = s.reads →
      Q (verified s.db.chain (signatures env.key s.db.chain)) u) :
    Prog.wp (trusted env) Q (fun _ _ => True) s := by
  simp only [trusted, Prog.wp_bind]
  cases hb : build env.key s.db.chain with
  | none => exact (wp_snapshot_throws h.coherent hb).mpr trivial
  | some snap =>
      rw [wp_snapshot h.coherent hb]
      cases hr : snap.result with
      | broken b => trivial
      | ok n head sigs =>
          have hsound : Sound env.key s.db.chain := sound_of_build hb (by rw [hr]; rfl)
          have hsnap : snap = verified s.db.chain (signatures env.key s.db.chain) :=
            Option.some.inj (hb.symm.trans hsound.build_eq)
          rw [Prog.wp_pure]
          subst hsnap
          exact hQ hsound _ (h.refreshed hb) (by simp) (by simp)

/-- The append and the projection that follow the guards. -/
theorem wp_append_setStatus (h : InTx env p s) (hsound : Sound env.key s.db.chain) (kind : Kind)
    (refId : String) (payload : Json) (nonce : Option String) (status : ApprovalStatus)
    {Q : Conn → Prop} (hQ : ∀ t, Appends env.key s.db t.db kind refId payload nonce status → Q t) :
    Prog.wp (append env kind refId payload nonce)
      (fun _ t => Prog.wp (setStatus env refId status) (fun _ u => Q u) (fun _ _ => True) t)
      (fun _ _ => True) s := by
  refine Prog.wp_mono (wp_append h hsound kind refId payload nonce) ?_ fun _ _ _ => trivial
  rintro e t ⟨rfl, hadmits, hdb, -, -⟩
  simp only [setStatus, wp_exec]
  refine ⟨fun _ => trivial, fun _ => ⟨fun _ => hQ _ ⟨env.now s.reads, hadmits, ?_⟩, fun _ => trivial⟩⟩
  rw [Conn.write_db, Conn.step_db, hdb]
  rfl

/-- What `decide` did, by its answer. -/
def DecideEffect (key : ChainKey) (db : Db) (now : ℤ) (d : DecideInput)
    (answer : ApprovalResult ApprovalStatus) (db' : Db) : Prop :=
  match answer with
  | .error _ => db' = db
  | .ok status => status = d.decision.status ∧ ∃ req rp bound, MayDecide db.chain now d req rp bound ∧
        Appends key db db' .decided d.requestId
          (ApprovalStore.decidePayload d (d.delegable && d.decision = .approve) bound)
          (some d.nonce) status

theorem wp_decideRun (hs : InTx env p s) (d : DecideInput) : Prog.wp (ApprovalStore.decideRun env d)
      (fun a t => DecideEffect env.key s.db (env.now s.reads) d a t.db) (fun _ _ => True) s := by
  simp only [ApprovalStore.decideRun, Prog.wp_bind]
  refine wp_trusted hs fun hsound u hu hdb hreads => ?_
  rw [verified_byRef]
  split
  · exact hdb
  · rename_i req hreq
    rw [Prog.wp_bind, wp_parse]
    refine ⟨fun _ => trivial, fun rp hrp => ?_⟩
    split
    · trivial
    · rename_i bound hbound
      simp only [Prog.wp_ite, Prog.wp_pure, Prog.wp_bind, wp_now, hreads]
      refine ⟨fun _ => hdb, fun hprincipal => ⟨fun _ => hdb, fun hnonce =>
        ⟨fun _ => hdb, fun hdec => ⟨fun _ => hdb, fun hcan => ⟨fun _ => hdb, fun htime => ?_⟩⟩⟩⟩⟩
      have hmay : MayDecide s.db.chain (env.now s.reads) d req rp bound :=
        ⟨hreq, hrp, hbound, by simpa using hprincipal, by simpa using hnonce,
          by simpa using hdec, by simpa using hcan, by simpa using htime⟩
      refine wp_append_setStatus hu.tick (by rwa [Conn.tick_db, hdb]) _ _ _ _ _
        fun t ht => ?_
      rw [Conn.tick_db, hdb] at ht
      exact ⟨rfl, req, rp, bound, hmay, ht⟩

theorem wp_decide (hs : Quiet env s) (d : DecideInput) : Prog.wp (ApprovalStore.decide env d)
      (fun a t => DecideEffect env.key s.db (env.now s.reads) d a t.db)
      (fun _ t => t.db = s.db) s := by
  simp only [ApprovalStore.decide, Prog.wp_ite, Prog.wp_pure]
  refine ⟨fun _ => rfl, fun _ => ?_⟩
  exact Prog.wp_mono (wp_transaction (tame_transaction (tame_decideRun d)) hs
    (DecideEffect env.key s.db (env.now s.reads) d) (wp_decideRun hs.opening d))
    (fun _ _ h => h.1) fun _ _ h => h

/-- What `cancel` did, by its answer. -/
def CancelEffect (key : ChainKey) (db : Db) (now : ℤ) (id by' : String)
    (answer : ApprovalResult Unit) (db' : Db) : Prop :=
  match answer with
  | .error _ => db' = db
  | .ok _ => ∃ req rp, MayCancel db.chain now id req rp ∧
      Appends key db db' .cancelled id (ApprovalStore.cancelPayload by' (rp.get "bound")) none
        .cancelled

theorem wp_cancelRun (hs : InTx env p s) (id by' : String) : Prog.wp (ApprovalStore.cancelRun env id by')
      (fun a t => CancelEffect env.key s.db (env.now s.reads) id by' a t.db)
      (fun _ _ => True) s := by
  simp only [ApprovalStore.cancelRun, Prog.wp_bind]
  refine wp_trusted hs fun hsound u hu hdb hreads => ?_
  rw [verified_byRef]
  split
  · exact hdb
  · rename_i req hreq
    rw [Prog.wp_bind, wp_parse]
    refine ⟨fun _ => trivial, fun rp hrp => ?_⟩
    simp only [Prog.wp_ite, Prog.wp_pure, Prog.wp_bind, wp_now, hreads]
    refine ⟨fun _ => hdb, fun hopen => ⟨fun _ => hdb, fun htime => ?_⟩⟩
    rw [not_or] at hopen
    have hmay : MayCancel s.db.chain (env.now s.reads) id req rp :=
      ⟨hreq, hrp, by simpa using hopen.1, by simpa using hopen.2, by simpa using htime⟩
    refine wp_append_setStatus hu.tick (by rwa [Conn.tick_db, hdb]) _ _ _ _ _
        fun t ht => ?_
    rw [Conn.tick_db, hdb] at ht
    exact ⟨req, rp, hmay, ht⟩

theorem wp_cancel (hs : Quiet env s) (id by' : String) : Prog.wp (ApprovalStore.cancel env id by')
      (fun a t => CancelEffect env.key s.db (env.now s.reads) id by' a t.db)
      (fun _ t => t.db = s.db) s :=
  Prog.wp_mono (wp_transaction (tame_transaction (tame_cancelRun id by')) hs
    (CancelEffect env.key s.db (env.now s.reads) id by') (wp_cancelRun hs.opening id by'))
    (fun _ _ h => h.1) fun _ _ h => h

/-- What `consume` did, by its answer. -/
def ConsumeEffect (key : ChainKey) (db : Db) (now : ℤ) (b : ApprovalBinding)
    (answer : ApprovalResult Bool) (db' : Db) : Prop :=
  match answer with
  | .error _ => db' = db
  | .ok _ => ∃ req dec rp dp, MayConsume db.chain now b req dec rp dp ∧
      Appends key db db' .used b.requestId (ApprovalStore.consumePayload (rp.get "bound")) none
        .used

theorem wp_consumeRun (hs : InTx env p s) (b : ApprovalBinding) : Prog.wp (ApprovalStore.consumeRun env b)
      (fun a t => ConsumeEffect env.key s.db (env.now s.reads) b a t.db) (fun _ _ => True) s := by
  simp only [ApprovalStore.consumeRun, Prog.wp_bind]
  refine wp_trusted hs fun hsound u hu hdb hreads => ?_
  rw [verified_byRef]
  split
  · rename_i req dec tuple hreq hdec htuple
    rw [Prog.wp_bind, wp_parse]
    refine ⟨fun _ => trivial, fun rp hrp => ?_⟩
    rw [Prog.wp_bind, wp_parse]
    refine ⟨fun _ => trivial, fun dp hdp => ?_⟩
    simp only [Prog.wp_ite, Prog.wp_pure, Prog.wp_bind, wp_now, hreads]
    refine ⟨fun _ => hdb, fun hguard => ⟨fun _ => hdb, fun hunused =>
      ⟨fun _ => hdb, fun htime => ?_⟩⟩⟩
    rw [not_or, not_not, not_not] at hguard
    have hmay : MayConsume s.db.chain (env.now s.reads) b req dec rp dp :=
      ⟨hreq, hdec, hrp, hdp, hguard.1, hguard.2.trans htuple.symm, by simpa using hunused,
        by simpa using htime⟩
    refine wp_append_setStatus hu.tick (by rwa [Conn.tick_db, hdb]) _ _ _ _ _
        fun t ht => ?_
    rw [Conn.tick_db, hdb] at ht
    exact ⟨req, dec, rp, dp, hmay, ht⟩
  · exact hdb

theorem wp_consume (hs : Quiet env s) (b : ApprovalBinding) : Prog.wp (ApprovalStore.consume env b)
      (fun a t => ConsumeEffect env.key s.db (env.now s.reads) b a t.db)
      (fun _ t => t.db = s.db) s :=
  Prog.wp_mono (wp_transaction (tame_transaction (tame_consumeRun b)) hs
    (ConsumeEffect env.key s.db (env.now s.reads) b) (wp_consumeRun hs.opening b))
    (fun _ _ h => h.1) fun _ _ h => h

/-- What `request` did: the chain took the request, the projection its row. -/
structure RequestEffect (key : ChainKey) (db : Db) (now ttl : ℤ) (input : RequestInput)
    (issued : Issued) (db' : Db) : Prop where
  expiresAt : issued.expiresAt = now + ttl
  bound : (bindingTuple (some input.toBound.json)).isSome = true
  appends : ∃ ts, db.chain.admits (nextEntry key db.chain.rows.getLast? ts .requested issued.id
      (ApprovalStore.requestPayload input issued.expiresAt) (some issued.nonce)) = true ∧
    db' = { db.extend key (nextEntry key db.chain.rows.getLast? ts .requested issued.id
              (ApprovalStore.requestPayload input issued.expiresAt) (some issued.nonce)) with
            approvals := db.approvals ++ [⟨issued.id, issued.nonce, .pending⟩] }
  fresh : ∀ r ∈ db.approvals, r.nonce ≠ issued.nonce

theorem wp_requestRun (hs : InTx env p s) (ttl : ℤ) (input : RequestInput)
    (hbound : (bindingTuple (some input.toBound.json)).isSome = true) (id nonce : String) :
    Prog.wp (ApprovalStore.requestRun env ttl input id nonce)
      (fun issued t => RequestEffect env.key s.db (env.now s.reads) ttl input issued t.db)
      (fun _ _ => True) s := by
  simp only [ApprovalStore.requestRun, Prog.wp_bind]
  refine wp_trusted hs fun hsound u hu hdb hreads => ?_
  simp only [wp_now]
  refine Prog.wp_mono (wp_append hu.tick (by rwa [Conn.tick_db, hdb]) _ _ _ _) ?_ fun _ _ _ => trivial
  rintro e t ⟨rfl, hadmits, htdb, -, -⟩
  rw [Conn.tick_db, hdb] at htdb hadmits
  simp only [wp_exec, Prog.wp_pure]
  refine ⟨fun _ => trivial, fun _ => ⟨fun hfresh => ?_, fun _ => trivial⟩⟩
  have happrovals : t.db.approvals = s.db.approvals := by rw [htdb]; rfl
  refine ⟨by rw [hreads], hbound, ⟨env.now (u.reads + 1), ?_, ?_⟩, ?_⟩
  · unfold Conn.next at hadmits
    rw [Conn.tick_db, hdb] at hadmits
    exact hadmits
  · rw [Conn.write_db, Conn.step_db, happrovals, htdb]
    unfold Conn.next
    rw [Conn.tick_db, hdb]
    rfl
  · simp_all

theorem wp_request (hs : Quiet env s) (ttl : ℤ) (input : RequestInput) :
    Prog.wp (ApprovalStore.request env ttl input)
      (fun issued t => RequestEffect env.key s.db (env.now s.reads) ttl input issued t.db)
      (fun _ t => t.db = s.db) s := by
  simp only [ApprovalStore.request, Prog.wp_bind, wp_randomBytes, Prog.wp_ite, Prog.wp_throw]
  refine ⟨fun _ => rfl, fun hbound => ⟨fun _ => rfl, fun _ => ?_⟩⟩
  have hs' : Quiet env s.draw.draw := ⟨hs.inv.sameChain ⟨rfl, rfl, rfl, rfl, rfl, rfl⟩, hs.calm⟩
  have hsome : (bindingTuple (some input.toBound.json)).isSome = true := by
    simpa [Option.isSome_iff_ne_none] using hbound
  exact Prog.wp_mono (wp_transaction (tame_transaction (tame_requestRun _ _ _ _)) hs'
    (RequestEffect env.key s.db (env.now s.reads) ttl input)
    (wp_requestRun hs'.opening _ _ hsome _ _)) (fun _ _ h => h.1) fun _ _ h => h

end Plur1bus.Approvals
