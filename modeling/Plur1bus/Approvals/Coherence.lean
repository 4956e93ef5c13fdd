import Plur1bus.Approvals.Service

/-!
Coherence of the chain object's cache over whole histories of one connection.

The cached snapshot is keyed by `data_version` and the generation counter, and
a ROLLBACK moves neither. So a snapshot that was taken after an append, inside
the transaction that appended, survives the rollback of that transaction and
answers for rows that no longer exist. That is the only way to lose coherence:
every operation keeps `Inv`, which promises coherence as long as no rollback
met a current cache over changed chain tables.
-/

namespace Plur1bus.Approvals

open Program Policy Grants

/-! ### The invariant -/

/-- A rollback that leaves a snapshot of the undone rows in the cache. -/
def RolledBack.harmful (r : RolledBack) : Prop := r.cacheCurrent = true ∧ r.chainChanged = true

def Conn.Calm (s : Conn) : Prop := ∀ r ∈ s.rollbacks, ¬r.harmful

/-- The cached snapshot, when it is current, is what `build` computes. -/
def Conn.Coherent (env : Env) (s : Conn) : Prop :=
  ∀ snap, s.cached = some snap → build env.key s.db.chain = some snap

/-- The cache never carries a key from the future. -/
def Conn.Dated (s : Conn) : Prop :=
  ∀ c, s.cache = some c → c.gen ≤ s.gen ∧ c.dv ≤ s.dataVersion

/-- No snapshot has been taken since the generation last moved. -/
def Conn.Stale (s : Conn) : Prop :=
  ∀ c, s.cache = some c → c.gen < s.gen ∧ c.dv ≤ s.dataVersion

/-- An open transaction: the database it began on and the rollbacks before it. -/
structure Tx where
  old : Db
  rollbacks : List RolledBack

/-- Where the connection stands, seen from a point with the rollbacks `base`. -/
structure Place where
  base : List RolledBack
  tx : Option Tx

/-- Outside a transaction, or inside this one, during which nothing is rolled
back. -/
structure Conn.In (p : Place) (s : Conn) : Prop where
  saved : s.saved = p.tx.map Tx.old
  rollbacks : ∀ x, p.tx = some x → s.rollbacks = x.rollbacks
  since : p.base <:+ s.rollbacks

/-- What every program keeps, outside and inside a transaction. -/
structure Inv (env : Env) (p : Place) (s : Conn) : Prop where
  stands : s.In p
  dated : s.Dated
  coherent : s.Calm → s.Coherent env

/-- The state of a chain object that has its cache dropped. -/
structure StaleInv (p : Place) (s : Conn) : Prop where
  stands : s.In p
  stale : s.Stale

variable {s : Conn}

theorem Conn.Stale.cached (h : s.Stale) : s.cached = none := by
  grind [Conn.cached, Conn.Stale]

theorem Conn.Dated.stale_bumpGen (h : s.Dated) : s.bumpGen.Stale := by
  intro c hc
  have hle := h c hc
  exact ⟨Nat.lt_succ_of_le hle.1, hle.2⟩

variable {env : Env} {p : Place}

theorem StaleInv.inv (h : StaleInv p s) : Inv env p s where
  stands := h.stands
  dated := fun c hc => ⟨(h.stale c hc).1.le, (h.stale c hc).2⟩
  coherent := by
    intro _ snap hsnap
    rw [h.stale.cached] at hsnap
    cases hsnap

theorem Inv.bumpGen (h : Inv env p s) : StaleInv p s.bumpGen where
  stands := ⟨h.stands.saved, h.stands.rollbacks, h.stands.since⟩
  stale := h.dated.stale_bumpGen

theorem rollback_eq {old : Db} (h : s.saved = some old) :
    s.rollback = { s with db := old, saved := none,
                          rollbacks := s.rolledBack old :: s.rollbacks } := by
  unfold Conn.rollback
  rw [h]

variable {base : List RolledBack}

/-- A rollback either drops nothing the cache speaks of, or is harmful. -/
theorem Inv.rollback {x : Tx} (h : Inv env ⟨base, some x⟩ s) : Inv env ⟨base, none⟩ s.rollback := by
  rw [rollback_eq h.stands.saved]
  have hsince : base <:+ s.rolledBack x.old :: s.rollbacks :=
    h.stands.since.trans (List.suffix_cons ..)
  refine ⟨⟨rfl, nofun, hsince⟩, h.dated, ?_⟩
  intro hcalm snap hsnap
  have hcached : s.cached = some snap := hsnap
  have hkept : ¬(s.rolledBack x.old).harmful := hcalm _ (List.mem_cons_self ..)
  have hsame : s.db.chain = x.old.chain := by
    by_contra hne
    apply hkept
    simp [RolledBack.harmful, Conn.rolledBack, hcached, hne]
  have hbefore := h.coherent (fun r hr => hcalm r (List.mem_cons_of_mem _ hr)) snap hcached
  rw [hsame] at hbefore
  exact hbefore

/-! ### Programs that keep it -/

/-- `m` keeps the invariant and opens and closes its own transactions only. -/
def Tame {α : Type} (env : Env) (m : Op α) : Prop := ∀ p, Prog.Keeps (Inv env p) m

/-- Changes that touch neither the chain tables nor the keys of the cache. -/
def Conn.SameChain (s t : Conn) : Prop :=
  t.saved = s.saved ∧ t.cache = s.cache ∧ t.gen = s.gen ∧
    t.dataVersion = s.dataVersion ∧ t.db.chain = s.db.chain ∧ t.rollbacks = s.rollbacks

variable {t : Conn}

theorem Inv.sameChain (h : Inv env p s) (hst : s.SameChain t) : Inv env p t := by
  obtain ⟨hsaved, hcache, hgen, hdv, hchain, hrb⟩ := hst
  have hstands : t.In p := ⟨hsaved.trans h.stands.saved,
    fun x hx => hrb.trans (h.stands.rollbacks x hx), hrb ▸ h.stands.since⟩
  refine ⟨hstands, ?_, ?_⟩
  · intro c hc
    rw [hgen, hdv]
    exact h.dated c (hcache ▸ hc)
  · intro hcalm snap hsnap
    have hcalm' : s.Calm := by
      unfold Conn.Calm at hcalm ⊢
      rwa [hrb] at hcalm
    rw [hchain]
    apply h.coherent hcalm'
    unfold Conn.cached at hsnap ⊢
    rwa [hcache, hgen, hdv] at hsnap

section Tame

variable {env : Env} {α β : Type}

theorem Tame.pure (a : α) : Tame env (pure a : Op α) := fun _ => Prog.Keeps.pure a

theorem Tame.throw (e : Exn) : Tame env (Prog.throw e : Op α) := fun _ => Prog.Keeps.throw e

theorem Tame.gets (f : Conn → α) : Tame env (Prog.gets f : Op α) := fun _ => Prog.Keeps.gets f

theorem Tame.ofExcept (r : Except Exn α) : Tame env (Prog.ofExcept r : Op α) :=
  fun _ => Prog.Keeps.ofExcept r

variable {m : Op α} {f : α → Op β}

theorem Tame.bind (hm : Tame env m) (hf : ∀ a, Tame env (f a)) :
    Tame env (m >>= f) := fun b => (hm b).bind fun a => hf a b

theorem Tame.ite {p : Prop} [Decidable p] {m' : Op α} (hm : Tame env m) (hm' : Tame env m') :
    Tame env (if p then m else m') := fun b => (hm b).ite (hm' b)

theorem Tame.tryCatch {h : Exn → Op α} (hm : Tame env m) (hh : ∀ e, Tame env (h e)) :
    Tame env (Prog.tryCatch m h) := fun b => (hm b).tryCatch fun e => hh e b

theorem Tame.traverse (hf : ∀ a, Tame env (f a)) (as : List α) :
    Tame env (Prog.traverse f as) := fun b => Prog.Keeps.traverse (fun a => hf a b) as

theorem Tame.modify {f : Conn → Conn} (hf : ∀ s : Conn, s.SameChain (f s)) :
    Tame env (Prog.modify f : Op Unit) :=
  fun _ => Prog.Keeps.modify fun s hs => hs.sameChain (hf s)

/-! ### The primitives -/

theorem tame_now : Tame env (now env) :=
  (Tame.gets _).bind fun _ =>
    Tame.bind (Tame.modify fun _ => ⟨rfl, rfl, rfl, rfl, rfl, rfl⟩) fun _ => Tame.pure _

theorem tame_randomBytes : Tame env (randomBytes env) :=
  (Tame.gets _).bind fun _ =>
    Tame.bind (Tame.modify fun _ => ⟨rfl, rfl, rfl, rfl, rfl, rfl⟩) fun _ => Tame.pure _

theorem tame_record : Tame env (record env) :=
  (Tame.gets _).bind fun _ =>
    Tame.bind (Tame.modify fun _ => ⟨rfl, rfl, rfl, rfl, rfl, rfl⟩) fun _ =>
      Tame.ite (Tame.throw _) (Tame.pure _)

theorem tame_statement : Tame env (statement env) :=
  (Tame.gets _).bind fun _ =>
    Tame.bind (Tame.modify fun _ => ⟨rfl, rfl, rfl, rfl, rfl, rfl⟩) fun _ =>
      Tame.ite (Tame.throw _) (Tame.pure _)

variable {ok : Db → Bool}

/-- A statement on the other two tables. -/
theorem tame_exec {f : Db → Db} (hf : ∀ db, (f db).chain = db.chain) : Tame env (exec env ok f) :=
  tame_statement.bind fun _ => (Tame.gets _).bind fun _ =>
    Tame.ite (Tame.modify fun s => ⟨rfl, rfl, rfl, rfl, hf s.db, rfl⟩) (Tame.throw _)

variable {fn : Op α} {s : Conn} {Q : α → Conn → Prop} {E : Exn → Conn → Prop}

theorem wp_transaction_open (h : s.isTransaction = true) :
    Prog.wp (transaction env fn) Q E s ↔ Prog.wp fn Q E s := by
  simp [transaction, h]

theorem wp_transaction_closed (h : s.isTransaction = false) : Prog.wp (transaction env fn) Q E s ↔
      Prog.wp (begin' env) (fun _ t => Prog.wp fn
        (fun a u => Prog.wp (commit env) (fun _ v => Q a v) (fun x v => E x v.rollback) u)
        (fun x u => E x u.rollback) t) E s := by
  simp [transaction, h]

variable {p : Place}

theorem Conn.In.isTransaction (h : s.In p) : s.isTransaction = p.tx.isSome := by
  simp [Conn.isTransaction, h.saved]

variable {base : List RolledBack}

theorem Inv.opening (h : Inv env ⟨base, none⟩ s) :
    Inv env ⟨base, some ⟨s.db, s.rollbacks⟩⟩ s.opening := by
  refine ⟨⟨rfl, ?_, h.stands.since⟩, h.dated, h.coherent⟩
  rintro x ⟨⟩
  rfl

theorem Inv.closing {x : Tx} (h : Inv env ⟨base, some x⟩ s) : Inv env ⟨base, none⟩ s.closing :=
  ⟨⟨rfl, nofun, h.stands.since⟩, h.dated, h.coherent⟩

theorem tame_transaction (hfn : Tame env fn) : Tame env (transaction env fn) := by
  rintro ⟨base, tx⟩
  rw [Prog.keeps_iff_wp]
  intro s hs
  have hfn' := fun p => Prog.keeps_iff_wp.mp (hfn p)
  have hstatement : ∀ p s, Inv env p s →
      Prog.wp (statement env) (fun _ => Inv env p) (fun _ => Inv env p) s :=
    fun p => Prog.keeps_iff_wp.mp (tame_statement p)
  cases tx with
  | some x =>
      rw [wp_transaction_open hs.stands.isTransaction]
      exact hfn' _ s hs
  | none =>
      rw [wp_transaction_closed hs.stands.isTransaction]
      simp only [begin', commit, Prog.wp_bind, Prog.wp_modify]
      refine Prog.wp_mono (hstatement _ s hs) ?_ fun _ _ ht => ht
      intro _ t ht
      refine Prog.wp_mono (hfn' _ _ ht.opening) ?_ fun _ _ hu => hu.rollback
      intro _ u hu
      exact Prog.wp_mono (hstatement _ u hu) (fun _ _ hv => hv.closing) fun _ _ hv => hv.rollback

theorem tame_snapshot : Tame env (snapshot env) := by
  intro p
  rw [Prog.keeps_iff_wp]
  intro s hs
  simp only [snapshot, Prog.wp_bind, Prog.wp_gets]
  cases hc : s.cached with
  | some snap => simpa using hs
  | none =>
      simp only [Prog.wp_bind, Prog.wp_gets]
      cases hb : build env.key s.db.chain with
      | none => simpa using hs
      | some snap =>
          simp only [Prog.wp_bind, Prog.wp_modify, Prog.wp_pure]
          refine ⟨⟨hs.stands.saved, hs.stands.rollbacks, hs.stands.since⟩, ?_, ?_⟩
          · rintro c ⟨⟩
            exact ⟨le_rfl, le_rfl⟩
          · intro _ snap' hsnap'
            simp only [Conn.cached, and_self, if_true, Option.some.injEq] at hsnap'
            rw [← hsnap']
            exact hb

/-- With the cache dropped, statements on the chain tables are harmless too. -/
theorem keeps_exec_stale {f : Db → Db} : Prog.Keeps (StaleInv p) (exec env ok f) := by
  rw [Prog.keeps_iff_wp]
  intro s hs
  simp only [exec, statement, Prog.wp_bind, Prog.wp_gets, Prog.wp_modify, Prog.wp_ite,
    Prog.wp_throw, Prog.wp_pure]
  have hstep : ∀ db, StaleInv p { s.step with db := db } := fun _ =>
    ⟨⟨hs.stands.saved, hs.stands.rollbacks, hs.stands.since⟩, hs.stale⟩
  exact ⟨fun _ => hstep _, fun _ => ⟨fun _ => hstep _, fun _ => hstep _⟩⟩

theorem keeps_insertSignature_stale {e : ChainEntry} :
    Prog.Keeps (StaleInv p) (insertSignature env e) := by
  unfold insertSignature
  split
  · exact Prog.Keeps.pure _
  · exact Prog.Keeps.ite keeps_exec_stale (Prog.Keeps.pure _)

theorem tame_appendRun (kind : Kind) (refId : String) (payload : Json) (nonce : Option String) :
    Tame env (appendRun env kind refId payload nonce) := by
  refine tame_snapshot.bind fun snap => ?_
  split
  · exact Tame.throw _
  · refine tame_now.bind fun ts => ?_
    intro p s hs
    -- from the generation step on the cache is dropped, and stays so
    refine StaleInv.inv ?_
    have hrest : ∀ e : ChainEntry, Prog.Keeps (StaleInv p) (do
        exec env (fun db => db.chain.admits e) (·.onChain (·.insertRow e))
        exec env (fun _ => true)
          (·.onChain (·.putHead ⟨e.seq, e.mac, env.key.tag e.seq e.mac⟩))
        insertSignature env e
        pure e) := fun e =>
      keeps_exec_stale.bind fun _ => keeps_exec_stale.bind fun _ =>
        keeps_insertSignature_stale.bind fun _ => Prog.Keeps.pure _
    exact hrest _ _ hs.bumpGen

theorem tame_append (kind : Kind) (refId : String) (payload : Json)
    (nonce : Option String := none) : Tame env (append env kind refId payload nonce) :=
  fun p => (tame_transaction (tame_appendRun kind refId payload nonce) p).finallyModify
    fun _ hs => hs.bumpGen.inv

/-! ### The stores -/

theorem tame_trusted : Tame env (trusted env) := by
  refine tame_snapshot.bind fun snap => ?_
  cases snap.result with
  | broken b => exact Tame.throw _
  | ok => exact Tame.pure _

theorem tame_parse (e : ChainEntry) : Tame env (parse e) := by
  unfold parse
  cases e.payload.parsed with
  | none => exact Tame.throw _
  | some p => exact Tame.pure _

theorem tame_setStatus (id : String) (status : ApprovalStatus) :
    Tame env (setStatus env id status) := tame_exec fun _ => rfl

theorem tame_requestRun (ttl : ℤ) (input : RequestInput) (id nonce : String) :
    Tame env (ApprovalStore.requestRun env ttl input id nonce) := by
  refine tame_trusted.bind fun _ => tame_now.bind fun _ => (tame_append _ _ _ _).bind fun _ => ?_
  exact Tame.bind (tame_exec fun _ => rfl) fun _ => Tame.pure _

theorem tame_request (ttl : ℤ) (input : RequestInput) :
    Tame env (ApprovalStore.request env ttl input) := by
  refine tame_randomBytes.bind fun _ => tame_randomBytes.bind fun _ => ?_
  exact Tame.ite (Tame.throw _) (Tame.ite (Tame.throw _)
    (tame_transaction (tame_requestRun _ _ _ _)))

theorem tame_decideRun (d : DecideInput) : Tame env (ApprovalStore.decideRun env d) := by
  refine tame_trusted.bind fun _ => ?_
  dsimp only
  split
  · exact Tame.pure _
  · refine (tame_parse _).bind fun rp => ?_
    split
    · exact Tame.throw _
    · refine Tame.ite (Tame.pure _) (Tame.ite (Tame.pure _) (Tame.ite (Tame.pure _)
        (Tame.ite (Tame.pure _) (tame_now.bind fun _ => Tame.ite (Tame.pure _) ?_))))
      exact (tame_append _ _ _ _).bind fun _ => (tame_setStatus _ _).bind fun _ => Tame.pure _

theorem tame_decide (d : DecideInput) : Tame env (ApprovalStore.decide env d) :=
  Tame.ite (Tame.pure _) (tame_transaction (tame_decideRun d))

theorem tame_cancelRun (id by' : String) : Tame env (ApprovalStore.cancelRun env id by') := by
  refine tame_trusted.bind fun _ => ?_
  dsimp only
  split
  · exact Tame.pure _
  · refine (tame_parse _).bind fun rp => Tame.ite (Tame.pure _) (tame_now.bind fun _ =>
      Tame.ite (Tame.pure _) ?_)
    exact (tame_append _ _ _ _).bind fun _ => (tame_setStatus _ _).bind fun _ => Tame.pure _

theorem tame_cancel (id by' : String) : Tame env (ApprovalStore.cancel env id by') :=
  tame_transaction (tame_cancelRun id by')

theorem tame_consumeRun (b : ApprovalBinding) : Tame env (ApprovalStore.consumeRun env b) := by
  refine tame_trusted.bind fun _ => ?_
  dsimp only
  split
  · refine (tame_parse _).bind fun rp => (tame_parse _).bind fun dp => Tame.ite (Tame.pure _)
      (Tame.ite (Tame.pure _) (tame_now.bind fun _ => Tame.ite (Tame.pure _) ?_))
    exact (tame_append _ _ _ _).bind fun _ => (tame_setStatus _ _).bind fun _ => Tame.pure _
  · exact Tame.pure _

theorem tame_consume (b : ApprovalBinding) : Tame env (ApprovalStore.consume env b) :=
  tame_transaction (tame_consumeRun b)

theorem tame_approval_get (id : String) : Tame env (ApprovalStore.get env id) := by
  refine tame_trusted.bind fun _ => tame_now.bind fun _ => ?_
  dsimp only
  split
  · exact Tame.pure _
  · refine (tame_parse _).bind fun rp => ?_
    split
    · exact Tame.throw _
    · exact Tame.pure _

theorem tame_viewOf (id : String) : Tame env (viewOf env id) := by
  refine (Tame.gets _).bind fun row => ?_
  cases row with
  | none => exact Tame.pure _
  | some r => exact tame_snapshot.bind fun _ => Tame.pure _

theorem tame_grant_get (id : String) : Tame env (Grants.get env id) := by
  refine (tame_viewOf id).bind fun v => ?_
  cases v with
  | none => exact Tame.pure _
  | some v => exact Tame.pure _

theorem tame_list (q : GrantQuery) : Tame env (Grants.list env q) :=
  (Tame.gets _).bind fun _ => tame_snapshot.bind fun _ => Tame.pure _

theorem tame_updateGrants (where' : GrantRow → Bool) (set : GrantRow → GrantRow) :
    Tame env (exec env (fun _ => true) (updateGrants · where' set)) := tame_exec fun _ => rfl

theorem tame_insert (id : String) (now : ℤ) (i : CreateGrantInput) (capability : String) :
    Tame env (insert env id now i capability) :=
  Tame.bind (tame_exec fun _ => rfl) fun _ => (tame_append _ _ _ _).bind fun _ =>
    (tame_updateGrants _ _).bind fun _ => Tame.pure _

theorem tame_grantId (i : CreateGrantInput) : Tame env (grantId env i) := by
  unfold grantId
  cases i.id with
  | some id => exact Tame.pure _
  | none => exact tame_randomBytes.bind fun _ => Tame.pure _

theorem tame_create (i : CreateGrantInput) : Tame env (create env i) := by
  refine (Tame.ofExcept _).bind fun d => Tame.bind ?_ fun _ => (Tame.ofExcept _).bind fun _ =>
    tame_now.bind fun now => (tame_grantId i).bind fun id =>
      tame_transaction ((Tame.gets _).bind fun _ => ?_)
  · unfold checkExpiry
    cases i.expiresAt with
    | none => exact Tame.pure _
    | some t => exact tame_now.bind fun _ => Tame.ite (Tame.throw _) (Tame.pure _)
  · exact Tame.ite (Tame.throw _) ((tame_insert _ _ _ _).bind fun _ => tame_record.bind fun _ =>
      Tame.pure _)

theorem tame_revoke (id by' reason : String) : Tame env (revoke env id by' reason) := by
  refine tame_transaction (tame_now.bind fun now => (Tame.gets _).bind fun changes =>
    (tame_updateGrants _ _).bind fun _ => Tame.ite (Tame.pure _) ?_)
  refine Tame.bind (Tame.tryCatch ((tame_append _ _ _ _).bind fun _ => Tame.pure _) fun e => ?_)
    fun _ => (Tame.tryCatch tame_record fun _ => Tame.pure _).bind fun _ => Tame.pure _
  unfold tolerateBroken
  cases e with
  | chain => exact Tame.pure _
  | _ => exact Tame.throw _

theorem tame_endWhere (where' : GrantRow → Bool) (by' reason : String) :
    Tame env (endWhere env where' by' reason) :=
  tame_transaction ((Tame.gets _).bind fun _ =>
    (Tame.traverse (fun _ => tame_revoke _ _ _) _).bind fun _ => Tame.pure _)

theorem tame_markUsed (id : String) : Tame env (markUsed env id) := by
  refine tame_transaction ((tame_viewOf id).bind fun v => ?_)
  cases v with
  | none => exact Tame.pure _
  | some v =>
      refine Tame.ite (Tame.pure _) (tame_now.bind fun now => Tame.ite (Tame.pure _) ?_)
      exact (tame_append _ _ _ _).bind fun _ => (tame_updateGrants _ _).bind fun _ =>
        tame_record.bind fun _ => (tame_viewOf id).bind fun _ => Tame.pure _

theorem tame_consumeOnceRun (id : String) (b : ConsumeBinding) :
    Tame env (consumeOnceRun env id b) := by
  refine tame_transaction ((tame_viewOf id).bind fun v => ?_)
  cases v with
  | none => exact Tame.pure _
  | some v =>
      refine Tame.ite (Tame.pure _) (tame_now.bind fun now => (Tame.gets _).bind fun changes =>
        (tame_updateGrants _ _).bind fun _ => Tame.ite (Tame.pure _) ?_)
      exact (tame_append _ _ _ _).bind fun _ => tame_record.bind fun _ => Tame.pure _

theorem tame_consumeOnce (id : String) (b : ConsumeBinding) : Tame env (consumeOnce env id b) := by
  refine Tame.tryCatch (tame_consumeOnceRun id b) fun e => ?_
  cases e with
  | chain => exact Tame.pure _
  | _ => exact Tame.throw _

/-! ### The service -/

theorem tame_recSoft : Tame env (recSoft env) := Tame.tryCatch tame_record fun _ => Tame.pure _

theorem tame_integrityFailure (e : Exn) : Tame env (integrityFailure env e) := by
  unfold integrityFailure
  cases e with
  | chain => exact tame_recSoft
  | _ => exact Tame.pure _

theorem tame_refuse (reason : ServiceDenial) :
    Tame env (refuse env reason : Op (Except ServiceDenial α)) :=
  tame_recSoft.bind fun _ => Tame.pure _

theorem tame_createGrants (r : ApprovalStore.ApprovalRecord) (d : RequestDetail)
    (input : ServiceDecideInput) (scope : GrantScope) :
    Tame env (createGrants env r d input scope) := by
  refine (Tame.ofExcept _).bind fun inputs => Tame.tryCatch
    (Tame.traverse (fun i => (tame_create i).bind fun _ => Tame.pure _) _) fun e => ?_
  unfold tolerateCeiling
  split
  · exact Tame.ite (Tame.pure _) (Tame.throw _)
  · exact Tame.throw _

theorem tame_decideTx (r : ApprovalStore.ApprovalRecord) (d : Option RequestDetail)
    (input : ServiceDecideInput) (nonce : String) :
    Tame env (decideTx env r d input nonce) := by
  refine tame_transaction ((tame_decide _).bind fun res => ?_)
  split
  · exact Tame.pure _
  · refine Tame.bind ?_ fun _ => tame_record.bind fun _ => Tame.pure _
    unfold givenGrants
    split
    · exact tame_createGrants _ _ _ _
    · exact Tame.pure _

theorem tame_announce (requestId : String) (grantIds : List String) :
    Tame env (announce env requestId grantIds) :=
  (Tame.tryCatch (tame_approval_get _) fun _ => Tame.pure _).bind fun _ =>
    (Tame.traverse (fun _ => tame_grant_get _) _).bind fun _ => Tame.pure _

theorem tame_decideChecked (r : ApprovalStore.ApprovalRecord) (d : Option RequestDetail)
    (input : ServiceDecideInput) (nonce : String) :
    Tame env (decideChecked env r d input nonce) := by
  refine Tame.bind (Tame.tryCatch ((tame_decideTx _ _ _ _).bind fun _ => Tame.pure _)
    fun e => ?_) fun out => ?_
  · split
    · exact Tame.pure _
    · exact Tame.pure _
    · exact (tame_integrityFailure _).bind fun _ => Tame.throw _
  · split
    · exact tame_refuse _
    · exact (tame_announce _ _).bind fun _ => Tame.pure _

theorem tame_decideForSession (input : ServiceDecideInput) :
    Tame env (decideForSession env input) := by
  refine (Tame.gets _).bind fun nonce => Tame.bind (Tame.tryCatch (tame_approval_get _)
    fun e => (tame_integrityFailure e).bind fun _ => Tame.throw _) fun r => ?_
  split
  · exact tame_refuse _
  · refine Tame.ite (tame_refuse _) ?_
    split
    · exact tame_decideChecked _ _ _ _
    · split
      · exact tame_refuse _
      · exact tame_decideChecked _ _ _ _

theorem tame_beginGrant (ask : ApprovalAsk) (gid : String) : Tame env (beginGrant env ask gid) := by
  refine (tame_grant_get gid).bind fun g => ?_
  split
  · exact Tame.throw _
  · exact Tame.ite (Tame.throw _) (Tame.ite
      ((tame_consumeOnce _ _).bind fun _ => Tame.ite (Tame.pure _) (Tame.throw _))
      (tame_markUsed _))

theorem tame_begin (answer : ApprovalAnswer) (ask : ApprovalAsk) :
    Tame env (begin env answer ask) := by
  unfold begin
  split
  · refine Tame.tryCatch (tame_transaction ((tame_consume _).bind fun used => ?_)) fun e =>
      (tame_integrityFailure e).bind fun _ => tame_recSoft.bind fun _ => Tame.pure _
    split
    · exact Tame.throw _
    · exact (Tame.traverse (fun _ => tame_beginGrant _ _) _).bind fun _ =>
        tame_record.bind fun _ => Tame.pure _
  · exact Tame.pure _

end Tame

/-! ### Histories -/

inductive Operation
  | request (input : RequestInput)
  | decide (d : DecideInput)
  | cancel (id by' : String)
  | consume (b : ApprovalBinding)
  | begin (answer : ApprovalAnswer) (ask : ApprovalAsk)
  | decideForSession (input : ServiceDecideInput)
  | create (i : CreateGrantInput)
  | revoke (id by' reason : String)
  | endTask (taskId by' : String)
  | endSession (sessionId by' : String)
  | markUsed (id : String)
  | consumeOnce (id : String) (b : ConsumeBinding)
  | get (id : String)
  | list (q : GrantQuery)

/-- An operation with its answer dropped. -/
def dropAnswer {α : Type} (m : Op α) : Op Unit := do
  let _ ← m
  pure ()

def Operation.perform (env : Env) (ttl : ℤ) : Operation → Op Unit
  | .request input => dropAnswer (ApprovalStore.request env ttl input)
  | .decide d => dropAnswer (ApprovalStore.decide env d)
  | .cancel id by' => dropAnswer (ApprovalStore.cancel env id by')
  | .consume b => dropAnswer (ApprovalStore.consume env b)
  | .begin answer ask => dropAnswer (Approvals.begin env answer ask)
  | .decideForSession input => dropAnswer (Approvals.decideForSession env input)
  | .create i => dropAnswer (Grants.create env i)
  | .revoke id by' reason => dropAnswer (Grants.revoke env id by' reason)
  | .endTask taskId by' => dropAnswer (Grants.endTask env taskId by')
  | .endSession sessionId by' => dropAnswer (Grants.endSession env sessionId by')
  | .markUsed id => dropAnswer (Grants.markUsed env id)
  | .consumeOnce id b => dropAnswer (Grants.consumeOnce env id b)
  | .get id => dropAnswer (Grants.get env id)
  | .list q => dropAnswer (Grants.list env q)

/-- A history: operations one after another, whether they answer or throw. -/
def history (env : Env) (ttl : ℤ) (ops : List Operation) (s : Conn) : Conn :=
  ops.foldl (fun s op => (op.perform env ttl s).2) s

/-- A connection freshly opened on a database, with nothing cached. -/
def Conn.opened (db : Db) : Conn := { db := db }

theorem tame_perform (env : Env) (ttl : ℤ) (op : Operation) : Tame env (op.perform env ttl) := by
  cases op with
  | request input => exact (tame_request ttl input).bind fun _ => Tame.pure _
  | decide d => exact (tame_decide d).bind fun _ => Tame.pure _
  | cancel id by' => exact (tame_cancel id by').bind fun _ => Tame.pure _
  | consume b => exact (tame_consume b).bind fun _ => Tame.pure _
  | begin answer ask => exact (tame_begin answer ask).bind fun _ => Tame.pure _
  | decideForSession input => exact (tame_decideForSession input).bind fun _ => Tame.pure _
  | create i => exact (tame_create i).bind fun _ => Tame.pure _
  | revoke id by' reason => exact (tame_revoke id by' reason).bind fun _ => Tame.pure _
  | endTask taskId by' => exact (tame_endWhere _ _ _).bind fun _ => Tame.pure _
  | endSession sessionId by' => exact (tame_endWhere _ _ _).bind fun _ => Tame.pure _
  | markUsed id => exact (tame_markUsed id).bind fun _ => Tame.pure _
  | consumeOnce id b => exact (tame_consumeOnce id b).bind fun _ => Tame.pure _
  | get id => exact (tame_grant_get id).bind fun _ => Tame.pure _
  | list q => exact (tame_list q).bind fun _ => Tame.pure _

theorem inv_opened (env : Env) (db : Db) : Inv env ⟨[], none⟩ (Conn.opened db) where
  stands := ⟨rfl, nofun, List.suffix_refl _⟩
  dated := by
    rintro c ⟨⟩
  coherent := by
    rintro _ snap ⟨⟩

theorem inv_history (env : Env) (ttl : ℤ) (ops : List Operation) (hs : Inv env ⟨base, none⟩ s) :
    Inv env ⟨base, none⟩ (history env ttl ops s) := by
  induction ops generalizing s with
  | nil => exact hs
  | cons op ops ih => exact ih (tame_perform env ttl op _ s hs)

/-! ### What a coherent connection answers -/

/-- What `#build` answers on the committed rows. -/
def committedAnswer (env : Env) (db : Db) : Except Exn ChainSnapshot :=
  match build env.key db.chain with
  | some snap => .ok snap
  | none => .error .range

/-- Between operations the connection answers for the committed rows: the
snapshot is the verifier's answer on them and holds exactly them, and the next
append follows the last of them. -/
structure Conn.AnswersCommitted (env : Env) (s : Conn) : Prop where
  closed : s.isTransaction = false
  snapshot_eq : (snapshot env s).1 = committedAnswer env s.db
  entries_eq : ∀ snap, (snapshot env s).1 = .ok snap → snap.entries = s.db.chain.rows
  append_next : ∀ kind refId payload nonce e t, append env kind refId payload nonce s = (.ok e, t) →
    e.seq = (s.db.chain.rows.getLast?.map (·.seq)).getD 0 + 1 ∧
      e.prevMac = (s.db.chain.rows.getLast?.map (·.mac)).getD GENESIS_MAC

variable {snap : ChainSnapshot}

theorem entries_build {key : ChainKey} {t : ChainTables} (h : build key t = some snap) :
    snap.entries = t.rows := by
  have hreport : ∀ trouble, report t trouble = some snap → snap.entries = t.rows := by
    intro trouble hr
    cases trouble with
    | throws => cases hr
    | fails brokenAt reason detail =>
        cases hr
        rfl
  unfold build at h
  split at h
  · exact hreport _ h
  · split at h
    · exact hreport _ h
    · dsimp only at h
      split at h
      · cases h
        rfl
      · cases h
        rfl

/-- The state after a snapshot: the cache filled if it was not current. -/
def Conn.refreshed (s : Conn) (snap : ChainSnapshot) : Conn :=
  match s.cached with
  | some _ => s
  | none => { s with cache := some ⟨s.dataVersion, s.gen, snap⟩ }

variable {Q : ChainSnapshot → Conn → Prop} {E : Exn → Conn → Prop}

theorem wp_snapshot (hs : s.Coherent env) (hb : build env.key s.db.chain = some snap) :
    Prog.wp (snapshot env) Q E s ↔ Q snap (s.refreshed snap) := by
  unfold snapshot Conn.refreshed
  simp only [Prog.wp_bind, Prog.wp_gets]
  cases hc : s.cached with
  | some snap' =>
      have heq : snap' = snap := by
        have := hs snap' hc
        rw [hb] at this
        exact (Option.some.inj this).symm
      subst heq
      simp
  | none => simp [hb]

theorem wp_snapshot_throws (hs : s.Coherent env) (hb : build env.key s.db.chain = none) :
    Prog.wp (snapshot env) Q E s ↔ E .range s := by
  unfold snapshot
  simp only [Prog.wp_bind, Prog.wp_gets]
  cases hc : s.cached with
  | some snap' =>
      have := hs snap' hc
      rw [hb] at this
      cases this
  | none => simp [hb]

theorem snapshot_eq_committed (hs : s.Coherent env) :
    (snapshot env s).1 = committedAnswer env s.db := by
  have hwp : Prog.wp (snapshot env) (fun snap _ => .ok snap = committedAnswer env s.db)
      (fun e _ => .error e = committedAnswer env s.db) s := by
    unfold committedAnswer
    cases hb : build env.key s.db.chain with
    | none => exact (wp_snapshot_throws hs hb).mpr rfl
    | some snap => exact (wp_snapshot hs hb).mpr rfl
  unfold Prog.wp at hwp
  rcases hm : snapshot env s with ⟨_ | _, t⟩ <;> rw [hm] at hwp <;> exact hwp

/-- The entry an append answers follows the last row the snapshot knows. -/
theorem append_follows (hs : s.Coherent env) {kind : Kind} {refId : String} {payload : Json}
    {nonce : Option String} {e : ChainEntry} (h : append env kind refId payload nonce s = (.ok e, t)) :
    ∃ ts, e = nextEntry env.key s.db.chain.rows.getLast? ts kind refId payload nonce := by
  have hrun : ∀ u : Conn, u.Coherent env → u.db = s.db →
      Prog.wp (appendRun env kind refId payload nonce) (fun e _ => ∃ ts,
        e = nextEntry env.key s.db.chain.rows.getLast? ts kind refId payload nonce)
        (fun _ _ => True) u := by
    intro u hu hdb
    simp only [appendRun, Prog.wp_bind]
    cases hb : build env.key u.db.chain with
    | none => exact (wp_snapshot_throws hu hb).mpr trivial
    | some snap =>
        rw [wp_snapshot hu hb]
        have hentries : snap.entries = s.db.chain.rows := by rw [entries_build hb, hdb]
        cases snap.result with
        | broken b => simp
        | ok n head sigs =>
            simp only [now, Prog.wp_bind, Prog.wp_gets, Prog.wp_modify, Prog.wp_pure, hentries]
            refine Prog.wp_of_forall (fun _ _ => ?_) fun _ _ => trivial
            refine Prog.wp_of_forall (fun _ _ => ?_) fun _ _ => trivial
            exact Prog.wp_of_forall (fun _ _ => ⟨_, rfl⟩) fun _ _ => trivial
  have hwp : Prog.wp (append env kind refId payload nonce) (fun e _ => ∃ ts,
      e = nextEntry env.key s.db.chain.rows.getLast? ts kind refId payload nonce)
      (fun _ _ => True) s := by
    unfold append
    rw [Prog.wp_finallyModify]
    simp only [transaction, Prog.wp_bind, Prog.wp_gets, Prog.wp_ite]
    refine ⟨fun _ => hrun s hs rfl, fun _ => ?_⟩
    simp only [begin', commit, statement, Prog.wp_bind, Prog.wp_tryCatch, Prog.wp_gets,
      Prog.wp_modify, Prog.wp_ite, Prog.wp_throw, Prog.wp_pure, implies_true, true_and]
    intro _
    refine Prog.wp_mono (hrun _ hs rfl) ?_ fun _ _ _ => trivial
    intro a u ha
    exact fun _ => ha
  exact hwp.ok h

theorem Conn.Coherent.answersCommitted (hs : s.Coherent env) (hclosed : s.saved = none) :
    s.AnswersCommitted env where
  closed := by simp [Conn.isTransaction, hclosed]
  snapshot_eq := snapshot_eq_committed hs
  entries_eq := by
    intro snap hsnap
    rw [snapshot_eq_committed hs, committedAnswer] at hsnap
    cases hb : build env.key s.db.chain with
    | none =>
        rw [hb] at hsnap
        cases hsnap
    | some snap' =>
        rw [hb] at hsnap
        cases hsnap
        exact entries_build hb
  append_next := by
    intro kind refId payload nonce e t h
    obtain ⟨ts, rfl⟩ := append_follows hs h
    exact ⟨rfl, rfl⟩

instance (r : RolledBack) : Decidable r.harmful :=
  inferInstanceAs (Decidable (r.cacheCurrent = true ∧ r.chainChanged = true))

instance (s : Conn) : Decidable s.Calm :=
  inferInstanceAs (Decidable (∀ r ∈ s.rollbacks, ¬r.harmful))

/-- In a history none of whose rollbacks meets a current cache over changed
chain tables, every state between operations answers for the committed rows. -/
theorem answersCommitted_of_calm (env : Env) (ttl : ℤ) (ops : List Operation) (db : Db)
    (hcalm : (history env ttl ops (Conn.opened db)).Calm) :
    (history env ttl ops (Conn.opened db)).AnswersCommitted env := by
  have hinv := inv_history env ttl ops (inv_opened env db)
  exact (hinv.coherent hcalm).answersCommitted hinv.stands.saved

/-! ### A revoked once grant

A clipboard read is asked for, approved once, and the grant is revoked before
the call starts. The MACs and tags are those of this history under the key of
32 bytes `0x01`. -/

def clipboardHmac : MacInput → String
  | .entry _ 1 .. => "b73d53fbb06964e1812367dd5d287f71508a12048f5fb6e035b710ec2fa066ba"
  | .entry _ 2 .. => "1a5d47f3f29eda5a8afd85f2a138cc8cf135239de694bfe41fc17f5b99861e03"
  | .entry _ 3 .. => "754eb31a8634389578c0866b9ba874f777eb8ec03a1b24d3c7e9770c513986e2"
  | .entry _ 4 .. => "891f2abef9386613214759f68cfef8417e5a9f63b230b4936a8933c7ede6ff2e"
  | .entry .. => "71a7a42874240aef3cbf9e5c0c99d7941d125090e3a8a3a8d0679cf944cc7c7f"
  | .head 1 _ => "ecf38d5a426f8230f61996a1bdd6f8ab32196f30d8fc9441ff95c92dc1df1e3c"
  | .head 2 _ => "2c90bed2be6ece3fffc9378cda1b9c3db4e9c129f21bf80c52467e4b8dc8210f"
  | .head 3 _ => "2c8739bf0c000fbd6eb0c5bef2aeba163022bc488767c903b4d076f72c2133ac"
  | .head 4 _ => "7f9bd2a9fc10015fcc64133184abb944b12dee73e9d137f1d02ed23f81396103"
  | .head .. => "3a45f8108458424fc38000ddfe920e44b1b6326ee846773513d47e0e93b1f23e"

/-- The first audit line fails when `deaf`. -/
def clipboardEnv (deaf : Bool) : Env where
  key := { hmac := clipboardHmac }
  now := fun _ => 1700000000000
  random
    | 0 => "00112233445566778899aabb"
    | 1 => "0f0e0d0c0b0a09080706050403020100"
    | _ => "ccddeeff0011223344556677"
  auditFails := fun n => deaf && n == 0
  sha256 := fun _ => "953f2d693c66c4ec664da230f47e9f460ef81892d32e79ab95e9e6ac6d9a70f1"
  canon := id
  checkSyntax := fun _ => .path true
  reachesSystemTree := fun _ _ => false

def clipboardAsk : ApprovalAsk where
  request :=
    { capability := "clipboard.read"
      tool := "clipboard.read"
      effect := .read
      flags := { outsideRoots := false, denyListHit := false }
      risk := .low
      reversible := true
      actionHash := "63b07485b3b07b0393d091f8b3cf2f5dbc6a3d8a2ec1f8d94c3c32943cb30aba"
      grantOptions := [⟨.once, 1⟩, ⟨.task, 1⟩, ⟨.session, 1⟩]
      requiredSurface := 1
      tainted := false
      taintSuspended := false
      originSurface := 1 }
  callId := "call-1"
  agentId := "main"
  principal := "owner"
  shown := [("summary", .str "\x7b\x7d"), ("argsBytes", .num 2),
    ("payloadHash", .str "44136fa355b3678a1146ad16f7e8649e94fb4fc21fe77e8310c060f61caaff8a")]

def clipboardRequest : Operation :=
  .request { toBound := bindingOf clipboardAsk, capability := "clipboard.read",
             detail := some (detailOf id clipboardAsk) }

def clipboardApproval : Operation :=
  .decideForSession { requestId := "apr_00112233445566778899aabb", decision := .approve,
                      person := "owner", surface := 1 }

def clipboardRevocation : Operation := .revoke "grt_ccddeeff0011223344556677" "owner" "revoked"

def clipboardBegin : Operation :=
  .begin { approved := true, requestId := some "apr_00112233445566778899aabb",
           grantIds := ["grt_ccddeeff0011223344556677"] } clipboardAsk

/-- The decision that could not be audited is rolled back after its appends,
with nothing cached since. -/
theorem answersCommitted_of_calm_unaudited :
    (history (clipboardEnv true) DEFAULT_REQUEST_TTL_MS [clipboardRequest, clipboardApproval]
        (Conn.opened {})).Calm ∧
      (history (clipboardEnv true) DEFAULT_REQUEST_TTL_MS [clipboardRequest, clipboardApproval]
        (Conn.opened {})).AnswersCommitted (clipboardEnv true) := by
  have hcalm : (history (clipboardEnv true) DEFAULT_REQUEST_TTL_MS
      [clipboardRequest, clipboardApproval] (Conn.opened {})).Calm := by
    decide +kernel
  exact ⟨hcalm, answersCommitted_of_calm _ _ _ _ hcalm⟩

/-- The entries in the tables and those in the snapshot. -/
def Conn.entryCounts (env : Env) (s : Conn) : ℕ × Option ℕ :=
  (s.db.chain.rows.length, (snapshot env s).1.toOption.map (·.entries.length))

theorem Conn.AnswersCommitted.entryCounts (h : s.AnswersCommitted env) {m n : ℕ}
    (hmn : s.entryCounts env = (m, some n)) : n = m := by
  obtain ⟨hm, hn⟩ := Prod.ext_iff.mp hmn
  dsimp only [Conn.entryCounts] at hm hn
  cases hsnap : (snapshot env s).1 with
  | error e =>
      rw [hsnap] at hn
      cases hn
  | ok snap =>
      rw [hsnap] at hn
      simp only [Except.toOption, Option.map_some, Option.some.injEq] at hn
      rw [← hn, ← hm, h.entries_eq snap hsnap]

/-- `begin` appends the use, looks the grant up and refuses it: the use is
rolled back, and stays in the snapshot. -/
theorem rolledBack_use_stays_visible :
    ¬(history (clipboardEnv false) DEFAULT_REQUEST_TTL_MS
        [clipboardRequest, clipboardApproval, clipboardRevocation, clipboardBegin]
        (Conn.opened {})).AnswersCommitted (clipboardEnv false) := by
  intro h
  have hcounts : (history (clipboardEnv false) DEFAULT_REQUEST_TTL_MS
      [clipboardRequest, clipboardApproval, clipboardRevocation, clipboardBegin]
      (Conn.opened {})).entryCounts (clipboardEnv false) = (4, some 5) := by
    decide +kernel
  exact absurd (h.entryCounts hcounts) (by decide)

end Plur1bus.Approvals
