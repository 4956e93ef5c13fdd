import Plur1bus.Approvals.Replay

/-!
Writer and verifier agree. `Honest` tables are sound, their signatures belong
to their rows, and every request has a row of its own nonce in the projection,
which is where `request` learns that a nonce is new and so, in the end, why a
decision never repeats one. Every operation of the two stores keeps tables
honest, on however many connections they run, as long as no rollback leaves a
stale cache behind.
-/

namespace Plur1bus.Approvals

open Program Grants List Option
open scoped Policy

/-- The signer signs under its own public key, and its signatures verify. -/
def ChainKey.SignsFaithfully (key : ChainKey) : Prop :=
  ∀ signer, key.signer = some signer → ∀ mac, (signer.sign mac).publicKey = signer.publicKey ∧
    key.verifySignature mac (signer.sign mac).publicKey (signer.sign mac).signature = true

structure Honest (key : ChainKey) (db : Db) : Prop where
  sound : Sound key db.chain
  signatures : ∀ r ∈ db.chain.signatures, r.seq ≤ db.chain.rows.length
  projected : ∀ e ∈ db.chain.rows, e.kind = .requested → ∃ r ∈ db.approvals, e.nonce = some r.nonce
  nonces : ∀ e ∈ db.chain.rows, ∀ e' ∈ db.chain.rows, e.kind = .requested →
    e'.kind = .requested → e.nonce = e'.nonce → e.refId = e'.refId

theorem honest_empty (key : ChainKey) : Honest key {} where
  sound := ⟨trivial, rfl, ⟨{}, rfl⟩, by simp⟩
  signatures := by simp
  projected := by simp
  nonces := by simp

/-! ### Signatures of an extension -/

section Signatures

variable {key : ChainKey} {t : ChainTables} {e : ChainEntry}

/-- The signature rows an entry brings along. -/
def newSignatures (key : ChainKey) (e : ChainEntry) : List SignatureRow :=
  match key.signer with
  | none => []
  | some signer => if e.kind = .decided then [⟨e.seq, signer.sign e.mac⟩] else []

theorem extend_signatures : (t.extend key e).signatures = t.signatures ++ newSignatures key e := by
  unfold ChainTables.extend signed newSignatures
  cases key.signer with
  | none => simp
  | some signer =>
      dsimp only
      split <;> simp [ChainTables.addSignature]

theorem seq_of_mem_newSignatures {r : SignatureRow} (h : r ∈ newSignatures key e) : r.seq = e.seq := by
  unfold newSignatures at h
  split at h
  · cases h
  · split at h
    · rw [mem_singleton.mp h]
    · cases h

/-- A new signature is not taken for that of an older entry. -/
theorem signatureOf_extend_old {x : ChainEntry} (hx : x.seq ≠ e.seq) :
    signatureOf key (t.extend key e).signatures x = signatureOf key t.signatures x := by
  have hnone : (newSignatures key e).find? (fun r => r.seq = x.seq) = none := by
    rw [List.find?_eq_none]
    intro r hr
    rw [seq_of_mem_newSignatures hr]
    simpa using Ne.symm hx
  unfold signatureOf
  rw [extend_signatures, List.find?_append, hnone, or_none]

/-- An entry whose number is new is unsigned or well signed. -/
theorem signatureOf_extend_new (hkey : key.SignsFaithfully)
    (hnew : ∀ r ∈ t.signatures, r.seq ≠ e.seq) :
    signatureOf key (t.extend key e).signatures e ≠ .bad := by
  have hnone : t.signatures.find? (fun r => r.seq = e.seq) = none := by
    rw [List.find?_eq_none]
    intro r hr
    simpa using hnew r hr
  unfold signatureOf
  rw [extend_signatures, List.find?_append, hnone, none_or]
  split
  · rename_i hk
    unfold newSignatures
    cases hsigner : key.signer with
    | none => simp
    | some signer =>
        obtain ⟨hpublic, hverify⟩ := hkey signer hsigner e.mac
        simp [hk, hpublic, hpublic ▸ hverify]
  · simp

end Signatures

/-! ### Honest extensions -/

section Extend

variable {key : ChainKey} {t : ChainTables} {ts : ℤ} {kind : Kind} {refId : String}
  {payload : Json} {nonce : Option String}

theorem Sound.extend (hkey : key.SignsFaithfully) (h : Sound key t)
    (hsigs : ∀ r ∈ t.signatures, r.seq ≤ t.rows.length)
    (haccepts : ∀ st, semantic t.rows = .ok st →
      Accepts st (nextEntry key t.rows.getLast? ts kind refId payload nonce)) :
    Sound key (t.extend key (nextEntry key t.rows.getLast? ts kind refId payload nonce)) := by
  have hseq : (nextEntry key t.rows.getLast? ts kind refId payload nonce).seq =
      t.rows.length + 1 := h.nextEntry_seq
  refine ⟨?_, ?_, ?_, ?_⟩
  · rw [extend_rows]
    exact h.linked_snoc
  · rw [extend_rows]
    exact h.pinned_extend
  · obtain ⟨st, hst⟩ := h.replays
    obtain ⟨st', hst'⟩ := haccepts st hst
    exact ⟨st', by rw [extend_rows, semantic_append, hst]; exact hst'⟩
  · intro x hx
    rw [extend_rows, mem_append] at hx
    rcases hx with hx | hx
    · have hle := h.entry_seq_le hx
      rw [signatureOf_extend_old (by rw [hseq]; omega)]
      exact h.signed x hx
    · rw [mem_singleton.mp hx]
      refine signatureOf_extend_new hkey fun r hr => ?_
      have := hsigs r hr
      rw [hseq]
      omega

/-- Tables stay honest when an entry the rules accept is appended; a request
brings the row of its nonce, which no row had before. -/
theorem Honest.extend (hkey : key.SignsFaithfully) {db db' : Db} (h : Honest key db)
    (haccepts : ∀ st, semantic db.chain.rows = .ok st →
      Accepts st (nextEntry key db.chain.rows.getLast? ts kind refId payload nonce))
    (hchain : db'.chain = db.chain.extend key
      (nextEntry key db.chain.rows.getLast? ts kind refId payload nonce))
    (hold : ∀ r ∈ db.approvals, ∃ r' ∈ db'.approvals, r'.nonce = r.nonce)
    (hnew : kind = .requested → (∃ r ∈ db'.approvals, nonce = some r.nonce) ∧
      ∀ r ∈ db.approvals, nonce ≠ some r.nonce) : Honest key db' := by
  have hseq : (nextEntry key db.chain.rows.getLast? ts kind refId payload nonce).seq =
      db.chain.rows.length + 1 := h.sound.nextEntry_seq
  -- an old request's nonce is in the projection, a new one's is not
  have hfresh : ∀ e ∈ db.chain.rows, e.kind = .requested → kind = .requested → e.nonce ≠ nonce := by
    intro e he hk hkind hn
    obtain ⟨r, hr, hrn⟩ := h.projected e he hk
    exact (hnew hkind).2 r hr (hn.symm.trans hrn)
  refine ⟨?_, ?_, ?_, ?_⟩
  · rw [hchain]
    exact h.sound.extend hkey h.signatures haccepts
  · intro r hr
    rw [hchain, extend_signatures, mem_append] at hr
    rw [hchain, extend_rows, length_append, length_singleton]
    rcases hr with hr | hr
    · have := h.signatures r hr
      omega
    · rw [seq_of_mem_newSignatures hr, hseq]
      omega
  · intro e he hk
    rw [hchain, extend_rows, mem_append, mem_singleton] at he
    rcases he with he | rfl
    · obtain ⟨r, hr, hn⟩ := h.projected e he hk
      obtain ⟨r', hr', hn'⟩ := hold r hr
      exact ⟨r', hr', by rw [hn', hn]⟩
    · exact (hnew hk).1
  · intro e he e' he' hk hk' hn
    rw [hchain, extend_rows, mem_append, mem_singleton] at he he'
    rcases he with he | rfl
    · rcases he' with he' | rfl
      · exact h.nonces e he e' he' hk hk' hn
      · exact absurd hn (hfresh e he hk hk')
    · rcases he' with he' | rfl
      · exact absurd hn.symm (hfresh e' he' hk' hk)
      · rfl

/-- Tables stay honest when only the grants change. -/
theorem Honest.frame {db db' : Db} (h : Honest key db) (hchain : db'.chain = db.chain)
    (happrovals : db'.approvals = db.approvals) : Honest key db' := by
  refine ⟨?_, ?_, ?_, ?_⟩
  · rw [hchain]
    exact h.sound
  · rw [hchain]
    exact h.signatures
  · rw [hchain, happrovals]
    exact h.projected
  · rw [hchain]
    exact h.nonces

end Extend

/-! ### The approval store -/

section ApprovalStore

variable {key : ChainKey} {db db' : Db}

variable {status : ApprovalStatus}

theorem setStatus_nonces {db : Db} {id : String} :
    ∀ r ∈ db.approvals, ∃ r' ∈ (db.setStatus id status).approvals, r'.nonce = r.nonce := by
  intro r hr
  refine ⟨_, mem_map.mpr ⟨r, hr, rfl⟩, ?_⟩
  split <;> rfl

theorem Honest.appends (hkey : key.SignsFaithfully) (h : Honest key db) {kind : Kind} {refId : String}
    {payload : Json} {nonce : Option String} (happ : Appends key db db' kind refId payload nonce status)
    (hkind : kind ≠ .requested) (haccepts : ∀ ts st, Reflects db.chain.rows st →
      Accepts st (nextEntry key db.chain.rows.getLast? ts kind refId payload nonce)) :
    Honest key db' := by
  obtain ⟨ts, -, rfl⟩ := happ
  exact h.extend hkey (fun st hst => haccepts ts st (reflects_semantic hst)) rfl setStatus_nonces
    fun hk => absurd hk hkind

variable {now : ℤ}

theorem Honest.request (hkey : key.SignsFaithfully) (h : Honest key db) {ttl : ℤ} {input : RequestInput}
    {issued : Issued} (heffect : RequestEffect key db now ttl input issued db') : Honest key db' := by
  obtain ⟨-, hbound, ⟨ts, hadmits, rfl⟩, hfresh⟩ := heffect
  refine h.extend hkey (fun st hst => ?_) rfl ?_ fun _ => ⟨?_, ?_⟩
  · refine (reflects_semantic hst).accepts_requested rfl rfl rfl hbound ?_
    have hnone : find (db.chain.byRef issued.id) .requested = none := by
      unfold find ChainTables.byRef
      rw [List.find?_eq_none]
      intro r hr hk
      obtain ⟨hr, hid⟩ := mem_filter.mp hr
      have hr' := List.all_eq_true.mp hadmits r hr
      simp [Kind.likeApproval, of_decide_eq_true hk, of_decide_eq_true hid, nextEntry] at hr'
    exact hnone
  · intro r hr
    exact ⟨r, mem_append_left _ hr, rfl⟩
  · exact ⟨_, mem_append_right _ (mem_singleton_self _), rfl⟩
  · intro r hr hn
    exact hfresh r hr (Option.some.inj hn).symm

/-- The nonce of an undecided request has decided nothing else. -/
theorem Honest.nonce_fresh (h : Honest key db) {st : Replay} (hst : Reflects db.chain.rows st)
    {id n : String} {req : ChainEntry} (hreq : find (db.chain.byRef id) .requested = some req)
    (hn : req.nonce = some n) (hundecided : find (db.chain.byRef id) .decided = none) :
    n ∉ st.nonces := by
  intro hmem
  obtain ⟨id', e, hlook, hen, hdecided⟩ := hst.nonces n hmem
  obtain ⟨hreqmem, hreqkind, hreqid⟩ := find_mem hreq
  obtain ⟨hemem, hekind, heid⟩ := find_mem (t := db.chain) hlook
  have hsame : id = id' := by
    rw [← hreqid, ← heid]
    exact h.nonces req hreqmem e hemem hreqkind hekind (hn.trans hen.symm)
  subst hsame
  change (find (db.chain.byRef id) .decided).isSome = true at hdecided
  rw [hundecided] at hdecided
  cases hdecided

theorem Honest.decide (hkey : key.SignsFaithfully) (h : Honest key db) {d : DecideInput}
    {answer : ApprovalResult ApprovalStatus} (heffect : DecideEffect key db now d answer db') :
    Honest key db' := by
  cases answer with
  | error reason =>
      have hsame : db' = db := heffect
      rwa [hsame]
  | ok status =>
      obtain ⟨-, req, rp, bound, hmay, happ⟩ := heffect
      refine h.appends hkey happ nofun fun ts st hst => ?_
      refine hst.accepts_decided rfl rfl rfl hmay.requested ?_ rfl hmay.nonce
        (h.nonce_fresh hst hmay.requested hmay.nonce hmay.undecided) hmay.undecided
        hmay.uncancelled ?_
      · simp only [ChainEntry.tuple, hmay.parsed, bind_some, hmay.bound_eq]
        rfl
      · cases hd : d.decision
        · left
          change some d.decision.json = _
          rw [hd]
          rfl
        · right
          change some d.decision.json = _
          rw [hd]
          rfl

/-- An optional field reads back as what it was made from. -/
theorem get_optional_bound (bound : Option Json) :
    (Json.obj (Json.optional "bound" bound)).get "bound" = bound := by
  cases bound <;> rfl

theorem Honest.cancel (hkey : key.SignsFaithfully) (h : Honest key db) {id by' : String}
    {answer : ApprovalResult Unit} (heffect : CancelEffect key db now id by' answer db') :
    Honest key db' := by
  cases answer with
  | error reason =>
      have hsame : db' = db := heffect
      rwa [hsame]
  | ok _ =>
      obtain ⟨req, rp, hmay, happ⟩ := heffect
      refine h.appends hkey happ nofun fun ts st hst => ?_
      refine hst.accepts_cancelled rfl rfl rfl hmay.requested ?_ hmay.undecided
      simp only [ChainEntry.tuple, hmay.parsed, bind_some]
      exact congrArg bindingTuple (get_optional_bound _)

theorem Honest.consume (hkey : key.SignsFaithfully) (h : Honest key db) {b : ApprovalBinding}
    {answer : ApprovalResult Bool} (heffect : ConsumeEffect key db now b answer db') :
    Honest key db' := by
  cases answer with
  | error reason =>
      have hsame : db' = db := heffect
      rwa [hsame]
  | ok _ =>
      obtain ⟨req, dec, rp, dp, hmay, happ⟩ := heffect
      refine h.appends hkey happ nofun fun ts st hst => ?_
      refine hst.accepts_used rfl rfl rfl hmay.requested ?_ hmay.decided ?_ hmay.unused
      · simp only [ChainEntry.tuple, hmay.parsed, bind_some]
        exact congrArg bindingTuple (get_optional_bound _)
      · simp only [ChainEntry.decision, hmay.decisionParsed, bind_some, hmay.approved]

end ApprovalStore

/-! ### The grant store -/

/-- Inside a transaction over honest tables. -/
structure HonestTx (env : Env) (p : Place) (s : Conn) : Prop where
  inTx : InTx env p s
  honest : Honest env.key s.db

variable {env : Env} {s t : Conn}

theorem HonestTx.frame {p : Place} (h : HonestTx env p s) (hst : s.SameChain t)
    (happrovals : t.db.approvals = s.db.approvals) : HonestTx env p t := by
  obtain ⟨-, -, -, -, hchain, -⟩ := id hst
  exact ⟨h.inTx.sameChain hst, h.honest.frame hchain happrovals⟩

/-- Programs that, unless they throw, leave the tables honest. -/
def Upright {α : Type} (env : Env) (m : Op α) : Prop :=
  ∀ p s, HonestTx env p s → Prog.wp m (fun _ => HonestTx env p) (fun _ _ => True) s

section Upright

variable {env : Env} {α β : Type}

theorem Upright.pure (a : α) : Upright env (pure a : Op α) := fun _ _ hs => hs

theorem Upright.throw (e : Exn) : Upright env (Prog.throw e : Op α) := fun _ _ _ => trivial

theorem Upright.gets (f : Conn → α) : Upright env (Prog.gets f : Op α) := fun _ _ hs => hs

variable {m : Op α} {f : α → Op β}

theorem Upright.bind (hm : Upright env m) (hf : ∀ a, Upright env (f a)) : Upright env (m >>= f) := by
  intro p s hs
  rw [Prog.wp_bind]
  exact Prog.wp_mono (hm p s hs) (fun a t ht => hf a p t ht) fun _ _ _ => trivial

theorem Upright.ite {c : Prop} [Decidable c] {m' : Op α} (hm : Upright env m) (hm' : Upright env m') :
    Upright env (if c then m else m') := by
  split
  · exact hm
  · exact hm'

theorem Upright.traverse (hf : ∀ a, Upright env (f a)) (as : List α) :
    Upright env (Prog.traverse f as) := by
  induction as with
  | nil => exact Upright.pure _
  | cons a as ih => exact (hf a).bind fun _ => ih.bind fun _ => Upright.pure _

theorem Upright.transaction (hm : Upright env m) : Upright env (transaction env m) := by
  intro p s hs
  rw [wp_transaction_open hs.inTx.isTransaction]
  exact hm p s hs

theorem upright_now : Upright env (now env) := by
  intro p s hs
  rw [wp_now]
  exact hs.frame ⟨rfl, rfl, rfl, rfl, rfl, rfl⟩ rfl

theorem upright_record : Upright env (record env) := by
  intro p s hs
  rw [wp_record]
  exact ⟨fun _ => trivial, fun _ => hs.frame ⟨rfl, rfl, rfl, rfl, rfl, rfl⟩ rfl⟩

/-- A statement on the grants. -/
theorem upright_exec {ok : Db → Bool} {f : Db → Db} (hchain : ∀ db, (f db).chain = db.chain)
    (happrovals : ∀ db, (f db).approvals = db.approvals) : Upright env (exec env ok f) := by
  intro p s hs
  rw [wp_exec]
  exact ⟨fun _ => trivial, fun _ => ⟨fun _ =>
    hs.frame ⟨rfl, rfl, rfl, rfl, hchain _, rfl⟩ (happrovals _), fun _ => trivial⟩⟩

theorem upright_snapshot : Upright env (snapshot env) := by
  intro p s hs
  have hbuild := hs.honest.sound.build_eq
  rw [wp_snapshot hs.inTx.coherent hbuild]
  exact ⟨hs.inTx.refreshed hbuild, by rw [Conn.refreshed_db]; exact hs.honest⟩

theorem upright_viewOf (id : String) : Upright env (viewOf env id) := by
  refine (Upright.gets _).bind fun row => ?_
  split
  · exact Upright.pure _
  · exact upright_snapshot.bind fun _ => Upright.pure _

variable {kind : Kind}

/-- An entry that is not about an approval passes every rule; the append only
fails with the storage. -/
theorem wp_append_honest (hkey : env.key.SignsFaithfully) {p : Place} {s : Conn} (hs : HonestTx env p s)
    (hk : kind.isApproval = false) (refId : String) (payload : Json) (nonce : Option String) :
    Prog.wp (append env kind refId payload nonce) (fun _ => HonestTx env p)
      (fun exn _ => exn = .fault ∨ exn = .constraint) s := by
  refine Prog.wp_mono (wp_append hs.inTx hs.honest.sound kind refId payload nonce) ?_
    fun _ _ h => h.1
  rintro e t ⟨rfl, -, hdb, -, hstale⟩
  refine ⟨hstale.inTx hs.inTx.isTx, ?_⟩
  rw [hdb]
  refine hs.honest.extend hkey (fun st _ => accepts_of_not_approval hk) rfl
    (fun r hr => ⟨r, hr, rfl⟩) ?_
  rintro rfl
  cases hk

theorem upright_append (hkey : env.key.SignsFaithfully) (hk : kind.isApproval = false) (refId : String)
    (payload : Json) (nonce : Option String) :
    Upright env (append env kind refId payload nonce) := fun _ _ hs =>
  Prog.wp_mono (wp_append_honest hkey hs hk refId payload nonce) (fun _ _ h => h)
    fun _ _ _ => trivial

theorem endKind_not_approval (reason : String) : (endKind reason).isApproval = false := by
  unfold endKind
  split <;> rfl

theorem upright_insert (hkey : env.key.SignsFaithfully) (id : String) (now : ℤ)
    (i : CreateGrantInput) (capability : String) : Upright env (insert env id now i capability) := by
  refine Upright.bind (upright_exec (fun _ => rfl) fun _ => rfl) fun _ => ?_
  refine (upright_append hkey rfl _ _ _).bind fun e => ?_
  exact Upright.bind (upright_exec (fun _ => rfl) fun _ => rfl) fun _ => Upright.pure _

theorem upright_revoke (hkey : env.key.SignsFaithfully) (id by' reason : String) :
    Upright env (revoke env id by' reason) := by
  refine Upright.transaction (upright_now.bind fun now => (Upright.gets _).bind fun changes =>
    Upright.bind (upright_exec (fun _ => rfl) fun _ => rfl) fun _ =>
      Upright.ite (Upright.pure _) ?_)
  refine Upright.bind ?_ fun _ => Upright.bind ?_ fun _ => Upright.pure _
  · -- over honest tables the chain takes the entry, so nothing is tolerated
    intro p s hs
    rw [Prog.wp_tryCatch, Prog.wp_bind]
    refine Prog.wp_mono (wp_append_honest hkey hs (endKind_not_approval reason) _ _ _)
      (fun _ _ h => h) ?_
    rintro exn t (rfl | rfl) <;> trivial
  · intro p s hs
    rw [Prog.wp_tryCatch, wp_record]
    have hline : HonestTx env p s.line := hs.frame ⟨rfl, rfl, rfl, rfl, rfl, rfl⟩ rfl
    exact ⟨fun _ => hline, fun _ => hline⟩

theorem upright_endWhere (hkey : env.key.SignsFaithfully) (where' : GrantRow → Bool)
    (by' reason : String) : Upright env (endWhere env where' by' reason) :=
  Upright.transaction ((Upright.gets _).bind fun _ =>
    (Upright.traverse (fun _ => upright_revoke hkey _ _ _) _).bind fun _ => Upright.pure _)

theorem upright_markUsed (hkey : env.key.SignsFaithfully) (id : String) :
    Upright env (markUsed env id) := by
  refine Upright.transaction ((upright_viewOf id).bind fun v => ?_)
  split
  · exact Upright.pure _
  · refine Upright.ite (Upright.pure _) (upright_now.bind fun _ => Upright.ite (Upright.pure _) ?_)
    refine (upright_append hkey rfl _ _ _).bind fun _ =>
      Upright.bind (upright_exec (fun _ => rfl) fun _ => rfl) fun _ => ?_
    exact upright_record.bind fun _ => (upright_viewOf id).bind fun _ => Upright.pure _

theorem upright_consumeOnceRun (hkey : env.key.SignsFaithfully) (id : String)
    (b : ConsumeBinding) : Upright env (consumeOnceRun env id b) := by
  refine Upright.transaction ((upright_viewOf id).bind fun v => ?_)
  split
  · exact Upright.pure _
  · refine Upright.ite (Upright.pure _) (upright_now.bind fun _ => (Upright.gets _).bind fun _ =>
      Upright.bind (upright_exec (fun _ => rfl) fun _ => rfl) fun _ =>
        Upright.ite (Upright.pure _) ?_)
    exact (upright_append hkey rfl _ _ _).bind fun _ => upright_record.bind fun _ => Upright.pure _

end Upright

/-! ### Every operation of the stores -/

/-- A connection between operations over honest tables. -/
structure Standing (env : Env) (s : Conn) : Prop where
  quiet : Quiet env s
  honest : Honest env.key s.db

theorem Standing.frame (h : Standing env s) (hst : s.SameChain t) (hdb : t.db = s.db) : Standing env t := by
  obtain ⟨-, -, -, -, -, hrb⟩ := id hst
  refine ⟨⟨(h.quiet.inv.sameChain hst).rebase, ?_⟩, hdb ▸ h.honest⟩
  unfold Conn.Calm
  rw [hrb]
  exact h.quiet.calm

section Operations

variable {env : Env} {s : Conn}

theorem honest_transaction {α : Type} {fn : Op α} (htame : Tame env (transaction env fn))
    (hfn : Upright env (transaction env fn)) (hs : Standing env s) :
    Prog.wp (transaction env fn) (fun _ t => Honest env.key t.db)
      (fun _ t => Honest env.key t.db) s := by
  have hopening : HonestTx env _ s.step.opening := ⟨hs.quiet.opening, hs.honest⟩
  have hbody := hfn _ _ hopening
  rw [wp_transaction_open hopening.inTx.isTransaction] at hbody
  refine Prog.wp_mono (wp_transaction htame hs.quiet (fun _ db => Honest env.key db)
    (Prog.wp_mono hbody (fun _ _ ht => ht.honest) fun _ _ _ => trivial)) (fun _ _ ht => ht.1) ?_
  intro _ t ht
  rw [ht]
  exact hs.honest

theorem honest_checkExpiry (hs : Standing env s) (i : CreateGrantInput) :
    Prog.wp (checkExpiry env i) (fun _ => Standing env) (fun _ => Standing env) s := by
  unfold checkExpiry
  have htick : Standing env s.tick := hs.frame ⟨rfl, rfl, rfl, rfl, rfl, rfl⟩ rfl
  split
  · exact hs
  · rw [Prog.wp_bind, wp_now, Prog.wp_ite]
    exact ⟨fun _ => htick, fun _ => htick⟩

theorem honest_grantId (hs : Standing env s) (i : CreateGrantInput) :
    Prog.wp (grantId env i) (fun _ => Standing env) (fun _ => Standing env) s := by
  unfold grantId
  split
  · exact hs
  · rw [Prog.wp_bind, wp_randomBytes]
    exact hs.frame ⟨rfl, rfl, rfl, rfl, rfl, rfl⟩ rfl

theorem honest_create (hkey : env.key.SignsFaithfully) (hs : Standing env s)
    (i : CreateGrantInput) :
    Prog.wp (create env i) (fun _ t => Honest env.key t.db) (fun _ t => Honest env.key t.db) s := by
  simp only [create, Prog.wp_bind, Prog.wp_ofExcept, wp_now]
  refine ⟨fun d _ => ?_, fun _ _ => hs.honest⟩
  refine Prog.wp_mono (honest_checkExpiry hs i) (fun _ t ht => ?_) fun _ _ ht => ht.honest
  refine ⟨fun _ _ => ?_, fun _ _ => ht.honest⟩
  have htick : Standing env t.tick := ht.frame ⟨rfl, rfl, rfl, rfl, rfl, rfl⟩ rfl
  refine Prog.wp_mono (honest_grantId htick i) (fun id u hu => ?_) fun _ _ hu => hu.honest
  refine honest_transaction (tame_transaction ?_) (Upright.transaction ?_) hu
  · exact (Tame.gets _).bind fun _ => Tame.ite (Tame.throw _) ((tame_insert _ _ _ _).bind fun _ =>
      tame_record.bind fun _ => Tame.pure _)
  · exact (Upright.gets _).bind fun _ => Upright.ite (Upright.throw _)
      ((upright_insert hkey _ _ _ _).bind fun _ => upright_record.bind fun _ => Upright.pure _)

theorem honest_consumeOnce (hkey : env.key.SignsFaithfully) (hs : Standing env s) (id : String)
    (b : ConsumeBinding) :
    Prog.wp (consumeOnce env id b) (fun _ t => Honest env.key t.db)
      (fun _ t => Honest env.key t.db) s := by
  unfold consumeOnce
  rw [Prog.wp_tryCatch]
  refine Prog.wp_mono (honest_transaction (tame_consumeOnceRun id b)
    (upright_consumeOnceRun hkey id b) hs) (fun _ _ ht => ht) fun exn t ht => ?_
  split <;> exact ht

end Operations

/-- The operations of the approval store and the grant store themselves. -/
def Operation.ofStores : Operation → Bool
  | .begin .. | .decideForSession .. => false
  | _ => true

theorem honest_perform (hkey : env.key.SignsFaithfully) (ttl : ℤ) (hs : Standing env s) {op : Operation}
    (hop : op.ofStores = true) : Honest env.key (op.perform env ttl s).2.db := by
  have hdrop : ∀ {α : Type} {m : Op α}, Prog.wp m (fun _ t => Honest env.key t.db)
      (fun _ t => Honest env.key t.db) s → Honest env.key (dropAnswer m s).2.db := by
    intro α m hm
    have hwp : Prog.wp (dropAnswer m) (fun _ t => Honest env.key t.db)
        (fun _ t => Honest env.key t.db) s := (Prog.wp_bind _ _).mpr hm
    exact Prog.wp_snd.mp hwp
  have hunchanged : ∀ t : Conn, t.db = s.db → Honest env.key t.db := by
    intro t ht
    rw [ht]
    exact hs.honest
  have hread : Prog.wp (snapshot env) (fun _ t => Honest env.key t.db)
      (fun _ t => Honest env.key t.db) s :=
    Prog.wp_mono (wp_snapshot_db env s) (fun _ => hunchanged) fun _ => hunchanged
  cases op with
  | request input =>
      exact hdrop (Prog.wp_mono (wp_request hs.quiet ttl input)
        (fun _ _ ht => hs.honest.request hkey ht) fun _ t ht => hunchanged t ht)
  | decide d =>
      exact hdrop (Prog.wp_mono (wp_decide hs.quiet d) (fun _ _ ht => hs.honest.decide hkey ht)
        fun _ t ht => hunchanged t ht)
  | cancel id by' =>
      exact hdrop (Prog.wp_mono (wp_cancel hs.quiet id by')
        (fun _ _ ht => hs.honest.cancel hkey ht) fun _ t ht => hunchanged t ht)
  | consume b =>
      exact hdrop (Prog.wp_mono (wp_consume hs.quiet b) (fun _ _ ht => hs.honest.consume hkey ht)
        fun _ t ht => hunchanged t ht)
  | begin answer ask => cases hop
  | decideForSession input => cases hop
  | create i => exact hdrop (honest_create hkey hs i)
  | revoke id by' reason =>
      exact hdrop (honest_transaction (tame_revoke id by' reason)
        (upright_revoke hkey id by' reason) hs)
  | endTask taskId by' =>
      exact hdrop (honest_transaction (tame_endWhere _ _ _) (upright_endWhere hkey _ _ _) hs)
  | endSession sessionId by' =>
      exact hdrop (honest_transaction (tame_endWhere _ _ _) (upright_endWhere hkey _ _ _) hs)
  | markUsed id => exact hdrop (honest_transaction (tame_markUsed id) (upright_markUsed hkey id) hs)
  | consumeOnce id b => exact hdrop (honest_consumeOnce hkey hs id b)
  | get id =>
      refine hdrop ?_
      simp only [Grants.get, viewOf, Prog.wp_bind, Prog.wp_gets]
      cases rowOf s.db id with
      | none => exact hs.honest
      | some r =>
          rw [Prog.wp_bind]
          exact Prog.wp_mono hread (fun _ _ ht => ht) fun _ _ ht => ht
  | list q =>
      refine hdrop ?_
      simp only [Grants.list, Prog.wp_bind, Prog.wp_gets]
      exact Prog.wp_mono hread (fun _ _ ht => ht) fun _ _ ht => ht

/-! ### Every history -/

section Histories

variable {ι : Type} [DecidableEq ι]

def Shared.perform (env : Env) (ttl : ℤ) (w : Shared ι) (call : ι × Operation) : Shared ι :=
  w.after call.1 (call.2.perform env ttl (w.conn call.1)).2

/-- The operations one after another, each on its connection. -/
def Shared.history (env : Env) (ttl : ℤ) (calls : List (ι × Operation)) (w : Shared ι) :
    Shared ι := calls.foldl (Shared.perform env ttl) w

variable {env : Env} {ttl : ℤ} {w : Shared ι}

theorem Shared.Inv.perform (h : w.Inv env) (call : ι × Operation) :
    (w.perform env ttl call).Inv env := h.after (tame_perform env ttl call.2 _ _ (h call.1))

/-- Nothing forgets a rollback. -/
theorem Shared.Inv.suffix_perform (h : w.Inv env) (call : ι × Operation) (j : ι) :
    (w.sessions j).rollbacks <:+ ((w.perform env ttl call).sessions j).rollbacks := by
  unfold Shared.perform
  by_cases hj : j = call.1
  · subst hj
    rw [Shared.after_rollbacks_self]
    exact (tame_perform env ttl call.2 _ _ (h call.1)).stands.since
  · have hsame := Shared.after_rollbacks_of_ne w (call.2.perform env ttl (w.conn call.1)).2 hj
    exact hsame ▸ suffix_refl _

theorem Shared.Inv.suffix_history (h : w.Inv env) (calls : List (ι × Operation)) (j : ι) :
    (w.sessions j).rollbacks <:+ ((w.history env ttl calls).sessions j).rollbacks := by
  induction calls generalizing w with
  | nil => exact suffix_refl _
  | cons call calls ih => exact (h.suffix_perform call j).trans (ih (h.perform call))

theorem honest_history (hkey : env.key.SignsFaithfully) {calls : List (ι × Operation)}
    (hstores : ∀ c ∈ calls, c.2.ofStores = true)
    (hcalm : ∀ i, ((w.history env ttl calls).conn i).Calm) (h : w.Inv env)
    (hh : Honest env.key w.db) :
    (w.history env ttl calls).Inv env ∧ Honest env.key (w.history env ttl calls).db := by
  induction calls generalizing w with
  | nil => exact ⟨h, hh⟩
  | cons call calls ih =>
      have hnow : (w.conn call.1).Calm := by
        intro r hr
        exact hcalm call.1 r ((h.suffix_history (call :: calls) call.1).subset hr)
      have hstep := honest_perform hkey ttl (s := w.conn call.1) ⟨⟨h call.1, hnow⟩, hh⟩
        (hstores call (mem_cons_self ..))
      exact ih (fun c hc => hstores c (mem_cons_of_mem _ hc)) hcalm (h.perform call) hstep

end Histories

/-- The verifier's answer alone. -/
def verify (env : Env) : Op VerifyResult := do
  let snap ← snapshot env
  pure snap.result

theorem verify_of_sound (hs : s.Coherent env) (hsound : Sound env.key s.db.chain) :
    ∃ result, (verify env s).1 = .ok result ∧ result.isOk = true := by
  have hwp : Prog.wp (verify env) (fun result _ => result.isOk = true) (fun _ _ => False) s := by
    rw [verify, Prog.wp_bind, wp_snapshot hs hsound.build_eq]
    rfl
  rcases hm : verify env s with ⟨_ | result, t⟩
  · exact (hwp.error hm).elim
  · exact ⟨result, rfl, hwp.ok hm⟩

/-- However the two stores are used on a fresh database, by any number of
connections, with any arguments and clock: as long as no transaction that
changed the chain was rolled back, the chain verifies on every connection. -/
theorem verify_isOk_of_history {ι : Type} [DecidableEq ι] (env : Env)
    (hkey : env.key.SignsFaithfully) (ttl : ℤ) (calls : List (ι × Operation))
    (hstores : ∀ c ∈ calls, c.2.ofStores = true)
    (hkept : ∀ i, ∀ r ∈ (((({} : Shared ι).history env ttl calls).sessions i).rollbacks),
      r.chainChanged = false) (i : ι) :
    ∃ result, (verify env ((({} : Shared ι).history env ttl calls).conn i)).1 = .ok result ∧
      result.isOk = true := by
  have hcalm : ∀ j, ((({} : Shared ι).history env ttl calls).conn j).Calm := by
    rintro j r hr ⟨-, hchanged⟩
    rw [hkept j r hr] at hchanged
    cases hchanged
  obtain ⟨hinv, hhonest⟩ := honest_history hkey hstores hcalm (Shared.inv_init env {})
    (honest_empty env.key)
  exact verify_of_sound ((hinv i).coherent (hcalm i)) hhonest.sound

/-- The clipboard read is asked for on one connection, approved on the other and
used on the first. -/
def clipboardCalls : List (Bool × Operation) :=
  [(false, .request { toBound := bindingOf clipboardAsk, capability := "clipboard.read" }),
    (true, .decide { requestId := "apr_00112233445566778899aabb",
                     nonce := "0f0e0d0c0b0a09080706050403020100", decision := .approve,
                     person := "owner", surface := 1 }),
    (false, .consume { toBound := bindingOf clipboardAsk, requestId := "apr_00112233445566778899aabb" })]

theorem verify_isOk_of_history_clipboard :
    ((({} : Shared Bool).history (clipboardEnv false) DEFAULT_REQUEST_TTL_MS
        clipboardCalls).db.chain.rows.map ChainEntry.kind = [.requested, .decided, .used]) ∧
      ∃ result, (verify (clipboardEnv false) ((({} : Shared Bool).history (clipboardEnv false)
        DEFAULT_REQUEST_TTL_MS clipboardCalls).conn true)).1 = .ok result ∧ result.isOk = true := by
  have hkey : (clipboardEnv false).key.SignsFaithfully := by
    intro signer hsigner
    cases hsigner
  exact ⟨by decide, verify_isOk_of_history _ hkey _ _ (by decide) (by decide) true⟩

end Plur1bus.Approvals
