import Plur1bus.Approvals.Guards
import Plur1bus.Policy.Allow
import Mathlib.Data.List.Dedup

/-!
Standing scopes and the calls they were approved for. An approval at a scope
wider than `once` creates grants narrowed to the call; the evaluator then looks
for one grant that applies. What the service writes down about the call, which
grants it makes of it, and which of those the evaluator lets apply to the same
call are followed here from end to end. Creation and matching split their cases
differently, and the exact condition under which they meet is `Coverable`.
-/

namespace Plur1bus.Approvals

open Program Policy Grants List

/-! ### The ask of a call -/

/-- The redacted texts and sizes of a request. -/
structure Shown where
  summary : String
  argsBytes : ℤ
  payloadHash : String
  agentReason : Option String := none
  diff : Option String := none
  deriving DecidableEq, Repr

def Shown.fields (x : Shown) : List (String × Json) :=
  [("summary", .str x.summary), ("argsBytes", .num x.argsBytes), ("payloadHash", .str x.payloadHash)] ++
    Json.optional "agentReason" (x.agentReason.map .str) ++
    Json.optional "diff" (x.diff.map .str)

/-- How the dispatcher asks about a call whose decision was `ask`. -/
def askOf (call : Call) (ctx : Context) (request : ApprovalRequest) (callId : String)
    (turnId : Option String) (shown : Shown) : ApprovalAsk where
  request := request
  callId := callId
  agentId := ctx.subject.agentId
  principal := ctx.person
  sessionId := ctx.sessionId
  park := ctx.headless.isSome
  subjectKind := ctx.subject.kind
  turnId := turnId
  taskId := ctx.taskId
  projectId := ctx.projectId
  targets := call.targets
  access := call.access
  shown := shown.fields

/-! ### The detail reads back -/

section RoundTrip

@[simp] theorem lookup_optional_self (k : String) (v : Option Json) : (Json.optional k v).lookup k = v := by
  cases v <;> simp [Json.optional]

theorem lookup_optional_of_ne {k k' : String} (h : k' ≠ k) (v : Option Json) :
    (Json.optional k v).lookup k' = none := by
  have hbeq : (k' == k) = false := by simpa using h
  cases v <;> simp [Json.optional, lookup_cons, hbeq]

theorem flagsOf_flagsJson (f : CallFlags) : flagsOf (flagsJson f) = f := by
  rcases f with ⟨a, b, c, d, e, g, h, i, j, k⟩
  simp [flagsOf, flagsJson, flagFields, Json.get, lookup_cons]

@[simp] theorem scopeOfName_scopeName (s : GrantScope) : scopeOfName (scopeName s) = some s := by
  cases s <;> decide

@[simp] theorem accessOfName_accessName (a : Access) : accessOfName (accessName a) = some a := by
  cases a <;> rfl

@[simp] theorem strItems_map (l : List String) : strItems (some (.arr (l.map .str))) = l := by
  induction l with
  | nil => rfl
  | cons a l ih =>
      simp only [strItems, map_cons, filterMap_cons, Json.asStr?] at ih ⊢
      rw [ih]

@[simp] theorem optionScopes_map (options : List GrantOption) :
    optionScopes (some (.arr (options.map optionJson))) = some (options.map GrantOption.scope) := by
  have hscope : ∀ o : GrantOption, (strField (optionJson o) "scope").bind scopeOfName = some o.scope := by
    intro o
    simp [strField, optionJson, Json.get, Json.asStr?]
  simp [optionScopes, filterMap_map, hscope]

/-- What a decision reads of the detail that was stored with the ask. -/
def detailRead (redact : String → String) (ask : ApprovalAsk) : RequestDetail where
  codeRoot := false
  effect := ask.request.effect.name
  risk := riskName ask.request.risk
  flags := ask.request.flags
  grantOptions := ask.request.grantOptions.map GrantOption.scope
  targets := maskedTargets redact ask
  targetsMasked := targetsMasked redact ask
  access := ask.access
  taskId := ask.taskId
  sessionId := ask.sessionId
  projectId := ask.projectId

theorem readDetail_detailOf (redact : String → String) (ask : ApprovalAsk) (shown : Shown)
    (hroot : ask.codeRoot = false) (hshown : ask.shown = shown.fields) :
    readDetail (detailOf redact ask) = some (detailRead redact ask) := by
  have hbind : ∀ (o : Option String), (o.map Json.str).bind Json.asStr? = o := by
    intro o
    cases o <;> rfl
  have haccess : ∀ (o : Option Access),
      ((o.map (fun a => Json.str (accessName a))).bind Json.asStr?).bind accessOfName = o := by
    intro o
    cases o <;> simp [Json.asStr?]
  simp [readDetail, detailOf, detailRead, strField, isCodeRoot, Json.get, List.lookup_append,
    lookup_cons, lookup_optional_of_ne, hroot, hshown, Shown.fields, Json.asStr?, hbind,
    haccess, flagsOf_flagsJson]

end RoundTrip

/-! ### Programs that leave the grants alone -/

variable {env : Env}

/-- A transaction that answers did to the database what its body did. -/
theorem wp_transaction_ok {α : Type} {fn : Op α} {s : Conn} (Q : α → Db → Prop)
    (hfn : ∀ v : Conn, v.db = s.db → Prog.wp fn (fun a t => Q a t.db) (fun _ _ => True) v) :
    Prog.wp (transaction env fn) (fun a t => Q a t.db) (fun _ _ => True) s := by
  cases hopen : s.isTransaction with
  | true =>
      rw [wp_transaction_open hopen]
      exact hfn s rfl
  | false =>
      rw [wp_transaction_closed hopen]
      simp only [begin', commit, Prog.wp_bind, wp_statement, Prog.wp_modify]
      refine ⟨fun _ => trivial, fun _ => ?_⟩
      exact Prog.wp_mono (hfn s.step.opening rfl) (fun _ _ ht => ⟨fun _ => trivial, fun _ => ht⟩)
        fun _ _ _ => trivial

/-- Unless it throws, `m` ends with the grants it found. -/
def Spares {α : Type} (m : Op α) : Prop :=
  ∀ s, Prog.wp m (fun _ t => t.db.grants = s.db.grants) (fun _ _ => True) s

section Spares

variable {env : Env} {α β : Type}

theorem Spares.pure (a : α) : Spares (pure a : Op α) := fun _ => rfl

theorem Spares.throw (e : Exn) : Spares (Prog.throw e : Op α) := fun _ => trivial

theorem Spares.modify {f : Conn → Conn} (hf : ∀ s, (f s).db.grants = s.db.grants) :
    Spares (Prog.modify f : Op Unit) := hf

variable {m : Op α}

theorem Spares.bind {f : α → Op β} (hm : Spares m) (hf : ∀ a, Spares (f a)) : Spares (m >>= f) := by
  intro s
  rw [Prog.wp_bind]
  refine Prog.wp_mono (hm s) (fun a t ht => ?_) fun _ _ _ => trivial
  exact Prog.wp_mono (hf a t) (fun _ _ hu => hu.trans ht) fun _ _ _ => trivial

theorem Spares.ite {c : Prop} [Decidable c] {m' : Op α} (hm : Spares m) (hm' : Spares m') :
    Spares (if c then m else m') := by
  split
  · exact hm
  · exact hm'

theorem Spares.transaction (hm : Spares m) : Spares (transaction env m) := by
  intro s
  refine wp_transaction_ok (fun _ db => db.grants = s.db.grants) fun v hv => ?_
  exact hv ▸ hm v

theorem spares_now : Spares (now env) := fun _ => wp_now.mpr rfl

theorem spares_exec {ok : Db → Bool} {f : Db → Db} (hf : ∀ db, (f db).grants = db.grants) :
    Spares (exec env ok f) := fun s =>
  wp_exec.mpr ⟨fun _ => trivial, fun _ => ⟨fun _ => hf s.db, fun _ => trivial⟩⟩

theorem spares_snapshot : Spares (snapshot env) := fun s =>
  Prog.wp_mono (wp_snapshot_db env s) (fun _ t ht => by rw [ht]) fun _ _ _ => trivial

theorem spares_appendRun (kind : Kind) (refId : String) (payload : Json) (nonce : Option String) :
    Spares (appendRun env kind refId payload nonce) := by
  refine spares_snapshot.bind fun snap => ?_
  split
  · exact Spares.throw _
  · refine spares_now.bind fun _ => Spares.bind (Spares.modify fun _ => rfl) fun _ => ?_
    refine Spares.bind (spares_exec fun _ => rfl) fun _ =>
      Spares.bind (spares_exec fun _ => rfl) fun _ => Spares.bind ?_ fun _ => Spares.pure _
    unfold insertSignature
    split
    · exact Spares.pure _
    · exact Spares.ite (spares_exec fun _ => rfl) (Spares.pure _)

theorem spares_append (kind : Kind) (refId : String) (payload : Json) (nonce : Option String) :
    Spares (append env kind refId payload nonce) := by
  intro s
  unfold append
  rw [Prog.wp_finallyModify]
  exact Spares.transaction (spares_appendRun kind refId payload nonce) s

theorem spares_trusted : Spares (trusted env) := by
  refine spares_snapshot.bind fun snap => ?_
  split
  · exact Spares.throw _
  · exact Spares.pure _

theorem spares_parse (e : ChainEntry) : Spares (parse e) := by
  unfold parse
  split
  · exact Spares.throw _
  · exact Spares.pure _

theorem spares_decide (d : DecideInput) : Spares (ApprovalStore.decide env d) := by
  refine Spares.ite (Spares.pure _) (Spares.transaction (spares_trusted.bind fun snap => ?_))
  dsimp only
  split
  · exact Spares.pure _
  · refine (spares_parse _).bind fun rp => ?_
    split
    · exact Spares.throw _
    · refine Spares.ite (Spares.pure _) (Spares.ite (Spares.pure _) (Spares.ite (Spares.pure _)
        (Spares.ite (Spares.pure _) (spares_now.bind fun _ => Spares.ite (Spares.pure _) ?_))))
      exact (spares_append _ _ _ _).bind fun _ =>
        Spares.bind (spares_exec fun _ => rfl) fun _ => Spares.pure _

end Spares

/-! ### What creation writes -/

/-- A row as it stands once its hash and position are filed. -/
def filed (id : String) (now : ℤ) (i : CreateGrantInput) (capability defHash : String)
    (chainSeq : ℤ) : GrantRow :=
  { rowFor id now i capability with defHash := defHash, chainSeq := chainSeq }

/-- The row that `create` makes of an input it accepts. -/
def Created (env : Env) (i : CreateGrantInput) (row : GrantRow) : Prop :=
  ∃ d id now defHash chainSeq, checkFields env i = .ok d ∧ checkScope env d i = .ok () ∧
    (i.id = none → nonEmpty id = true) ∧ row = filed id now i d.id.name defHash chainSeq

/-- The rows that were added, under ids that were free. -/
structure Adds (db db' : Db) (rows : List GrantRow) : Prop where
  grants : db'.grants = db.grants ++ rows
  fresh : ∀ r ∈ db.grants, ∀ r' ∈ rows, r.id ≠ r'.id

theorem Adds.nil {db db' : Db} (h : db'.grants = db.grants) : Adds db db' [] := ⟨by simpa using h, by simp⟩

theorem Adds.trans {db db' db'' : Db} {rows rows' : List GrantRow} (h : Adds db db' rows)
    (h' : Adds db' db'' rows') : Adds db db'' (rows ++ rows') := by
  refine ⟨by rw [h'.grants, h.grants, append_assoc], ?_⟩
  intro r hr r' hr'
  rcases mem_append.mp hr' with hr' | hr'
  · exact h.fresh r hr r' hr'
  · refine h'.fresh r ?_ r' hr'
    rw [h.grants]
    exact mem_append_left _ hr

section Creation

variable {env : Env}

/-- An update by a new id finds only its row. -/
theorem map_update_new {rows : List GrantRow} {row : GrantRow} {id : String}
    {set : GrantRow → GrantRow} (hne : ∀ r ∈ rows, r.id ≠ id) (hrow : row.id = id) :
    (rows ++ [row]).map (fun r => if decide (r.id = id) = true then set r else r) = rows ++ [set row] := by
  rw [map_append, map_singleton]
  congr 1
  · conv_rhs => rw [← map_id rows]
    refine map_congr_left fun r hr => ?_
    simp [hne r hr]
  · simp [hrow]

theorem wp_insert (id : String) (now : ℤ) (i : CreateGrantInput) (capability : String) (s : Conn) :
    Prog.wp (insert env id now i capability)
      (fun g t => ∃ defHash chainSeq, g.id = id ∧
        Adds s.db t.db [filed id now i capability defHash chainSeq]) (fun _ _ => True) s := by
  simp only [Grants.insert, Prog.wp_bind, wp_exec, Prog.wp_pure]
  refine ⟨fun _ => trivial, fun _ => ⟨fun hfree => ?_, fun _ => trivial⟩⟩
  have hne : ∀ r ∈ s.db.grants, r.id ≠ id := fun r hr =>
    of_decide_eq_true (List.all_eq_true.mp hfree r hr)
  refine Prog.wp_mono (spares_append _ _ _ _ _) (fun e t ht => ?_) fun _ _ _ => trivial
  have hgrants : t.db.grants = s.db.grants ++ [rowFor id now i capability] := ht
  refine ⟨fun _ => trivial, fun _ => ⟨fun _ => ?_, fun _ => trivial⟩⟩
  refine ⟨env.sha256 (.stringify (definitionOf (rowFor id now i capability))), e.seq, rfl, ?_, ?_⟩
  · simp only [Conn.write_db, Conn.step_db, updateGrants, hgrants]
    exact map_update_new hne rfl
  · intro r hr r' hr'
    rw [mem_singleton.mp hr']
    exact hne r hr

theorem spares_checkExpiry (i : CreateGrantInput) : Spares (checkExpiry env i) := by
  unfold checkExpiry
  split
  · exact Spares.pure _
  · exact spares_now.bind fun _ => Spares.ite (Spares.throw _) (Spares.pure _)

theorem wp_grantId (i : CreateGrantInput) (s : Conn) :
    Prog.wp (grantId env i) (fun id t => t.db = s.db ∧ (i.id = none → nonEmpty id = true))
      (fun _ _ => True) s := by
  unfold grantId
  cases hid : i.id with
  | some id => exact ⟨rfl, nofun⟩
  | none =>
      rw [Prog.wp_bind, wp_randomBytes]
      refine ⟨rfl, fun _ => ?_⟩
      simp [nonEmpty, String.ext_iff]

theorem wp_create (i : CreateGrantInput) (s : Conn) : Prog.wp (create env i)
      (fun g t => ∃ row, g.id = row.id ∧ Created env i row ∧ Adds s.db t.db [row])
      (fun _ _ => True) s := by
  simp only [create, Prog.wp_bind, Prog.wp_ofExcept, wp_now]
  refine ⟨fun d hd => ?_, fun _ _ => trivial⟩
  refine Prog.wp_mono (spares_checkExpiry i s) (fun _ t ht => ?_) fun _ _ _ => trivial
  refine ⟨fun _ hscope => ?_, fun _ _ => trivial⟩
  refine Prog.wp_mono (wp_grantId i _) ?_ fun _ _ _ => trivial
  rintro id u ⟨hu, hid⟩
  refine wp_transaction_ok (fun (g : StoredGrant) db => ∃ row, g.id = row.id ∧
    Created env i row ∧ Adds s.db db [row]) fun v hv => ?_
  simp only [Prog.wp_bind, Prog.wp_gets, Prog.wp_ite, Prog.wp_throw, Prog.wp_pure]
  refine ⟨fun _ => trivial, fun _ => ?_⟩
  refine Prog.wp_mono (wp_insert _ _ _ _ v) ?_ fun _ _ _ => trivial
  rintro g x ⟨defHash, chainSeq, hg, hadds⟩
  rw [wp_record]
  have hgrants : v.db.grants = s.db.grants := by
    rw [hv, hu]
    exact ht
  refine ⟨fun _ => trivial, fun _ => ⟨filed id (env.now t.reads) i d.id.name defHash chainSeq, hg,
    ⟨d, id, env.now t.reads, defHash, chainSeq, hd, hscope, hid, rfl⟩, ?_⟩⟩
  exact ⟨by rw [← hgrants]; exact hadds.grants, by rw [← hgrants]; exact hadds.fresh⟩

/-- The grants of a list of inputs, in order. -/
theorem wp_createAll (inputs : List CreateGrantInput) (s : Conn) : Prog.wp (Prog.traverse (fun i => do
        let g ← create env i
        Pure.pure g.id) inputs : Op (List String))
      (fun ids t => ∃ rows, ids = rows.map GrantRow.id ∧ List.Forall₂ (Created env) inputs rows ∧
        Adds s.db t.db rows) (fun _ _ => True) s := by
  induction inputs generalizing s with
  | nil => exact ⟨[], rfl, .nil, Adds.nil rfl⟩
  | cons i inputs ih =>
      simp only [Prog.traverse, Prog.wp_bind, Prog.wp_pure]
      refine Prog.wp_mono (wp_create i s) ?_ fun _ _ _ => trivial
      rintro g t ⟨row, hg, hcreated, hadds⟩
      refine Prog.wp_mono (ih t) ?_ fun _ _ _ => trivial
      rintro ids u ⟨rows, rfl, hrows, hadds'⟩
      exact ⟨row :: rows, by rw [hg, map_cons], .cons hcreated hrows, hadds.trans hadds'⟩

end Creation

/-! ### What an approval at a standing scope writes -/

/-- The grants an accepted approval gave: those of the record it read. -/
structure Gave (env : Env) (input : ServiceDecideInput) (r : ApprovalStore.ApprovalRecord)
    (db db' : Db) (grantIds : List String) (d : RequestDetail) (inputs : List CreateGrantInput)
    (rows : List GrantRow) : Prop where
  accepted : refuseApproval r input = .ok d
  inputs_eq : grantsFor env r d input input.scope = .ok inputs
  created : List.Forall₂ (Created env) inputs rows
  grantIds_eq : grantIds = rows.map GrantRow.id
  adds : Adds db db' rows

section Decision

variable {env : Env} {input : ServiceDecideInput} {s : Conn}

/-- Beyond `once` no error of the creation is tolerated. -/
theorem wp_createGrants (r : ApprovalStore.ApprovalRecord) (d : RequestDetail)
    (hscope : input.scope ≠ .once) :
    Prog.wp (createGrants env r d input input.scope)
      (fun ids t => ∃ inputs rows, grantsFor env r d input input.scope = .ok inputs ∧
        List.Forall₂ (Created env) inputs rows ∧ ids = rows.map GrantRow.id ∧ Adds s.db t.db rows)
      (fun _ _ => True) s := by
  simp only [createGrants, Prog.wp_bind, Prog.wp_ofExcept, Prog.wp_tryCatch]
  refine ⟨fun inputs hinputs => ?_, fun _ _ => trivial⟩
  refine Prog.wp_mono (wp_createAll inputs s) ?_ fun e t _ => ?_
  · grind
  · unfold tolerateCeiling
    split
    · simp [hscope]
    · trivial

theorem wp_decideTx (r : ApprovalStore.ApprovalRecord) (d : RequestDetail) (nonce : String)
    (happrove : input.decision = .approve) (hscope : input.scope ≠ .once) :
    Prog.wp (decideTx env r (some d) input nonce)
      (fun res t => ∀ out, res = .ok out → ∃ inputs rows,
        grantsFor env r d input input.scope = .ok inputs ∧ List.Forall₂ (Created env) inputs rows ∧
        out.2 = rows.map GrantRow.id ∧ Adds s.db t.db rows) (fun _ _ => True) s := by
  refine wp_transaction_ok (fun (res : ApprovalResult (ApprovalStatus × List String)) db =>
    ∀ out, res = .ok out → ∃ inputs rows, grantsFor env r d input input.scope = .ok inputs ∧
      List.Forall₂ (Created env) inputs rows ∧ out.2 = rows.map GrantRow.id ∧
      Adds s.db db rows) fun v hv => ?_
  rw [Prog.wp_bind]
  refine Prog.wp_mono (spares_decide _ v) (fun res t ht => ?_) fun _ _ _ => trivial
  cases res with
  | error reason => exact fun _ h => nomatch h
  | ok status =>
      simp only [givenGrants, happrove, Prog.wp_bind]
      refine Prog.wp_mono (wp_createGrants r d hscope) ?_ fun _ _ _ => trivial
      rintro ids u ⟨inputs, rows, hinputs, hcreated, hids, hadds⟩
      rw [wp_record]
      refine ⟨fun _ => trivial, fun _ out hout => ?_⟩
      cases hout
      have hgrants : t.db.grants = s.db.grants := by rw [ht, hv]
      exact ⟨inputs, rows, hinputs, hcreated, hids, by rw [← hgrants]; exact hadds.grants,
        by rw [← hgrants]; exact hadds.fresh⟩

section Reading

variable (env) (rows : List GrantRow)

/-- The programs that only read, by what they leave of the grants at either
exit. -/
theorem keeps_snapshot : Prog.Keeps (fun t : Conn => t.db.grants = rows) (snapshot env) := by
  rw [Prog.keeps_iff_wp]
  intro t ht
  exact Prog.wp_mono (wp_snapshot_db env t) (fun _ _ hu => by rw [hu, ht])
    fun _ _ hu => by rw [hu, ht]

theorem keeps_get (requestId : String) :
    Prog.Keeps (fun t : Conn => t.db.grants = rows) (ApprovalStore.get env requestId) := by
  refine ((keeps_snapshot env rows).bind fun snap => ?_).bind fun snap => Prog.Keeps.bind ?_ fun _ => ?_
  · split
    · exact Prog.Keeps.throw _
    · exact Prog.Keeps.pure _
  · exact (Prog.Keeps.gets _).bind fun _ =>
      Prog.Keeps.bind (Prog.Keeps.modify fun _ ht => ht) fun _ => Prog.Keeps.pure _
  · split
    · exact Prog.Keeps.pure _
    · refine Prog.Keeps.bind ?_ fun rp => ?_
      · unfold parse
        split
        · exact Prog.Keeps.throw _
        · exact Prog.Keeps.pure _
      · dsimp only
        split
        · exact Prog.Keeps.throw _
        · exact Prog.Keeps.pure _

theorem keeps_announce (requestId : String) (grantIds : List String) :
    Prog.Keeps (fun t : Conn => t.db.grants = rows) (announce env requestId grantIds) := by
  refine (Prog.Keeps.tryCatch (keeps_get env rows requestId) fun _ => Prog.Keeps.pure _).bind fun _ =>
    (Prog.Keeps.traverse (fun gid => ?_) _).bind fun _ => Prog.Keeps.pure _
  refine Prog.Keeps.bind ((Prog.Keeps.gets _).bind fun row => ?_) fun v => ?_
  · split
    · exact Prog.Keeps.pure _
    · exact (keeps_snapshot env rows).bind fun _ => Prog.Keeps.pure _
  · split
    · exact Prog.Keeps.pure _
    · exact Prog.Keeps.pure _

end Reading

theorem wp_decideChecked (r : ApprovalStore.ApprovalRecord) (d : RequestDetail) (nonce : String)
    (happrove : input.decision = .approve) (hscope : input.scope ≠ .once) :
    Prog.wp (decideChecked env r (some d) input nonce)
      (fun res t => ∀ out, res = .ok out → ∃ inputs rows,
        grantsFor env r d input input.scope = .ok inputs ∧ List.Forall₂ (Created env) inputs rows ∧
        out.grantIds = rows.map GrantRow.id ∧ Adds s.db t.db rows) (fun _ _ => True) s := by
  simp only [decideChecked, Prog.wp_bind, Prog.wp_tryCatch]
  refine Prog.wp_mono (wp_decideTx r d nonce happrove hscope) (fun res t ht => ?_) fun e t _ => ?_
  · rw [Prog.wp_pure]
    cases res with
    | error reason =>
        simp only [Except.mapError, refuse, Prog.wp_bind]
        exact Prog.wp_of_forall (fun _ _ out h => by cases h) fun _ _ => trivial
    | ok out =>
        obtain ⟨inputs, rows, hinputs, hcreated, hids, hadds⟩ := ht out rfl
        simp only [Except.mapError, Prog.wp_bind, Prog.wp_pure]
        have hkeeps := Prog.keeps_iff_wp.mp (keeps_announce env t.db.grants input.requestId
          out.2) t rfl
        refine Prog.wp_mono hkeeps (fun _ u hu => ?_) fun _ _ _ => trivial
        rintro _ ⟨⟩
        exact ⟨inputs, rows, hinputs, hcreated, hids, hu.trans hadds.grants, hadds.fresh⟩
  · split
    · simp only [Prog.wp_pure, refuse, Prog.wp_bind]
      exact Prog.wp_of_forall (fun _ _ out h => by cases h) fun _ _ => trivial
    · simp only [Prog.wp_pure, refuse, Prog.wp_bind]
      exact Prog.wp_of_forall (fun _ _ out h => by cases h) fun _ _ => trivial
    · rw [Prog.wp_bind]
      exact Prog.wp_of_forall (fun _ _ => trivial) fun _ _ => trivial

/-- An approval at a standing scope that is accepted gave the grants of the
record the service read. -/
theorem gave_of_decideForSession {r : ApprovalStore.ApprovalRecord} {out : Decided} {t : Conn}
    (happrove : input.decision = .approve) (hscope : input.scope ≠ .once)
    (hget : (ApprovalStore.get env input.requestId s).1 = .ok (some r))
    (h : decideForSession env input s = (.ok (.ok out), t)) :
    ∃ d inputs rows, Gave env input r s.db t.db out.grantIds d inputs rows := by
  have hwp : Prog.wp (decideForSession env input)
      (fun res t => ∀ out, res = .ok out →
        ∃ d inputs rows, Gave env input r s.db t.db out.grantIds d inputs rows)
      (fun _ _ => True) s := by
    simp only [decideForSession, decideCore, Prog.wp_bind, Prog.wp_gets, Prog.wp_tryCatch]
    have hkeeps := Prog.keeps_iff_wp.mp (keeps_get env s.db.grants input.requestId) s rfl
    refine Prog.wp_mono (Prog.wp_and (Prog.wp_self _) hkeeps) ?_ ?_
    · rintro a u ⟨hself, hu⟩
      have ha : a = some r := by
        rw [hself] at hget
        exact Except.ok.inj hget
      subst ha
      dsimp only
      have hrefuse : ∀ reason, Prog.wp (refuse env reason : Op (Except ServiceDenial Decided))
          (fun res t => ∀ out, res = .ok out →
            ∃ d inputs rows, Gave env input r s.db t.db out.grantIds d inputs rows)
          (fun _ _ => True) u := by
        intro reason
        rw [refuse, Prog.wp_bind]
        exact Prog.wp_of_forall (fun _ _ out h => by cases h) fun _ _ => trivial
      rw [Prog.wp_ite]
      refine ⟨fun _ => hrefuse _, fun _ => ?_⟩
      rw [happrove]
      dsimp only
      cases haccept : refuseApproval r input with
      | error reason => exact hrefuse reason
      | ok d =>
          refine Prog.wp_mono (wp_decideChecked r d _ happrove hscope) ?_ fun _ _ _ => trivial
          intro res t ht out hout
          obtain ⟨inputs, rows, hinputs, hcreated, hids, hadds⟩ := ht out hout
          exact ⟨d, inputs, rows, haccept, hinputs, hcreated, hids, by rw [← hu]; exact hadds.grants,
            by rw [← hu]; exact hadds.fresh⟩
    · intro e u _
      exact Prog.wp_of_forall (fun _ _ => trivial) fun _ _ => trivial
  exact hwp.ok h out rfl

end Decision

/-! ### The grants of a call -/

/-- The grants with these ids, as they were created. -/
def createdGrants (db : Db) (ids : List String) : List Grant :=
  (db.grants.filter (fun r => ids.contains r.id)).map (fun r => (toGrant r).toGrant)

theorem createdGrants_eq {db db' : Db} {rows : List GrantRow} (h : Adds db db' rows) :
    createdGrants db' (rows.map GrantRow.id) = rows.map (fun r => (toGrant r).toGrant) := by
  have hold : db.grants.filter (fun r => (rows.map GrantRow.id).contains r.id) = [] := by
    rw [filter_eq_nil_iff]
    intro r hr hmem
    obtain ⟨r', hr', hid⟩ := mem_map.mp (contains_iff_mem.mp hmem)
    exact h.fresh r hr r' hr' hid.symm
  have hnew : rows.filter (fun r => (rows.map GrantRow.id).contains r.id) = rows := by
    rw [filter_eq_self]
    intro r hr
    exact contains_iff_mem.mpr (mem_map_of_mem hr)
  rw [createdGrants, h.grants, filter_append, hold, hnew, nil_append]

/-- A source of exactly these grants. -/
def sourceOf (maxGrantDays : ℤ) (grants : List Grant) : GrantSource where
  maxGrantDays := some maxGrantDays
  list q := grants.filter (fun g =>
    g.person = q.person ∧ g.agent = q.agent ∧ g.capability = q.capability)
  get id := grants.find? (fun g => g.id = id)
  list_query := by
    intro q g hg
    exact of_decide_eq_true (mem_filter.mp hg).2

variable {ctx : Context} {capability : String}

theorem mem_of_candidateGrants {maxGrantDays : ℤ} {grants : List Grant} {g : Grant}
    (h : g ∈ candidateGrants ctx (sourceOf maxGrantDays grants) capability) : g ∈ grants := by
  rcases mem_candidateGrants h with ⟨hlist, -⟩ | ⟨-, handoff, -, ⟨id, -, hget⟩, -⟩
  · exact (mem_filter.mp hlist).1
  · exact mem_of_find?_eq_some hget

variable {i : CreateGrantInput}

/-- What a row becomes that was created from an input. -/
theorem grant_of_created {row : GrantRow} (h : Created env i row) : ∃ d id now, checkFields env i = .ok d ∧
      checkScope env d i = .ok () ∧ (i.id = none → nonEmpty id = true) ∧
      (toGrant row).toGrant =
        { id := id, capability := d.id.name, person := i.person, agent := i.agent, scope := i.scope,
          «match» := i.match, createdAt := now, expiresAt := i.expiresAt,
          actionHash := i.actionHash, taskId := i.taskId, sessionId := i.sessionId,
          projectId := i.projectId, jobId := i.jobId, delegable := i.delegable,
          surface := i.surface, acknowledgedUnsandboxed := i.acknowledgedUnsandboxed } := by
  obtain ⟨d, id, now, defHash, chainSeq, hfields, hscope, hid, rfl⟩ := h
  exact ⟨d, id, now, hfields, hscope, hid, rfl⟩

theorem mem_mapM_parentOf {targets dirs : List String} (h : targets.mapM parentOf = some dirs)
    (dir : String) : dir ∈ dirs ↔ ∃ t ∈ targets, parentOf t = some dir := by
  induction targets generalizing dirs with
  | nil =>
      cases h
      simp
  | cons t targets ih =>
      simp only [mapM_cons, bind, Option.bind_eq_some_iff, pure, Option.some.injEq] at h
      obtain ⟨d, hd, ds, hds, rfl⟩ := h
      simp [ih hds, hd, eq_comm]

variable {r : ApprovalStore.ApprovalRecord} {d : RequestDetail} {input : ServiceDecideInput}
  {scope : GrantScope} {inputs : List CreateGrantInput}

/-- The directories the targets lie in, one grant each, or one grant of the
capability when there are no targets. -/
theorem grantsFor_ok (hroot : d.codeRoot = false) (hscope : scope ≠ .once)
    (h : grantsFor env r d input scope = .ok inputs) :
    (scope = .task → d.taskId.isSome = true) ∧ (scope = .session → d.sessionId.isSome = true) ∧
    ((d.targets = [] ∧ inputs = [grantBase r d input scope .capability]) ∨
      (d.targets ≠ [] ∧ d.targetsMasked = false ∧ ∃ dirs : List String,
        (∀ dir, dir ∈ dirs ↔ ∃ t ∈ d.targets, parentOf t = some dir) ∧
        inputs = dirs.map (fun dir => grantBase r d input scope
          (.path dir (d.access.getD (if d.effect = "read" then .read else .write)) false)))) := by
  simp only [grantsFor, hroot, Bool.false_eq_true, if_false, hscope] at h
  split at h
  · cases h
  · rename_i htask
    split at h
    · cases h
    · rename_i hsession
      refine ⟨fun hs => ?_, fun hs => ?_, ?_⟩
      · simpa [hs, Option.isSome_iff_ne_none] using htask
      · simpa [hs, Option.isSome_iff_ne_none] using hsession
      · split at h
        · rename_i hempty
          cases h
          exact .inl ⟨List.isEmpty_iff.mp hempty, rfl⟩
        · rename_i hempty
          split at h
          · cases h
          · rename_i hmasked
            split at h
            · cases h
            · rename_i dirs hdirs
              cases h
              obtain ⟨dirs₀, hdirs₀, rfl⟩ := Option.map_eq_some_iff.mp hdirs
              refine .inr ⟨by simpa using hempty, by simpa using hmasked, _, fun dir => ?_, rfl⟩
              rw [mem_reverse, mem_dedup, mem_reverse, mem_mapM_parentOf hdirs₀]

/-! ### The evaluator, asked again -/

/-- The call was asked about because its class asks and no grant applied. -/
structure Asked (canon : String → String) (call : Call) (ctx : Context) (request : ApprovalRequest)
    (d : CapabilityDef) : Prop where
  wellFormed : malformed ctx = none
  known : capabilityOf (canon call.capability) = some d
  notRefused : refusal canon call ctx d = none
  notAllowed : classFor canon ctx d call.flags (effectOf call d)
    (isBatch call.flags call.targets) ≠ .allowed
  capability : request.capability = d.id.name
  effect : request.effect = effectOf call d
  risk : request.risk = riskOf d call.flags
  flags : request.flags = { call.flags with batch := call.flags.batch || isBatch call.flags call.targets }
  options : ∀ o ∈ request.grantOptions, scopeRank o.scope ≤
    scopeRank (maxScopeFor d { call.flags with batch := isBatch call.flags call.targets })

variable {canon : String → String} {call : Call} {deps : Deps}

theorem asked_of_ask {request : ApprovalRequest} {park : Bool} {why : String}
    (htaint : ctx.tainted = false) (h : decide canon call ctx deps = .ask request park why) :
    ∃ d, Asked canon call ctx request d := by
  unfold Policy.decide at h
  split at h
  · cases h
  · rename_i hwell
    split at h
    · cases h
    · rename_i d hcap
      split at h
      · rename_i r href
        subst h
        exfalso
        unfold refusal at href
        grind
      · rename_i href
        have hsusp : taintSuspends ctx d (effectOf call d) = false := by
          simp [taintSuspends, htaint]
        simp only [evaluate, hsusp, Bool.and_false, Bool.false_eq_true, if_false] at h
        split at h
        · cases h
        · rename_i hcls
          split at h
          · cases h
          · unfold askOrRefuse at h
            split at h
            · cases h
            · split at h
              · cases h
              · unfold ask at h
                simp only [Decision.ask.injEq] at h
                obtain ⟨rfl, -, -⟩ := h
                refine ⟨d, hwell, hcap, href, hcls, rfl, rfl, rfl, rfl, ?_⟩
                intro o ho
                obtain ⟨scope, hscope, rfl⟩ := mem_map.mp ho
                exact of_decide_eq_true (mem_filter.mp hscope).2

/-- Whether the evaluator now allows the call is whether a grant applies. -/
theorem Asked.allow_iff {request : ApprovalRequest} {d : CapabilityDef}
    (h : Asked canon call ctx request d) {id : String} :
    (∃ due, decide canon call ctx deps = .allow .grant (some id) due) ↔
      ∃ g, applyingGrant canon call ctx deps d = some g ∧ g.id = id := by
  simp only [Policy.decide, h.wellFormed, h.known, h.notRefused, evaluate, h.notAllowed, if_false]
  cases applyingGrant canon call ctx deps d with
  | none =>
      simp only [reduceCtorEq, false_and, exists_false, iff_false, not_exists]
      intro due hallow
      unfold askOrRefuse at hallow
      split at hallow
      · cases hallow
      · split at hallow
        · cases hallow
        · cases hallow
  | some g => simp

/-! ### Creation and matching meet -/

/-- The record of a request is the one this ask was stored with. -/
structure Stores (redact : String → String) (ask : ApprovalAsk)
    (r : ApprovalStore.ApprovalRecord) : Prop where
  capability : r.capability = ask.request.capability
  bound : r.bound = (bindingOf ask).tuple
  detail : r.detail = some (detailOf redact ask)

/-- The calls a standing grant can carry at all. -/
structure Plain (call : Call) (ctx : Context) (request : ApprovalRequest) : Prop where
  privileged : call.flags.privileged = false
  batch : isBatch call.flags call.targets = false
  money : request.effect ≠ .money
  taint : ctx.tainted = false
  headless : ctx.headless = none
  sandboxed : request.capability = CapabilityId.shellExec.name → call.flags.sandboxed = true

/-- The calls that one of the grants made of them covers: without targets, those
inside the roots; with targets, those that say how they access them and whose
targets are all direct children of the directory of one of them. -/
def Coverable (call : Call) : Prop := (call.targets.getD [] = [] ∧ call.flags.outsideRoots = false) ∨
    (call.access.isSome = true ∧ ∃ t₀ ∈ call.targets.getD [], ∃ dir, parentOf t₀ = some dir ∧
      ∀ t ∈ call.targets.getD [], pathCovered dir false t = true)

theorem refuseApproval_ok (h : refuseApproval r input = .ok d) :
    r.detail.bind readDetail = some d ∧ input.scope ∈ d.grantOptions ∧
      surfaceMayDecide r.capability (riskIs d.risk) d.flags input.surface input.scope = true := by
  unfold refuseApproval at h
  split at h
  · cases h
  · split at h
    · cases h
    · split at h
      · rename_i c d' _ hd
        split at h
        · cases h
        · rename_i hoption
          split at h
          · cases h
          · split at h
            · cases h
            · split at h
              · cases h
              · rename_i hsurface
                cases h
                exact ⟨hd, not_not.mp hoption, by simpa using hsurface⟩
      · cases h

variable {c : CapabilityDef}

theorem requiredSurface_le {risk : Risk} {flags : CallFlags} {surface : SurfaceTrust}
    (hc : capabilityOf capability = some c)
    (h : surfaceMayDecide capability risk flags surface scope = true) :
    requiredSurface c scope flags ≤ surface := by
  simp only [surfaceMayDecide, hc] at h
  split at h
  · cases h
  · split at h
    · cases h
    · simp only [Bool.and_eq_true, decide_eq_true_eq] at h
      exact h.1

section Matching

variable {canon : String → String} {call : Call} {ctx : Context} {request : ApprovalRequest}
  {d : CapabilityDef} {g : Grant} {now maxGrantDays : ℤ}

theorem standingMatches_capability (hplain : Plain call ctx request)
    (hasked : Asked canon call ctx request d) (hmatch : g.match = .capability) :
    standingMatches g d call call.flags (effectOf call d) (isBatch call.flags call.targets) = true ↔
      call.flags.outsideRoots = false := by
  have hmoney : effectOf call d ≠ .money := hasked.effect ▸ hplain.money
  have hshell : d.id = .shellExec → call.flags.sandboxed = true := by
    intro hd
    apply hplain.sandboxed
    rw [hasked.capability, hd]
  by_cases hd : d.id = .shellExec
  · simp [standingMatches, hmatch, hplain.batch, hplain.privileged, hmoney, hd, hshell hd]
  · simp [standingMatches, hmatch, hplain.batch, hplain.privileged, hmoney, hd]

theorem standingMatches_path (hplain : Plain call ctx request)
    (hasked : Asked canon call ctx request d) {dir : String} {access : Access}
    (hmatch : g.match = .path dir access false)
    (haccess : ∀ a, call.access = some a → access = a) :
    standingMatches g d call call.flags (effectOf call d) (isBatch call.flags call.targets) = true ↔
      call.access.isSome = true ∧ call.targets.getD [] ≠ [] ∧
        ∀ t ∈ call.targets.getD [], pathCovered dir false t = true := by
  have hmoney : effectOf call d ≠ .money := hasked.effect ▸ hplain.money
  have hshell : (d.id == .shellExec && !call.flags.sandboxed && !g.acknowledgedUnsandboxed) = false := by
    by_cases hd : d.id = .shellExec
    · have hbox : call.flags.sandboxed = true := by
        apply hplain.sandboxed
        rw [hasked.capability, hd]
      simp [hbox]
    · simp [hd]
  simp only [standingMatches, hmatch, hplain.batch, hplain.privileged, hshell]
  cases htargets : call.targets with
  | none => simp
  | some targets =>
      cases hacc : call.access with
      | none => simp
      | some a =>
          obtain rfl := haccess a hacc
          cases access <;> simp [hmoney]

end Matching

theorem capability_of_checkFields (h : checkFields env i = .ok c) :
    capabilityOf (env.canon i.capability) = some c := by
  unfold checkFields at h
  split at h
  · cases h
  · rename_i d hd
    rw [hd]
    repeat' split at h
    all_goals
      cases h
    rfl

theorem nonEmpty_of_checkScope {path : String} {access : Access} {recursive : Bool}
    (h : checkScope env c i = .ok ()) (hmatch : i.match = .path path access recursive) :
    nonEmpty path = true := by
  by_contra hempty
  have hbad : ∀ {code message}, (bad code message : Except Exn Unit) ≠ .ok () := by
    intro code message hb
    cases hb
  have hpath : checkPath env c i path recursive ≠ .ok () := by
    simp only [checkPath, Bool.not_eq_true] at hempty ⊢
    simp [hempty, hbad]
  simp only [checkScope, hmatch] at h
  repeat' split at h
  all_goals first | exact hbad h | exact hpath h

theorem nonEmpty_name (c : CapabilityId) : nonEmpty c.name = true := by
  cases c <;> rfl

theorem nonEmpty_of_wellFormed (h : malformed ctx = none) :
    nonEmpty ctx.person = true ∧ nonEmpty ctx.subject.agentId = true := by
  unfold malformed at h
  split at h
  · cases h
  · rename_i hempty
    simpa [not_or] using hempty

section Meeting

variable {env : Env} {redact : String → String} {call : Call} {ctx : Context}
  {request : ApprovalRequest} {callId : String} {turnId : Option String} {shown : Shown}
  {input : ServiceDecideInput} {r : ApprovalStore.ApprovalRecord} {d : CapabilityDef}
  {detail : RequestDetail}

variable {row : GrantRow}

/-- A grant created for a call names the call's capability, person and agent. -/
theorem grant_of_base (hcanon : ∀ c : CapabilityId, env.canon c.name = c.name)
    (hasked : Asked env.canon call ctx request d)
    (hstores : Stores redact (askOf call ctx request callId turnId shown) r) {scope : GrantScope}
    {«match» : GrantMatch} (hcreated : Created env (grantBase r detail input scope «match») row) :
    ∃ id born, nonEmpty id = true ∧ checkScope env d (grantBase r detail input scope «match») = .ok () ∧
      (toGrant row).toGrant =
        { id := id, capability := d.id.name, person := ctx.person, agent := ctx.subject.agentId,
          scope := scope, «match» := «match», createdAt := born, taskId := detail.taskId,
          sessionId := detail.sessionId, projectId := detail.projectId,
          delegable := input.delegable, surface := input.surface,
          acknowledgedUnsandboxed := input.acknowledgedUnsandboxed } := by
  obtain ⟨c, id, born, hfields, hchecked, hid, hg⟩ := grant_of_created hcreated
  -- the capability that was stored, canonised and created is that of the call
  have hd : d = TABLE d.id := (capabilityOf_eq_some hasked.known).1
  have hcap : r.capability = d.id.name := hstores.capability.trans hasked.capability
  have hc : c = d := by
    have hsame := capability_of_checkFields hfields
    change capabilityOf (env.canon r.capability) = some c at hsame
    rw [hcap, hcanon, capabilityOf_name, ← hd] at hsame
    exact (Option.some.inj hsame).symm
  subst hc
  have hperson : r.principal = ctx.person := by
    rw [ApprovalStore.ApprovalRecord.principal, hstores.bound]
    rfl
  have hagent : r.subjectId = ctx.subject.agentId := by
    rw [ApprovalStore.ApprovalRecord.subjectId, hstores.bound]
    rfl
  refine ⟨id, born, hid rfl, hchecked, ?_⟩
  rw [hg, ← hperson, ← hagent]
  rfl

/-- Everything but the match of a grant created for a call fits that call. -/
theorem grantHolds_iff (hcanon : ∀ c : CapabilityId, env.canon c.name = c.name)
    (hasked : Asked env.canon call ctx request d) (hplain : Plain call ctx request)
    (hstores : Stores redact (askOf call ctx request callId turnId shown) r)
    (hdetail : detail = detailRead redact (askOf call ctx request callId turnId shown))
    (haccept : refuseApproval r input = .ok detail) (hscope : input.scope ≠ .once)
    (htask : input.scope = .task → detail.taskId.isSome = true)
    (hsession : input.scope = .session → detail.sessionId.isSome = true) {«match» : GrantMatch}
    (hcreated : Created env (grantBase r detail input input.scope «match») row) {now : ℤ}
    (hborn : (toGrant row).createdAt ≤ now)
    (hlives : now < grantExpiry (toGrant row).toGrant env.maxGrantDays) :
    (validGrant (toGrant row).toGrant = true ∧
        GrantHolds env.canon (toGrant row).toGrant d call ctx call.flags (effectOf call d)
          (isBatch call.flags call.targets) (taintSuspends ctx d (effectOf call d)) now
          env.maxGrantDays) ↔
      standingMatches (toGrant row).toGrant d call call.flags (effectOf call d)
        (isBatch call.flags call.targets) = true := by
  obtain ⟨id, born, hid, hchecked, hg⟩ := grant_of_base hcanon hasked hstores hcreated
  have hknown : capabilityOf r.capability = some d := by
    rw [hstores.capability]
    change capabilityOf request.capability = some d
    rw [hasked.capability, capabilityOf_name, ← (capabilityOf_eq_some hasked.known).1]
  have hflags : detail.flags = call.flags := by
    have hbatch : call.flags.batch = false := by
      have := hplain.batch
      simp only [isBatch, Bool.or_eq_false_iff] at this
      exact this.1
    have hread : detail.flags = request.flags := by rw [hdetail]; rfl
    rw [hread, hasked.flags, hplain.batch, hbatch, Bool.or_false, ← hbatch]
  obtain ⟨-, hoption, hsurface⟩ := refuseApproval_ok haccept
  have hrank : scopeRank input.scope ≤
      scopeRank (maxScopeFor d { call.flags with batch := isBatch call.flags call.targets }) := by
    rw [hdetail] at hoption
    obtain ⟨o, ho, hoscope⟩ := mem_map.mp hoption
    rw [← hoscope]
    exact hasked.options o ho
  have hneeded : requiredSurface d input.scope call.flags ≤ input.surface := by
    rw [hflags] at hsurface
    exact requiredSurface_le hknown hsurface
  have hsusp : taintSuspends ctx d (effectOf call d) = false := by
    simp [taintSuspends, hplain.taint]
  obtain ⟨hp, ha⟩ := nonEmpty_of_wellFormed hasked.wellFormed
  have hvalid : validGrant (toGrant row).toGrant = true := by
    rw [hg]
    cases «match» with
    | action => simp [validGrant, hid, nonEmpty_name, hp, ha]
    | capability => simp [validGrant, hid, nonEmpty_name, hp, ha]
    | path path access recursive =>
        have hpath : nonEmpty path = true := nonEmpty_of_checkScope hchecked rfl
        simp [validGrant, hid, nonEmpty_name, hp, ha, hpath]
  rw [and_iff_right hvalid]
  have htaskId : detail.taskId = ctx.taskId := by rw [hdetail]; rfl
  have hsessionId : detail.sessionId = ctx.sessionId := by rw [hdetail]; rfl
  have hprojectId : detail.projectId = ctx.projectId := by rw [hdetail]; rfl
  rw [hg] at hborn hlives ⊢
  constructor
  · intro h
    exact scopeMatches_standing hscope h.scopeMatches
  · intro hstanding
    refine ⟨rfl, hcanon d.id, rfl, ?_, ?_, hrank, hborn, hlives, by simp, hneeded, ?_,
      fun _ => hprojectId, ?_⟩
    · simp [jobMismatch, hplain.headless]
    · simp [foreignAgent]
    · rw [hsusp]
      intro h
      cases h
    · unfold scopeMatches
      cases hs : input.scope with
      | once => exact absurd hs hscope
      | task =>
          rw [hs] at hstanding
          simp only [grantTask, beq_self_eq_true, if_true, htaskId, Bool.and_true, Bool.and_eq_true]
          exact ⟨htaskId ▸ htask hs, htaskId ▸ hstanding⟩
      | session => simp_all
      | always =>
          rw [hs] at hstanding
          exact hstanding

/-- One of the grants applies when one of them matches. -/
theorem exists_applyingGrant_iff {maxGrantDays : ℤ} {rows : List GrantRow} {now : ℤ}
    (hlisted : ∀ row ∈ rows, (toGrant row).person = ctx.person ∧
      (toGrant row).agent = ctx.subject.agentId ∧ (toGrant row).capability = d.id.name)
    (hholds : ∀ row ∈ rows, (validGrant (toGrant row).toGrant = true ∧
        GrantHolds env.canon (toGrant row).toGrant d call ctx call.flags (effectOf call d)
          (isBatch call.flags call.targets) (taintSuspends ctx d (effectOf call d)) now
          maxGrantDays) ↔
      standingMatches (toGrant row).toGrant d call call.flags (effectOf call d)
        (isBatch call.flags call.targets) = true) :
    (∃ id ∈ rows.map GrantRow.id, ∃ g, applyingGrant env.canon call ctx
        ⟨sourceOf maxGrantDays (rows.map (fun r => (toGrant r).toGrant)), some now⟩ d = some g ∧
        g.id = id) ↔
      ∃ row ∈ rows, standingMatches (toGrant row).toGrant d call call.flags (effectOf call d)
        (isBatch call.flags call.targets) = true := by
  constructor
  · rintro ⟨id, -, g, hg, -⟩
    obtain ⟨now', hnow, hmem, hvalid, hg⟩ := applyingGrant_some hg
    cases hnow
    obtain ⟨row, hrow, rfl⟩ := mem_map.mp (mem_of_candidateGrants hmem)
    exact ⟨row, hrow, (hholds row hrow).mp ⟨hvalid, hg⟩⟩
  · rintro ⟨row, hrow, hstanding⟩
    obtain ⟨hvalid, hg⟩ := (hholds row hrow).mpr hstanding
    have hsome : (applyingGrant env.canon call ctx
        ⟨sourceOf maxGrantDays (rows.map (fun r => (toGrant r).toGrant)), some now⟩ d).isSome =
        true := by
      simp only [applyingGrant, Option.bind_some, List.find?_isSome, Bool.and_eq_true]
      refine ⟨(toGrant row).toGrant, ?_, hvalid, grantApplies_iff.mpr hg⟩
      exact mem_append_left _ (mem_filter.mpr ⟨mem_map.mpr ⟨row, hrow, rfl⟩,
        decide_eq_true (hlisted row hrow)⟩)
    obtain ⟨g, hg⟩ := Option.isSome_iff_exists.mp hsome
    obtain ⟨now', hnow, hmem, -, -⟩ := applyingGrant_some hg
    obtain ⟨row', hrow', rfl⟩ := mem_map.mp (mem_of_candidateGrants hmem)
    exact ⟨_, mem_map_of_mem hrow', _, hg, rfl⟩

end Meeting

theorem exists_of_forall₂_right {α β : Type} {R : α → β → Prop} {as : List α} {bs : List β}
    (h : List.Forall₂ R as bs) {b : β} (hb : b ∈ bs) : ∃ a ∈ as, R a b := by
  induction h with
  | nil => cases hb
  | @cons a b' as bs hab _ ih => grind

variable {redact : String → String} {ask : ApprovalAsk}

theorem maskedTargets_eq_nil : maskedTargets redact ask = [] ↔ ask.targets.getD [] = [] := by
  simp [maskedTargets, MAX_TARGETS]

theorem maskedTargets_eq (h : targetsMasked redact ask = false) :
    maskedTargets redact ask = ask.targets.getD [] := by
  simp only [targetsMasked, Bool.or_eq_false_iff, decide_eq_false_iff_not, not_not, gt_iff_lt, not_lt] at h
  rw [h.1, take_of_length_le h.2]

/-- The matches of the grants made of a call. -/
def Shaped (call : Call) (matches' : List GrantMatch) : Prop :=
  (call.targets.getD [] = [] ∧ matches' = [.capability]) ∨
    (call.targets.getD [] ≠ [] ∧ ∃ (access : Access) (dirs : List String),
      (∀ a, call.access = some a → access = a) ∧
      (∀ dir, dir ∈ dirs ↔ ∃ t ∈ call.targets.getD [], parentOf t = some dir) ∧
      matches' = dirs.map (fun dir => .path dir access false))

/-- One of the matches covers the call exactly when the call is coverable. -/
theorem Shaped.coverable_iff {request : ApprovalRequest} {d : CapabilityDef}
    {matches' : List GrantMatch} (h : Shaped call matches') (hasked : Asked canon call ctx request d)
    (hplain : Plain call ctx request) {grants : List Grant}
    (hmatches : grants.map Grant.match = matches') :
    (∃ g ∈ grants, standingMatches g d call call.flags (effectOf call d)
        (isBatch call.flags call.targets) = true) ↔ Coverable call := by
  subst hmatches
  rcases h with ⟨hempty, hcap⟩ | ⟨htargets, access, dirs, haccess, hdirs, hpaths⟩
  · obtain ⟨g, rfl, hg⟩ : ∃ g, grants = [g] ∧ g.match = .capability := by
      rcases grants with _ | ⟨g, _ | _⟩
      · cases hcap
      · exact ⟨g, rfl, (List.cons.inj hcap).1⟩
      · cases (List.cons.inj hcap).2
    simp only [mem_singleton, exists_eq_left, standingMatches_capability hplain hasked hg]
    simp [Coverable, hempty]
  · have hmatch : ∀ g ∈ grants, ∃ dir ∈ dirs, g.match = .path dir access false := by
      intro g hg
      have hmem : g.match ∈ dirs.map (fun dir => GrantMatch.path dir access false) := by
        rw [← hpaths]
        exact mem_map_of_mem hg
      obtain ⟨dir, hdir, heq⟩ := mem_map.mp hmem
      exact ⟨dir, hdir, heq.symm⟩
    constructor
    · rintro ⟨g, hg, hstanding⟩
      obtain ⟨dir, hdir, hmdir⟩ := hmatch g hg
      obtain ⟨hsome, -, hall⟩ := (standingMatches_path hplain hasked hmdir haccess).mp hstanding
      obtain ⟨t₀, ht₀, hparent⟩ := (hdirs dir).mp hdir
      exact .inr ⟨hsome, t₀, ht₀, dir, hparent, hall⟩
    · rintro (⟨hempty, -⟩ | ⟨hsome, t₀, ht₀, dir, hparent, hall⟩)
      · exact absurd hempty htargets
      · have hmem : GrantMatch.path dir access false ∈ grants.map Grant.match := by
          rw [hpaths]
          exact mem_map_of_mem ((hdirs dir).mpr ⟨t₀, ht₀, hparent⟩)
        obtain ⟨g, hg, hmdir⟩ := mem_map.mp hmem
        exact ⟨g, hg, (standingMatches_path hplain hasked hmdir haccess).mpr ⟨hsome, htargets, hall⟩⟩

/-- The inputs are of one base and differ in their matches, which are shaped by
the call. -/
theorem shaped_of_grantsFor {request : ApprovalRequest} {callId : String} {turnId : Option String}
    {shown : Shown} {detail : RequestDetail} (hscope : input.scope ≠ .once)
    (hdetail : detail = detailRead redact (askOf call ctx request callId turnId shown))
    (h : grantsFor env r detail input input.scope = .ok inputs) :
    (input.scope = .task → detail.taskId.isSome = true) ∧
      (input.scope = .session → detail.sessionId.isSome = true) ∧
      ∃ matches', Shaped call matches' ∧ inputs = matches'.map (grantBase r detail input input.scope) := by
  obtain ⟨htask, hsession, hshape⟩ := grantsFor_ok (by rw [hdetail]; rfl) hscope h
  refine ⟨htask, hsession, ?_⟩
  rcases hshape with ⟨hempty, rfl⟩ | ⟨htargets, hmasked, dirs, hdirs, rfl⟩
  · rw [hdetail] at hempty
    exact ⟨_, .inl ⟨maskedTargets_eq_nil.mp hempty, rfl⟩, rfl⟩
  · rw [hdetail] at hmasked
    have hall : detail.targets = call.targets.getD [] := by
      rw [hdetail]
      exact maskedTargets_eq hmasked
    have haccess : detail.access = call.access := by rw [hdetail]; rfl
    rw [hall] at htargets hdirs
    refine ⟨_, .inr ⟨htargets, detail.access.getD (if detail.effect = "read" then .read else .write),
      dirs, ?_, hdirs, rfl⟩, ?_⟩
    · intro a ha
      rw [haccess, ha]
      rfl
    · rw [List.map_map]
      rfl

/-- An approval at a standing scope, accepted for a call that a standing grant
can carry: evaluated again while the grants it gave live and with just these in
the source, the call is allowed by one of them exactly when it is coverable. -/
theorem allowed_again_iff_coverable (env : Env)
    (hcanon : ∀ c : CapabilityId, env.canon c.name = c.name) (redact : String → String)
    (call : Call) (ctx : Context) (deps : Deps) (request : ApprovalRequest) (park : Bool)
    (why : String) (hask : Policy.decide env.canon call ctx deps = .ask request park why)
    (hplain : Plain call ctx request) (callId : String) (turnId : Option String) (shown : Shown)
    (s t : Conn) (r : ApprovalStore.ApprovalRecord) (input : ServiceDecideInput)
    (hget : (ApprovalStore.get env input.requestId s).1 = .ok (some r))
    (hstores : Stores redact (askOf call ctx request callId turnId shown) r)
    (happrove : input.decision = .approve) (hscope : input.scope ≠ .once) (out : Decided)
    (haccept : decideForSession env input s = (.ok (.ok out), t)) (now : ℤ)
    (hlive : ∀ g ∈ createdGrants t.db out.grantIds,
      g.createdAt ≤ now ∧ now < grantExpiry g env.maxGrantDays) :
    (∃ id ∈ out.grantIds, ∃ due, Policy.decide env.canon call ctx
        ⟨sourceOf env.maxGrantDays (createdGrants t.db out.grantIds), some now⟩ =
          .allow .grant (some id) due) ↔ Coverable call := by
  obtain ⟨d, hasked⟩ := asked_of_ask hplain.taint hask
  obtain ⟨detail, inputs, rows, hgave⟩ := gave_of_decideForSession happrove hscope hget haccept
  have hdetail : detail = detailRead redact (askOf call ctx request callId turnId shown) := by
    obtain ⟨hread, -⟩ := refuseApproval_ok hgave.accepted
    rw [hstores.detail, Option.bind_some, readDetail_detailOf redact _ shown rfl rfl] at hread
    exact (Option.some.inj hread).symm
  obtain ⟨htask, hsession, matches', hshaped, hinputs⟩ := shaped_of_grantsFor hscope hdetail hgave.inputs_eq
  have hgrants := createdGrants_eq hgave.adds
  rw [hgave.grantIds_eq, hgrants] at hlive ⊢
  have hcreated : List.Forall₂ (fun m row =>
      Created env (grantBase r detail input input.scope m) row) matches' rows := by
    have := hgave.created
    rwa [hinputs, List.forall₂_map_left_iff] at this
  have hgrant : ∀ m row, Created env (grantBase r detail input input.scope m) row →
      (toGrant row).person = ctx.person ∧ (toGrant row).agent = ctx.subject.agentId ∧
        (toGrant row).capability = d.id.name ∧ (toGrant row).match = m := by
    intro m row hc
    obtain ⟨id, born, -, -, hg⟩ := grant_of_base hcanon hasked hstores hc
    rw [hg]
    exact ⟨rfl, rfl, rfl, rfl⟩
  have hmatches : (rows.map (fun row => (toGrant row).toGrant)).map Grant.match = matches' := by
    rw [List.map_map]
    clear hshaped hinputs hgrants hlive hgave
    induction hcreated with
    | nil => rfl
    | @cons m row matches' rows hc _ ih => grind
  simp only [hasked.allow_iff]
  rw [exists_applyingGrant_iff, ← hshaped.coverable_iff hasked hplain hmatches]
  · simp
  · intro row hrow
    obtain ⟨m, -, hc⟩ := exists_of_forall₂_right hcreated hrow
    obtain ⟨hp, ha, hcap, -⟩ := hgrant m row hc
    exact ⟨hp, ha, hcap⟩
  · intro row hrow
    obtain ⟨m, -, hc⟩ := exists_of_forall₂_right hcreated hrow
    obtain ⟨hborn, hlives⟩ := hlive _ (mem_map_of_mem hrow)
    exact grantHolds_iff hcanon hasked hplain hstores hdetail hgave.accepted hscope htask hsession
      hc hborn hlives

/-! ### Two files read at once

Two files outside the roots are read at once, and the read is approved for the
task. The MACs, tags and digests are those of the two histories under the key
of 32 bytes `0x01`. -/

/-- The second file lies beside the first, or in another directory. -/
inductive Layout | beside | apart
  deriving DecidableEq, Repr

def Layout.targets : Layout → List String
  | .beside => ["/data/a/x", "/data/a/y"]
  | .apart => ["/data/a/x", "/data/b/y"]

def Layout.actionHash : Layout → String
  | .beside => "8babea7b9c6a3d45fcfef4c374250a40b2f8ad7e827f0e0dc75cb57fd383939f"
  | .apart => "867858bb58fd794dc4deca01556fa50590acf347f9159e2acb8be29dba975072"

def Layout.hmac : Layout → MacInput → String
  | .beside, .entry _ 1 .. => "93082310cec9a880c7323e46231262c94212e30e57a47ce127471a217eb82a9b"
  | .beside, .entry _ 2 .. => "715c7d387c6102d2c18afee1ab89a5fb268ddecb8682b73ca5a9e2fed11cd229"
  | .beside, .entry .. => "1c4b04bb8cb17712728cbf3cac5581e9f4c7c149d1dbc34582dddac696b74017"
  | .beside, .head 1 _ => "d25b75547696e04205242b4071015ea198c4e3f0dede419de34c0e896798f76e"
  | .beside, .head 2 _ => "bd7454a658cb6f57062fceb38af931701f8f5badea281d96d2248e025a52ad0c"
  | .beside, .head .. => "b1d0914b3185be70257cc4793ac7d6c92217fd62619a702a52343deba55d5092"
  | .apart, .entry _ 1 .. => "f442f87c3849a4899a5ded104a40e1c326c2873372ff3b3a2237d1e9508eb7d2"
  | .apart, .entry _ 2 .. => "c2bece3e7c5c76d7bc0124ffbeeec1e629267f8bb13d0a150712eea0d9a2fa96"
  | .apart, .entry _ 3 .. => "c736b49af18047d8a1e974c68d9b55f88f070900a6d1de1d81c0fc1aeeaf733e"
  | .apart, .entry .. => "b94d9e9ccd79a1bc5be9a902b928a403af812d6df9a64434b81095d7179448c4"
  | .apart, .head 1 _ => "5792eb091db91ecd6a5ccccfd65c0fcd69285ce89d467615f9a4a4192e7f9044"
  | .apart, .head 2 _ => "073fc2126edeea6ac2f76bc9f9f1cd75c54765f37f7e0c51b7367536751595f2"
  | .apart, .head 3 _ => "192833f899f022f20b55f7abc2a225ead3201090f08a343c84bd272b4fa28b4d"
  | .apart, .head .. => "b7dbd214a2dd0a776cd9c93764f74bee3bed4d91e9fdab6614ef3492e39ef034"

/-- The definition that names the directory `/data/b` has the second digest. -/
def readDigest (text : JsonText) : String :=
  match (text.parsed.bind (·.get "match")).bind (·.get "path") with
  | some (.str "/data/b") => "f80212028890242d531ab3ace88c3a77be60fb1b8fb228add67a5691b562863c"
  | _ => "a6f372f9ba34d0b81e1176557014429782dedb3ae68dd8b1ae609161355ae47f"

def readEnv (layout : Layout) : Env where
  key := { hmac := layout.hmac }
  now := fun _ => 1700000000000
  random
    | 0 => "00112233445566778899aabb"
    | 1 => "0f0e0d0c0b0a09080706050403020100"
    | 2 => "ccddeeff0011223344556677"
    | _ => "8899aabbccddeeff00112233"
  sha256 := readDigest
  canon := id
  checkSyntax := fun _ => .path true
  reachesSystemTree := fun _ _ => false

def readCall (layout : Layout) : Call where
  capability := "fs.read"
  tool := "fs.read"
  effect := some "read"
  flags := { outsideRoots := true, denyListHit := false }
  targets := some layout.targets
  access := some .read
  actionHash := layout.actionHash

def readContext : Context where
  person := "owner"
  subject := ⟨.agent, "main"⟩
  surface := 1
  taskId := some "task-1"

def readRequest (layout : Layout) : ApprovalRequest where
  capability := "fs.read"
  tool := "fs.read"
  effect := .read
  flags := (readCall layout).flags
  risk := .low
  reversible := true
  actionHash := layout.actionHash
  grantOptions := [⟨.once, 1⟩, ⟨.task, 1⟩, ⟨.session, 1⟩, ⟨.always, 1⟩]
  requiredSurface := 1
  tainted := false
  taintSuspended := false
  originSurface := 1

def readShown : Layout → Shown
  | .beside =>
    ⟨"\x7b\"paths\":[\"/data/a/x\",\"/data/a/y\"]\x7d", 35,
      "ffc90e91c3bad7752687f4b77e7b4403d0e6119ccc437750363e13119f7597af", none, none⟩
  | .apart =>
    ⟨"\x7b\"paths\":[\"/data/a/x\",\"/data/b/y\"]\x7d", 35,
      "dfd3ac5c795ec396a5cbd48d9fb22364474550c2de2faaea5bd46759ef76d268", none, none⟩

def readAsk (layout : Layout) : ApprovalAsk :=
  askOf (readCall layout) readContext (readRequest layout) "call-1" none (readShown layout)

/-- The connection once the request is stored. -/
def readRequested (layout : Layout) : Conn :=
  (request (readEnv layout) DEFAULT_REQUEST_TTL_MS id (readAsk layout) (Conn.opened {})).2

def readApproval : ServiceDecideInput where
  requestId := "apr_00112233445566778899aabb"
  decision := .approve
  person := "owner"
  surface := 1
  scope := .task

/-- The record of the stored request. -/
def readRecord (layout : Layout) : ApprovalStore.ApprovalRecord where
  id := "apr_00112233445566778899aabb"
  status := .pending
  capability := "fs.read"
  bound := (bindingOf (readAsk layout)).tuple
  createdAt := 1700000000000
  expiresAt := some 1700086400000
  delegable := false
  detail := some (detailOf id (readAsk layout))

/-- No grants were there when the call was asked about. -/
def noGrants : Deps := ⟨sourceOf 90 [], some 1700000000000⟩


/-- The connection once the read is approved. -/
def readApproved (layout : Layout) : Conn :=
  (decideForSession (readEnv layout) readApproval (readRequested layout)).2

def Layout.grantIds : Layout → List String
  | .beside => ["grt_ccddeeff0011223344556677"]
  | .apart => ["grt_ccddeeff0011223344556677", "grt_8899aabbccddeeff00112233"]

/-- The grant on one directory. -/
def readGrant (id dir : String) : Grant where
  id := id
  capability := "fs.read"
  person := "owner"
  agent := "main"
  scope := .task
  «match» := .path dir .read false
  createdAt := 1700000000000
  taskId := some "task-1"
  surface := 1

def Layout.grants : Layout → List Grant
  | .beside => [readGrant "grt_ccddeeff0011223344556677" "/data/a"]
  | .apart =>
    [readGrant "grt_ccddeeff0011223344556677" "/data/a", readGrant "grt_8899aabbccddeeff00112233" "/data/b"]

/-- An hour after the approval. -/
def readAgain : ℤ := 1700003600000

section Read

variable (layout : Layout)

theorem read_asked : Policy.decide (readEnv layout).canon (readCall layout) readContext noGrants =
      .ask (readRequest layout) false "approval-class" := by
  cases layout <;> decide +kernel

theorem plain_read : Plain (readCall layout) readContext (readRequest layout) := by
  constructor <;> cases layout <;> decide

theorem read_stored : (ApprovalStore.get (readEnv layout) readApproval.requestId (readRequested layout)).1 =
      .ok (some (readRecord layout)) := by
  cases layout <;> decide +kernel

theorem stores_read : Stores id (readAsk layout) (readRecord layout) := ⟨rfl, rfl, rfl⟩

theorem read_accepted : decideForSession (readEnv layout) readApproval (readRequested layout) =
      (.ok (.ok ⟨.approved, .task, layout.grantIds⟩), readApproved layout) := by
  have hanswer : (decideForSession (readEnv layout) readApproval (readRequested layout)).1 =
      .ok (.ok ⟨.approved, .task, layout.grantIds⟩) := by
    cases layout <;> decide +kernel
  rw [readApproved, ← hanswer]

theorem read_granted : createdGrants (readApproved layout).db layout.grantIds = layout.grants := by
  cases layout <;> decide +kernel

theorem read_live : ∀ g ∈ layout.grants, g.createdAt ≤ readAgain ∧ readAgain < grantExpiry g 90 := by
  cases layout <;> decide +kernel

end Read

/-- The files beside each other are read again under the one grant. -/
theorem allowed_again_iff_coverable_beside :
    ∃ id' ∈ Layout.beside.grantIds, ∃ due, Policy.decide (readEnv .beside).canon
      (readCall .beside) readContext
      ⟨sourceOf 90 (createdGrants (readApproved .beside).db Layout.beside.grantIds),
        some readAgain⟩ = .allow .grant (some id') due := by
  have hlive : ∀ g ∈ createdGrants (readApproved .beside).db Layout.beside.grantIds,
      g.createdAt ≤ readAgain ∧ readAgain < grantExpiry g 90 := by
    rw [read_granted]
    exact read_live .beside
  have hcoverable : Coverable (readCall .beside) :=
    .inr ⟨rfl, "/data/a/x", by decide, "/data/a", by decide, by decide⟩
  exact (allowed_again_iff_coverable (readEnv .beside) (fun _ => rfl) id
    (readCall .beside) readContext noGrants (readRequest .beside) false "approval-class"
    (read_asked .beside) (plain_read .beside) "call-1" none (readShown .beside)
    (readRequested .beside) (readApproved .beside) (readRecord .beside) readApproval
    (read_stored .beside) (stores_read .beside) rfl (by decide)
    ⟨.approved, .task, Layout.beside.grantIds⟩ (read_accepted .beside) readAgain hlive).mpr
    hcoverable

/-- The files in two directories are granted one by one, and no grant covers
the call it was given for: the call is asked about again. -/
theorem read_apart_not_allowed_again :
    Policy.decide (readEnv .apart).canon (readCall .apart) readContext noGrants =
        .ask (readRequest .apart) false "approval-class" ∧
      Plain (readCall .apart) readContext (readRequest .apart) ∧
      (ApprovalStore.get (readEnv .apart) readApproval.requestId (readRequested .apart)).1 =
        .ok (some (readRecord .apart)) ∧
      Stores id (readAsk .apart) (readRecord .apart) ∧
      decideForSession (readEnv .apart) readApproval (readRequested .apart) =
        (.ok (.ok ⟨.approved, .task, Layout.apart.grantIds⟩), readApproved .apart) ∧
      (∀ g ∈ createdGrants (readApproved .apart).db Layout.apart.grantIds,
        g.createdAt ≤ readAgain ∧ readAgain < grantExpiry g 90) ∧
      ¬∃ id' ∈ Layout.apart.grantIds, ∃ due, Policy.decide (readEnv .apart).canon
        (readCall .apart) readContext
        ⟨sourceOf 90 (createdGrants (readApproved .apart).db Layout.apart.grantIds),
          some readAgain⟩ = .allow .grant (some id') due := by
  refine ⟨read_asked .apart, plain_read .apart, read_stored .apart, stores_read .apart,
    read_accepted .apart, ?_, ?_⟩
  · rw [read_granted]
    exact read_live .apart
  · rw [read_granted]
    have hask : Policy.decide (readEnv .apart).canon (readCall .apart) readContext
        ⟨sourceOf 90 Layout.apart.grants, some readAgain⟩ =
          .ask (readRequest .apart) false "approval-class" := by
      decide +kernel
    rintro ⟨id', -, due, hallow⟩
    rw [hask] at hallow
    cases hallow

end Plur1bus.Approvals
