import Plur1bus.Approvals.Ledger

/-!
Tamper evidence. Fix a run of appends that all commit. An attacker without the
key replaces the rows and the head by anything made of any field values, of
MACs the writer produced, and of strings that verify for nothing. The MAC and
head part of the verifier accepts exactly the rows and head the run had at
some point: what is accepted is a full rollback, and everything else is
reported.
-/

namespace Plur1bus.Approvals

open Program List

/-! ### The intact part -/

/-- Failures of the MAC and head part. -/
def VerifyFailure.isMacFailure : VerifyFailure → Bool
  | .seqGap | .prevMismatch | .macMismatch | .truncated | .headMismatch => true
  | _ => false

/-- The verifier answers, and reports no failure of the MAC and head part. -/
def macIntact : Option ChainSnapshot → Bool
  | none => false
  | some snap =>
    match snap.result with
    | .ok .. => true
    | .broken b => !b.reason.isMacFailure

variable {key : ChainKey} {n : ℤ} {prev : String} {rows : List ChainEntry} {trouble : Trouble}

theorem checkLinks_trouble (h : checkLinks key n prev rows = .error trouble) :
    ∀ brokenAt reason detail, trouble = .fails brokenAt reason detail → reason.isMacFailure = true := by
  induction rows generalizing n prev with
  | nil => cases h
  | cons e rows ih =>
      unfold checkLinks at h
      split at h
      · cases h
        rintro _ _ _ ⟨⟩
        rfl
      · split at h
        · cases h
          rintro _ _ _ ⟨⟩
        · cases h
          rintro _ _ _ ⟨⟩
          rfl
        · split at h
          · cases h
            rintro _ _ _ ⟨⟩
          · cases h
            rintro _ _ _ ⟨⟩
            rfl
          · exact ih h

theorem checkHead_trouble {head : Option ChainHead} (h : checkHead key rows head = .error trouble) :
    ∀ brokenAt reason detail, trouble = .fails brokenAt reason detail → reason.isMacFailure = true := by
  unfold checkHead at h
  split at h
  · cases h
  · cases h
    rintro _ _ _ ⟨⟩
    rfl
  · cases h
    rintro _ _ _ ⟨⟩
    rfl
  · unfold checkPinned at h
    split at h
    · cases h
      rintro _ _ _ ⟨⟩
    · cases h
      rintro _ _ _ ⟨⟩
      rfl
    · split at h
      · cases h
        rintro _ _ _ ⟨⟩
        rfl
      · split at h
        · cases h
          rintro _ _ _ ⟨⟩
          rfl
        · split at h
          · cases h
            rintro _ _ _ ⟨⟩
          · cases h
            rintro _ _ _ ⟨⟩
            rfl
          · cases h

variable {e : ChainEntry}

/-- What the binding and replay rules report is never a MAC failure, and they
do not throw. -/
theorem replayEntry_trouble {st : Replay} (h : replayEntry st e = .error trouble) :
    ∃ brokenAt reason detail, trouble = .fails brokenAt reason detail ∧ reason.isMacFailure = false := by
  unfold replayEntry replayRequested replayDecided replayCancelled replayUsed at h
  dsimp only at h
  repeat' split at h
  all_goals first
    | cases h
      exact ⟨_, _, _, rfl, rfl⟩
    | cases h

theorem semantic_trouble (h : semantic rows = .error trouble) :
    ∃ brokenAt reason detail, trouble = .fails brokenAt reason detail ∧ reason.isMacFailure = false := by
  unfold semantic at h
  generalize ({} : Replay) = st at h
  induction rows generalizing st with
  | nil => cases h
  | cons e rows ih =>
      rw [foldlM_cons] at h
      cases he : replayEntry st e with
      | error t =>
          rw [he] at h
          cases h
          exact replayEntry_trouble he
      | ok st' =>
          rw [he] at h
          exact ih st' h

/-- Intact is what `checkMacs` says. -/
theorem macIntact_build {t : ChainTables} : macIntact (build key t) = true ↔ checkMacs key t = .ok () := by
  unfold build
  cases hm : checkMacs key t with
  | error trouble =>
      cases trouble with
      | throws => simp [report, macIntact]
      | fails brokenAt reason detail =>
          have hreason : reason.isMacFailure = true := by
            unfold checkMacs at hm
            split at hm
            · cases hm
              rename_i hl
              exact checkLinks_trouble hl _ _ _ rfl
            · exact checkHead_trouble hm _ _ _ rfl
          simp [report, failed, macIntact, hreason]
  | ok u =>
      cases hs : semantic t.rows with
      | error trouble =>
          obtain ⟨brokenAt, reason, detail, rfl, hreason⟩ := semantic_trouble hs
          simp [report, failed, macIntact, hreason]
      | ok st =>
          dsimp only
          split
          · simp [failed, macIntact, VerifyFailure.isMacFailure]
          · simp [verified, macIntact]

/-! ### The honest writer -/

structure AppendCall where
  kind : Kind
  refId : String
  payload : Json
  nonce : Option String := none

/-- Appends one after another, each in a transaction of its own; `none` as soon
as one does not commit. -/
def runAppends (env : Env) : List AppendCall → Conn → Option Conn
  | [], s => some s
  | c :: calls, s =>
    match append env c.kind c.refId c.payload c.nonce s with
    | (.ok _, t) => runAppends env calls t
    | (.error _, _) => none

/-- A chain object on which `append` may be called: quiet as far as the cache
goes, over linked rows with their last one pinned. -/
structure Writing (env : Env) (s : Conn) : Prop where
  inv : Inv env ⟨[], none⟩ s
  calm : s.Calm
  linked : Linked (links env.key) 1 GENESIS_MAC s.db.chain.rows
  pinned : Pinned env.key s.db.chain.rows s.db.chain.head

theorem writing_opened (env : Env) : Writing env (Conn.opened {}) where
  inv := inv_opened env {}
  calm := by
    intro r hr
    cases hr
  linked := trivial
  pinned := rfl

variable {env : Env} {s : Conn}

/-- A broken chain takes no entry. -/
theorem wp_appendRun_unsound (hs : s.Coherent env) (hsound : ¬Sound env.key s.db.chain) (kind : Kind)
    (refId : String) (payload : Json) (nonce : Option String) :
    Prog.wp (appendRun env kind refId payload nonce) (fun _ _ => False) (fun _ _ => True) s := by
  simp only [appendRun, Prog.wp_bind]
  cases hb : build env.key s.db.chain with
  | none => exact (wp_snapshot_throws hs hb).mpr trivial
  | some snap =>
      rw [wp_snapshot hs hb]
      cases hr : snap.result with
      | broken b => simp
      | ok n head sigs => exact absurd (sound_of_build hb (by rw [hr]; rfl)) hsound

variable {t : Conn}

/-- An append that commits was made on sound tables and extends them by the
next entry. -/
theorem Writing.append (hs : Writing env s) {c : AppendCall}
    (h : append env c.kind c.refId c.payload c.nonce s = (.ok e, t)) :
    Writing env t ∧ t.db.chain.rows = s.db.chain.rows ++ [e] := by
  have hinv : Inv env ⟨[], none⟩ t := by
    have := tame_append c.kind c.refId c.payload c.nonce _ s hs.inv
    rwa [h] at this
  by_cases hsound : Sound env.key s.db.chain
  · have hquiet : Quiet env s := ⟨hs.inv.rebase, hs.calm⟩
    have hwp : Prog.wp (Approvals.append env c.kind c.refId c.payload c.nonce)
        (fun e t => (e = s.next env c.kind c.refId c.payload c.nonce ∧
          t.db = s.db.extend env.key e) ∧ t.rollbacks = s.rollbacks) (fun _ _ => True) s := by
      unfold Approvals.append
      rw [Prog.wp_finallyModify]
      have hbody : Prog.wp (appendRun env c.kind c.refId c.payload c.nonce)
          (fun e t => e = s.next env c.kind c.refId c.payload c.nonce ∧
            t.db = s.db.extend env.key e) (fun _ _ => True) s.step.opening := by
        refine Prog.wp_mono (wp_appendRun hquiet.opening hsound ..) ?_ fun _ _ _ => trivial
        rintro e t ⟨he, -, hdb, -⟩
        exact ⟨he, hdb⟩
      exact Prog.wp_mono (wp_transaction (tame_transaction (tame_appendRun _ _ _ _)) hquiet
        (fun e db => e = s.next env c.kind c.refId c.payload c.nonce ∧ db = s.db.extend env.key e)
        hbody) (fun _ _ ha => ha) fun _ _ _ => trivial
    obtain ⟨⟨rfl, hdb⟩, hrb⟩ := hwp.ok h
    have hrows : t.db.chain.rows = s.db.chain.rows ++ [s.next env c.kind c.refId c.payload c.nonce] := by
      rw [hdb]
      exact extend_rows ..
    refine ⟨⟨hinv, ?_, ?_, ?_⟩, hrows⟩
    · unfold Conn.Calm
      rw [hrb]
      exact hs.calm
    · rw [hrows]
      exact hsound.linked_snoc
    · rw [hrows, hdb]
      exact hsound.pinned_extend
  · exfalso
    have hwp : Prog.wp (Approvals.append env c.kind c.refId c.payload c.nonce) (fun _ _ => False)
        (fun _ _ => True) s := by
      unfold Approvals.append
      rw [Prog.wp_finallyModify, wp_transaction_closed hs.inv.stands.isTransaction]
      simp only [begin', Prog.wp_bind, wp_statement, Prog.wp_modify, implies_true, true_and]
      intro _
      have hco : s.step.opening.Coherent env := hs.inv.coherent hs.calm
      exact Prog.wp_mono (wp_appendRun_unsound hco hsound _ _ _ _) (fun _ _ hf => hf.elim)
        fun _ _ _ => trivial
    exact hwp.ok h

variable {calls : List AppendCall}

/-- A run of appends writes one entry per call, and its state after `k` calls is
the run of the first `k`. -/
theorem Writing.runAppends (hs : Writing env s) (h : runAppends env calls s = some t) :
    Writing env t ∧ s.db.chain.rows <+: t.db.chain.rows ∧
      t.db.chain.rows.length = s.db.chain.rows.length + calls.length := by
  induction calls generalizing s with
  | nil =>
      cases h
      exact ⟨hs, prefix_refl _, rfl⟩
  | cons c calls ih =>
      unfold Approvals.runAppends at h
      split at h
      · rename_i e u hu
        obtain ⟨hwu, hrows⟩ := hs.append hu
        obtain ⟨hwt, hpre, hlen⟩ := ih hwu h
        refine ⟨hwt, ?_, ?_⟩
        · rw [hrows] at hpre
          exact (prefix_append ..).trans hpre
        · grind
      · cases h

theorem runAppends_append (as bs : List AppendCall) (s : Conn) :
    runAppends env (as ++ bs) s = (runAppends env as s).bind (runAppends env bs) := by
  induction as generalizing s with
  | nil => rfl
  | cons a as ih =>
      simp only [cons_append, runAppends]
      split
      · exact ih _
      · rfl

/-- The state after the first `k` calls of a run. -/
theorem runAppends_take (h : runAppends env calls (Conn.opened {}) = some t) (k : ℕ) :
    ∃ u, runAppends env (calls.take k) (Conn.opened {}) = some u ∧ Writing env u ∧
      u.db.chain.rows = t.db.chain.rows.take (min k calls.length) := by
  rw [← take_append_drop k calls, runAppends_append] at h
  obtain ⟨u, hu, hut⟩ := Option.bind_eq_some_iff.mp h
  obtain ⟨hwu, -, hlen⟩ := (writing_opened env).runAppends hu
  obtain ⟨-, hpre, -⟩ := hwu.runAppends hut
  refine ⟨u, hu, hwu, ?_⟩
  have hlen' : u.db.chain.rows.length = min k calls.length := by
    rw [hlen, length_take]
    exact Nat.zero_add _
  rw [← hlen']
  exact prefix_iff_eq_take.mp hpre

/-! ### The attacker -/

/-- The inputs the verifier puts under the MAC when it reads these rows. -/
def macInputs : String → List ChainEntry → List MacInput
  | _, [] => []
  | prev, e :: rows =>
    .entry prev e.seq e.ts e.kind e.refId e.nonce e.payload :: macInputs e.mac rows

/-- Everything the writer of these rows put under the MAC: the entries, and the
head after each of them. -/
def producedInputs (rows : List ChainEntry) : List MacInput :=
  macInputs GENESIS_MAC rows ++ rows.map (fun e => .head e.seq e.mac)

/-- Distinct inputs have distinct MACs. -/
def MacIdealOn (key : ChainKey) (inputs : List MacInput) : Prop :=
  ∀ i ∈ inputs, ∀ j ∈ inputs, key.hmac i = key.hmac j → i = j

/-- Every MAC of the attacker's rows is one the writer produced, or verifies
for nothing. -/
def Unforged (key : ChainKey) (honest rows : List ChainEntry) : Prop :=
  ∀ r ∈ rows, (∃ i ∈ producedInputs honest, r.mac = key.hmac i) ∨
    ∀ i ∈ macInputs GENESIS_MAC rows, r.mac ≠ key.hmac i

theorem mem_macInputs (h : Linked (links key) n prev rows) (he : e ∈ rows) :
    .entry e.prevMac e.seq e.ts e.kind e.refId e.nonce e.payload ∈ macInputs prev rows := by
  induction rows generalizing prev n with
  | nil => cases he
  | cons r rows ih =>
      rcases mem_cons.mp he with rfl | he
      · have hprev : e.prevMac = prev := h.2.1
        rw [hprev]
        exact mem_cons_self ..
      · exact mem_cons_of_mem _ (ih h.2.2.2 he)

theorem exists_of_mem_macInputs (h : Linked (links key) n prev rows) {i : MacInput}
    (hi : i ∈ macInputs prev rows) :
    ∃ e ∈ rows, i = .entry e.prevMac e.seq e.ts e.kind e.refId e.nonce e.payload := by
  induction rows generalizing prev n with
  | nil => cases hi
  | cons r rows ih =>
      rcases mem_cons.mp hi with rfl | hi
      · have hprev : r.prevMac = prev := h.2.1
        exact ⟨r, mem_cons_self .., by rw [hprev]⟩
      · obtain ⟨e, he, hie⟩ := ih h.2.2.2 hi
        exact ⟨e, mem_cons_of_mem _ he, hie⟩

/-- A linked row of the attacker is a row of the writer: its MAC verifies, so it
was produced, and for this very input. -/
theorem mem_of_unforged {honest : List ChainEntry} (hhonest : Linked (links key) n GENESIS_MAC honest)
    (hrows : Linked (links key) n GENESIS_MAC rows)
    (hideal : MacIdealOn key (producedInputs honest ++ macInputs GENESIS_MAC rows))
    (hunforged : Unforged key honest rows) {r : ChainEntry} (hr : r ∈ rows) : r ∈ honest := by
  have hin := mem_macInputs hrows hr
  have hmac : r.mac = key.hmac (.entry r.prevMac r.seq r.ts r.kind r.refId r.nonce r.payload) :=
    hrows.digest_mem hr
  rcases hunforged r hr with ⟨i, hi, hri⟩ | hnone
  · have hsame := hideal i (mem_append_left _ hi) _ (mem_append_right _ hin)
      (hri.symm.trans hmac)
    rcases mem_append.mp hi with hentry | hhead
    · obtain ⟨e, he, hie⟩ := exists_of_mem_macInputs hhonest hentry
      have hemac : e.mac = key.hmac (.entry e.prevMac e.seq e.ts e.kind e.refId e.nonce e.payload) :=
        hhonest.digest_mem he
      rw [hie] at hsame
      have hre : r = e := by
        rcases r with ⟨seq, ts, kind, refId, nonce, payload, prevMac, mac⟩
        rcases e with ⟨seq', ts', kind', refId', nonce', payload', prevMac', mac'⟩
        simp only [MacInput.entry.injEq] at hsame
        obtain ⟨rfl, rfl, rfl, rfl, rfl, rfl, rfl⟩ := hsame
        simp only at hmac hemac
        rw [hmac, hemac]
      rw [hre]
      exact he
    · obtain ⟨e, -, hie⟩ := mem_map.mp hhead
      rw [← hie] at hsame
      cases hsame
  · exact absurd hmac (hnone _ hin)

/-- What the attacker can show without being reported is a full rollback. -/
theorem macIntact_iff_prefix (env : Env) (calls : List AppendCall) (s : Conn)
    (hrun : runAppends env calls (Conn.opened {}) = some s)
    (rows : List ChainEntry) (head : Option ChainHead) (sigs : List SignatureRow)
    (hideal : MacIdealOn env.key
      (producedInputs s.db.chain.rows ++ macInputs GENESIS_MAC rows))
    (hunforged : Unforged env.key s.db.chain.rows rows) :
    macIntact (build env.key ⟨rows, head, sigs⟩) = true ↔
      ∃ k ≤ calls.length, ∃ u, runAppends env (calls.take k) (Conn.opened {}) = some u ∧
        rows = u.db.chain.rows ∧ head = u.db.chain.head := by
  rw [macIntact_build, checkMacs_eq_ok]
  change Linked (links env.key) 1 GENESIS_MAC rows ∧ Pinned env.key rows head ↔ _
  obtain ⟨hws, -, hlen⟩ := (writing_opened env).runAppends hrun
  constructor
  · rintro ⟨hlinked, hpinned⟩
    obtain ⟨hle, htake⟩ := hws.linked.eq_take hlinked fun r hr =>
      mem_of_unforged hws.linked hlinked hideal hunforged hr
    have hle' : rows.length ≤ calls.length := by
      have hzero : (Conn.opened {}).db.chain.rows.length = 0 := rfl
      omega
    obtain ⟨u, hu, hwu, hrows⟩ := runAppends_take hrun rows.length
    rw [Nat.min_eq_left hle', ← htake] at hrows
    refine ⟨rows.length, hle', u, hu, hrows.symm, ?_⟩
    have hpinned' := hwu.pinned
    rw [hrows] at hpinned'
    exact hpinned.trans hpinned'.symm
  · rintro ⟨k, -, u, hu, rfl, rfl⟩
    obtain ⟨hwu, -, -⟩ := (writing_opened env).runAppends hu
    exact ⟨hwu.linked, hwu.pinned⟩

/-! ### Two uses of one grant

The MACs and tags of two `grant.used` entries under the key of 32 bytes
`0x01`. -/

def usesHmac : MacInput → String
  | .entry _ 1 .. => "dfb650fe98ebf8b45408abb22b918eea33f3147006de3a43978f3ad37e46d475"
  | .entry .. => "8893941758163451e869bc54036d881b817972d20b230b509b555740bb5fef13"
  | .head 1 _ => "94e9b70d39647e7b74e7206da7e6f4c6478d5b1450d987eac90605b9c0095196"
  | .head .. => "55bfeee28e0565bf4f9469ef4a82b42ae625562cc1541552a2755f446b1172b8"

def usesEnv : Env := { clipboardEnv false with key := { hmac := usesHmac } }

def usesCalls : List AppendCall :=
  List.replicate 2 ⟨.grantUsed, "grt_ccddeeff0011223344556677", .obj [], none⟩

def usesConn : Conn := (runAppends usesEnv usesCalls (Conn.opened {})).getD (Conn.opened {})

instance (key : ChainKey) (inputs : List MacInput) : Decidable (MacIdealOn key inputs) :=
  inferInstanceAs (Decidable (∀ i ∈ inputs, ∀ j ∈ inputs, key.hmac i = key.hmac j → i = j))

instance (key : ChainKey) (honest rows : List ChainEntry) : Decidable (Unforged key honest rows) :=
  inferInstanceAs (Decidable (∀ r ∈ rows, (∃ i ∈ producedInputs honest, r.mac = key.hmac i) ∨
    ∀ i ∈ macInputs GENESIS_MAC rows, r.mac ≠ key.hmac i))

/-- The tail cut off under the newer head. -/
theorem macIntact_iff_prefix_cut : runAppends usesEnv usesCalls (Conn.opened {}) = some usesConn ∧
      MacIdealOn usesEnv.key (producedInputs usesConn.db.chain.rows ++
        macInputs GENESIS_MAC (usesConn.db.chain.rows.take 1)) ∧
      Unforged usesEnv.key usesConn.db.chain.rows (usesConn.db.chain.rows.take 1) ∧
      (macIntact (build usesEnv.key
          ⟨usesConn.db.chain.rows.take 1, usesConn.db.chain.head, []⟩) = true ↔
        ∃ k ≤ usesCalls.length, ∃ u, runAppends usesEnv (usesCalls.take k) (Conn.opened {}) = some u ∧
          usesConn.db.chain.rows.take 1 = u.db.chain.rows ∧
          usesConn.db.chain.head = u.db.chain.head) := by
  have hrun : runAppends usesEnv usesCalls (Conn.opened {}) = some usesConn := by decide
  have hideal : MacIdealOn usesEnv.key (producedInputs usesConn.db.chain.rows ++
      macInputs GENESIS_MAC (usesConn.db.chain.rows.take 1)) := by decide
  have hunforged : Unforged usesEnv.key usesConn.db.chain.rows (usesConn.db.chain.rows.take 1) := by
    decide
  exact ⟨hrun, hideal, hunforged,
    macIntact_iff_prefix usesEnv usesCalls usesConn hrun _ _ _ hideal hunforged⟩

example : macIntact (build usesEnv.key
    ⟨usesConn.db.chain.rows.take 1, usesConn.db.chain.head, []⟩) = false := by decide

end Plur1bus.Approvals
