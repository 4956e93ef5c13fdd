import Plur1bus.Program.Linked
import Plur1bus.Approvals.Coherence

/-!
What the verifier accepts and what one append does to it. The links and the
head are a linked log with its last entry pinned; the writer extends exactly
such tables by exactly one entry; and a transaction either leaves the database
its body made or the one it found.
-/

namespace Plur1bus.Approvals

open Program List

/-! ### Links and head -/

def links (key : ChainKey) : LinkShape ChainEntry String where
  seq := ChainEntry.seq
  prev := ChainEntry.prevMac
  own := ChainEntry.mac
  digest := key.mac

/-- The head pins the last of the rows, and there is none without rows. -/
def Pinned (key : ChainKey) (rows : List ChainEntry) (head : Option ChainHead) : Prop :=
  head = rows.getLast?.map (fun e => ⟨rows.length, e.mac, key.tag rows.length e.mac⟩)

theorem eq_some_true {a b : String} : eq a b = some true ↔ a = b := by
  unfold eq
  split
  · simp_all
  · split <;> simp_all

variable {key : ChainKey} {rows : List ChainEntry}

theorem checkLinks_eq_ok {n : ℤ} {prev : String} :
    checkLinks key n prev rows = .ok () ↔ Linked (links key) n prev rows := by
  induction rows generalizing n prev with
  | nil => simp [checkLinks, Linked]
  | cons e rows ih =>
      by_cases hseq : e.seq = n
      · by_cases hprev : e.prevMac = prev
        · by_cases hmac : e.mac = key.mac prev e
          · simp [checkLinks, Linked, links, hseq, hprev, eq_some_true.mpr rfl, ih, ← hmac]
          · have hne : eq e.mac (key.mac prev e) ≠ some true := mt eq_some_true.mp hmac
            simp only [checkLinks, Linked, links, hseq, ne_eq, not_true_eq_false, if_false, hprev,
              eq_some_true.mpr rfl, hmac, false_and, and_false, iff_false]
            split <;> simp_all
        · have hne : eq e.prevMac prev ≠ some true := mt eq_some_true.mp hprev
          simp only [checkLinks, Linked, links, hseq, ne_eq, not_true_eq_false, if_false, hprev,
            false_and, and_false, iff_false]
          split <;> simp_all
      · simp [checkLinks, Linked, links, hseq]

theorem checkPinned_eq_ok {n : ℕ} {last : ChainEntry} {head : ChainHead} :
    checkPinned key n last head = .ok () ↔ head = ⟨n, last.mac, key.tag n last.mac⟩ := by
  unfold checkPinned
  constructor
  · intro h
    split at h
    · cases h
    · cases h
    · rename_i htag
      split at h
      · cases h
      · split at h
        · cases h
        · split at h
          · cases h
          · cases h
          · rename_i hgt hlt hmac
            have hseq : head.seq = n := by omega
            rw [eq_some_true] at htag hmac
            rcases head with ⟨seq, mac, tag⟩
            simp only at hseq hmac htag
            subst hseq hmac
            rw [htag]
  · rintro rfl
    simp [eq_some_true.mpr]

theorem checkHead_eq_ok {head : Option ChainHead} :
    checkHead key rows head = .ok () ↔ Pinned key rows head := by
  unfold checkHead Pinned
  cases rows.getLast? with
  | none => cases head <;> simp
  | some last =>
      cases head with
      | none => simp
      | some h => simp [checkPinned_eq_ok]

variable {t : ChainTables}

theorem checkMacs_eq_ok : checkMacs key t = .ok () ↔
      Linked (links key) 1 GENESIS_MAC t.rows ∧ Pinned key t.rows t.head := by
  unfold checkMacs
  cases hl : checkLinks key 1 GENESIS_MAC t.rows with
  | error trouble =>
      have hnot : ¬Linked (links key) 1 GENESIS_MAC t.rows := by
        rw [← checkLinks_eq_ok, hl]
        simp
      simp [hnot]
  | ok u =>
      have hlinked := checkLinks_eq_ok.mp hl
      simp [hlinked, checkHead_eq_ok]

/-! ### Sound tables -/

/-- The tables the verifier accepts. -/
structure Sound (key : ChainKey) (t : ChainTables) : Prop where
  linked : Linked (links key) 1 GENESIS_MAC t.rows
  pinned : Pinned key t.rows t.head
  replays : ∃ st, semantic t.rows = .ok st
  signed : ∀ e ∈ t.rows, signatureOf key t.signatures e ≠ .bad

theorem signedBad_eq_zero :
    (signatures key t).signedBad = 0 ↔ ∀ e ∈ t.rows, signatureOf key t.signatures e ≠ .bad := by
  simp only [signatures, count_eq_zero, mem_map, not_exists, not_and]

theorem Sound.build_eq (h : Sound key t) : build key t = some (verified t (signatures key t)) := by
  obtain ⟨st, hst⟩ := h.replays
  have hmacs := checkMacs_eq_ok.mpr ⟨h.linked, h.pinned⟩
  have hbad := signedBad_eq_zero.mpr h.signed
  simp [build, hmacs, hst, hbad]

variable {snap : ChainSnapshot}

/-- The verifier answers `ok` on sound tables only. -/
theorem sound_of_build (h : build key t = some snap) (hok : snap.result.isOk = true) : Sound key t := by
  have hreport : ∀ trouble, report t trouble ≠ some snap := by
    intro trouble hr
    cases trouble with
    | throws => cases hr
    | fails brokenAt reason detail =>
        cases hr
        cases hok
  unfold build at h
  split at h
  · exact absurd h (hreport _)
  · rename_i hmacs
    split at h
    · exact absurd h (hreport _)
    · rename_i st hst
      dsimp only at h
      split at h
      · cases h
        cases hok
      · rename_i hbad
        have hzero : (signatures key t).signedBad = 0 := by omega
        exact ⟨(checkMacs_eq_ok.mp hmacs).1, (checkMacs_eq_ok.mp hmacs).2, ⟨st, hst⟩,
          signedBad_eq_zero.mp hzero⟩

variable {e : ChainEntry}

theorem Sound.entry_seq_le (h : Sound key t) (he : e ∈ t.rows) : e.seq ≤ t.rows.length := by
  have := h.linked.seq_lt he
  simp only [links] at this
  omega

/-! ### Extension by one entry -/

def signed (key : ChainKey) (e : ChainEntry) (t : ChainTables) : ChainTables :=
  match key.signer with
  | none => t
  | some signer =>
    if e.kind = .decided then t.addSignature ⟨e.seq, signer.sign e.mac⟩ else t

/-- What an append that goes through does to the tables. -/
def ChainTables.extend (key : ChainKey) (t : ChainTables) (e : ChainEntry) : ChainTables :=
  signed key e { t with rows := t.rows ++ [e], head := some ⟨e.seq, e.mac, key.tag e.seq e.mac⟩ }

@[simp] theorem signed_rows (key : ChainKey) (e : ChainEntry) (t : ChainTables) :
    (signed key e t).rows = t.rows := by
  unfold signed
  split
  · rfl
  · split <;> rfl

@[simp] theorem signed_head (key : ChainKey) (e : ChainEntry) (t : ChainTables) :
    (signed key e t).head = t.head := by
  unfold signed
  split
  · rfl
  · split <;> rfl

@[simp] theorem extend_rows (key : ChainKey) (t : ChainTables) (e : ChainEntry) :
    (t.extend key e).rows = t.rows ++ [e] := by simp [ChainTables.extend]

@[simp] theorem extend_head (key : ChainKey) (t : ChainTables) (e : ChainEntry) :
    (t.extend key e).head = some ⟨e.seq, e.mac, key.tag e.seq e.mac⟩ := by
  simp [ChainTables.extend]

section NextEntry

variable {key : ChainKey} {t : ChainTables} {ts : ℤ} {kind : Kind} {refId : String}
  {payload : Json} {nonce : Option String}

theorem Sound.last_seq (h : Sound key t) : (t.rows.getLast?.map ChainEntry.seq).getD 0 = t.rows.length := by
  rcases eq_nil_or_concat t.rows with hnil | ⟨init, last, hsnoc⟩
  · simp [hnil]
  · have hlinked := h.linked
    rw [concat_eq_append] at hsnoc
    rw [hsnoc, linked_append] at hlinked
    have hseq : last.seq = 1 + init.length := hlinked.2.1
    simp [hsnoc, hseq]
    omega

theorem Sound.nextEntry_seq (h : Sound key t) :
    (nextEntry key t.rows.getLast? ts kind refId payload nonce).seq = t.rows.length + 1 := by
  change (t.rows.getLast?.map ChainEntry.seq).getD 0 + 1 = _
  rw [h.last_seq]

/-- The next entry is linked to the rows it was made for. -/
theorem Sound.linked_snoc (h : Sound key t) : Linked (links key) 1 GENESIS_MAC
      (t.rows ++ [nextEntry key t.rows.getLast? ts kind refId payload nonce]) := by
  refine h.linked.snoc ?_ rfl rfl
  calc
    (nextEntry key t.rows.getLast? ts kind refId payload nonce).seq = t.rows.length + 1 := h.nextEntry_seq
    _ = 1 + t.rows.length := by omega

theorem Sound.pinned_extend (h : Sound key t) :
    Pinned key (t.rows ++ [nextEntry key t.rows.getLast? ts kind refId payload nonce])
      (t.extend key (nextEntry key t.rows.getLast? ts kind refId payload nonce)).head := by
  simp [Pinned, h.nextEntry_seq]

theorem orderedInsert_last {rows : List ChainEntry} {e : ChainEntry}
    (h : ∀ r ∈ rows, r.seq < e.seq) :
    rows.orderedInsert (fun a b => a.seq ≤ b.seq) e = rows ++ [e] := by
  induction rows with
  | nil => rfl
  | cons r rows ih => simp_all

theorem Sound.insertRow_putHead (h : Sound key t) (head : ChainHead) :
    (t.insertRow (nextEntry key t.rows.getLast? ts kind refId payload nonce)).putHead head =
      { t with rows := t.rows ++ [nextEntry key t.rows.getLast? ts kind refId payload nonce]
               head := some head } := by
  have hlast : ∀ r ∈ t.rows, r.seq < (nextEntry key t.rows.getLast? ts kind refId payload nonce).seq := by
    intro r hr
    have := h.entry_seq_le hr
    rw [h.nextEntry_seq]
    omega
  simp only [ChainTables.insertRow, ChainTables.putHead, orderedInsert_last hlast]

end NextEntry

/-! ### The primitives, run symbolically -/

section Primitives

variable {env : Env} {s : Conn} {E : Exn → Conn → Prop}

@[simp] theorem wp_now {Q : ℤ → Conn → Prop} : Prog.wp (now env) Q E s ↔ Q (env.now s.reads) s.tick := by
  simp [now]

@[simp] theorem wp_randomBytes {Q : String → Conn → Prop} :
    Prog.wp (randomBytes env) Q E s ↔ Q (env.random s.draws) s.draw := by
  simp [randomBytes]

variable {Q : Unit → Conn → Prop}

@[simp] theorem wp_record : Prog.wp (record env) Q E s ↔ (env.auditFails s.lines = true → E .audit s.line) ∧
        (env.auditFails s.lines = false → Q () s.line) := by
  simp [record]

@[simp] theorem wp_statement : Prog.wp (statement env) Q E s ↔
      (env.fault s.statements = true → E .fault s.step) ∧
        (env.fault s.statements = false → Q () s.step) := by
  simp [statement]

theorem wp_exec {ok : Db → Bool} {f : Db → Db} : Prog.wp (exec env ok f) Q E s ↔
      (env.fault s.statements = true → E .fault s.step) ∧ (env.fault s.statements = false →
          (ok s.db = true → Q () (s.step.write f)) ∧ (ok s.db = false → E .constraint s.step)) := by
  simp [exec]

end Primitives

/-! ### What an append does -/

/-- A coherent connection with a transaction open. -/
structure InTx (env : Env) (p : Place) (s : Conn) : Prop where
  stands : s.In p
  isTx : p.tx.isSome = true
  dated : s.Dated
  coherent : s.Coherent env

variable {env : Env} {p : Place} {s : Conn}

theorem InTx.isTransaction (h : InTx env p s) :
    s.isTransaction = true := h.stands.isTransaction.trans h.isTx

/-- The entry the next append writes. -/
def Conn.next (env : Env) (s : Conn) (kind : Kind) (refId : String) (payload : Json)
    (nonce : Option String) : ChainEntry :=
  nextEntry env.key s.db.chain.rows.getLast? (env.now s.reads) kind refId payload nonce

/-- The database with one more entry on its chain. -/
def Db.extend (db : Db) (key : ChainKey) (e : ChainEntry) : Db := db.onChain (·.extend key e)

section Refreshed

variable (s : Conn) (snap : ChainSnapshot)

@[simp] theorem Conn.refreshed_db : (s.refreshed snap).db = s.db := by
  unfold Conn.refreshed
  split <;> rfl

@[simp] theorem Conn.refreshed_reads : (s.refreshed snap).reads = s.reads := by
  unfold Conn.refreshed
  split <;> rfl

end Refreshed

theorem InTx.refreshed (h : InTx env p s) (hb : build env.key s.db.chain = some snap) :
    InTx env p (s.refreshed snap) := by
  unfold Conn.refreshed
  cases hc : s.cached with
  | some snap' => exact h
  | none =>
      refine ⟨⟨h.stands.saved, h.stands.rollbacks, h.stands.since⟩, h.isTx, ?_, ?_⟩
      · rintro c ⟨⟩
        exact ⟨le_rfl, le_rfl⟩
      · intro snap' hsnap'
        simp only [Conn.cached, and_self, if_true, Option.some.injEq] at hsnap'
        rw [← hsnap']
        exact hb

theorem wp_insertSignature : Prog.wp (insertSignature env e)
      (fun _ t => t.db = s.db.onChain (signed env.key e) ∧ t.reads = s.reads)
      (fun exn _ => exn = .fault ∨ exn = .constraint) s := by
  unfold insertSignature signed
  cases env.key.signer with
  | none => simp [Db.onChain]
  | some signer =>
      by_cases hk : e.kind = .decided
      · simp only [hk, if_true]
        rw [wp_exec]
        simp
      · simp [hk, Db.onChain]

/-- In an open transaction over sound tables an append writes the next entry,
or throws a storage error. -/
theorem wp_appendRun (h : InTx env p s) (hsound : Sound env.key s.db.chain) (kind : Kind)
    (refId : String) (payload : Json) (nonce : Option String) :
    Prog.wp (appendRun env kind refId payload nonce)
      (fun e t => e = s.next env kind refId payload nonce ∧ s.db.chain.admits e = true ∧
        t.db = s.db.extend env.key e ∧ t.reads = s.reads + 1)
      (fun exn _ => exn = .fault ∨ exn = .constraint) s := by
  simp only [appendRun, Prog.wp_bind]
  rw [wp_snapshot h.coherent hsound.build_eq]
  simp only [verified, Prog.wp_bind, wp_now, Prog.wp_modify, wp_exec, Conn.refreshed_reads]
  refine ⟨fun _ => .inl trivial, fun _ => ⟨fun hadmits => ?_, fun _ => .inr trivial⟩⟩
  refine ⟨fun _ => .inl trivial, fun _ => ⟨fun _ => ?_, fun hf => ?_⟩⟩
  · refine Prog.wp_mono wp_insertSignature ?_ fun _ _ hx => hx
    rintro _ t ⟨hdb, hreads⟩
    refine ⟨rfl, by simpa using hadmits, ?_, ?_⟩
    · rw [hdb]
      simp only [Conn.write_db, Conn.step_db, Conn.bumpGen_db, Conn.tick_db, Conn.refreshed_db,
        Db.onChain, Db.extend, ChainTables.extend, hsound.insertRow_putHead]
    · simpa using hreads
  · cases hf

theorem InTx.inv (h : InTx env p s) : Inv env p s := ⟨h.stands, h.dated, fun _ => h.coherent⟩

theorem StaleInv.inTx (h : StaleInv p s) (hp : p.tx.isSome = true) : InTx env p s := by
  have hinv : Inv env p s := h.inv
  refine ⟨h.stands, hp, hinv.dated, ?_⟩
  intro snap hsnap
  rw [h.stale.cached] at hsnap
  cases hsnap

/-- An append in an open transaction. Either way the cache is dropped. -/
theorem wp_append (h : InTx env p s) (hsound : Sound env.key s.db.chain) (kind : Kind) (refId : String)
    (payload : Json) (nonce : Option String) : Prog.wp (append env kind refId payload nonce)
      (fun e t => e = s.next env kind refId payload nonce ∧ s.db.chain.admits e = true ∧
        t.db = s.db.extend env.key e ∧ t.reads = s.reads + 1 ∧ StaleInv p t)
      (fun exn t => (exn = .fault ∨ exn = .constraint) ∧ StaleInv p t) s := by
  unfold append
  rw [Prog.wp_finallyModify, wp_transaction_open h.isTransaction]
  have hkeeps := Prog.keeps_iff_wp.mp (tame_appendRun kind refId payload nonce p) s h.inv
  refine Prog.wp_mono (Prog.wp_and (wp_appendRun h hsound kind refId payload nonce) hkeeps) ?_ ?_
  · rintro e t ⟨⟨he, hadmits, hdb, hreads⟩, hinv⟩
    exact ⟨he, hadmits, hdb, hreads, hinv.bumpGen⟩
  · rintro exn t ⟨hexn, hinv⟩
    exact ⟨hexn, hinv.bumpGen⟩

/-! ### What a transaction leaves behind -/

/-- A connection between operations, with no harmful rollback behind it. -/
structure Quiet (env : Env) (s : Conn) : Prop where
  inv : Inv env ⟨s.rollbacks, none⟩ s
  calm : s.Calm

theorem Inv.rebase {base : List RolledBack} {tx : Option Tx} (h : Inv env ⟨base, tx⟩ s) :
    Inv env ⟨s.rollbacks, tx⟩ s :=
  ⟨⟨h.stands.saved, h.stands.rollbacks, suffix_refl _⟩, h.dated, h.coherent⟩

theorem Quiet.isTransaction (h : Quiet env s) : s.isTransaction = false := h.inv.stands.isTransaction

theorem Quiet.opening (h : Quiet env s) :
    InTx env ⟨s.rollbacks, some ⟨s.db, s.rollbacks⟩⟩ s.step.opening := by
  refine ⟨⟨rfl, ?_, suffix_refl _⟩, rfl, h.inv.dated, h.inv.coherent h.calm⟩
  rintro x ⟨⟩
  rfl

/-- The database after a transaction is the one its body made when it answers,
and then nothing was rolled back; it is the one it found when it throws. -/
theorem wp_transaction {α : Type} {fn : Op α} (hfn : Tame env (transaction env fn)) (hs : Quiet env s)
    (B : α → Db → Prop) (hbody : Prog.wp fn (fun a t => B a t.db) (fun _ _ => True) s.step.opening) :
    Prog.wp (transaction env fn) (fun a t => B a t.db ∧ t.rollbacks = s.rollbacks)
      (fun _ t => t.db = s.db) s := by
  rw [wp_transaction_closed hs.isTransaction]
  simp only [begin', commit, Prog.wp_bind, wp_statement, Prog.wp_modify]
  refine ⟨fun _ => rfl, fun _ => ?_⟩
  have hkeeps := Prog.keeps_iff_wp.mp (hfn _) _ hs.opening.inv
  rw [wp_transaction_open hs.opening.isTransaction] at hkeeps
  refine Prog.wp_mono (Prog.wp_and hbody hkeeps) ?_ ?_
  · rintro a t ⟨hB, hinv⟩
    have hsaved : t.step.saved = some s.db := hinv.stands.saved
    refine ⟨fun _ => ?_, fun _ => ⟨hB, hinv.stands.rollbacks _ rfl⟩⟩
    rw [rollback_eq hsaved]
  · rintro exn t ⟨-, hinv⟩
    rw [rollback_eq hinv.stands.saved]

end Plur1bus.Approvals
