import Plur1bus.Approvals.Guards

/-!
Any number of connections on one database. A connection keeps its chain object
for itself: the generation, the cache and the `data_version` it sees. SQLite
serialises the write transactions, so a run is a sequence of calls, each on one
of the connections, and a commit that changed the tables moves the
`data_version` of every other one.
-/

namespace Plur1bus.Approvals

open Program

/-- What a connection keeps for itself. -/
structure Session where
  gen : ℕ := 0
  cache : Option Cache := none
  dataVersion : ℕ := 0
  rollbacks : List RolledBack := []

structure Shared (ι : Type) where
  db : Db := {}
  sessions : ι → Session := fun _ => {}
  reads : ℕ := 0
  draws : ℕ := 0
  lines : ℕ := 0
  statements : ℕ := 0

section Sessions

variable {ι : Type}

def Session.notified (x : Session) : Session := { x with dataVersion := x.dataVersion + 1 }

def Conn.session (s : Conn) : Session where
  gen := s.gen
  cache := s.cache
  dataVersion := s.dataVersion
  rollbacks := s.rollbacks

/-- The shared state as one of the connections sees it. -/
def Shared.conn (w : Shared ι) (i : ι) : Conn where
  db := w.db
  gen := (w.sessions i).gen
  cache := (w.sessions i).cache
  dataVersion := (w.sessions i).dataVersion
  reads := w.reads
  draws := w.draws
  lines := w.lines
  statements := w.statements
  rollbacks := (w.sessions i).rollbacks

@[simp] theorem Shared.conn_rollbacks (w : Shared ι) (i : ι) :
    (w.conn i).rollbacks = (w.sessions i).rollbacks := rfl

/-- Every connection is closed and, unless a rollback harmed it, coherent. -/
def Shared.Inv (env : Env) (w : Shared ι) : Prop :=
  ∀ i, Approvals.Inv env ⟨(w.sessions i).rollbacks, none⟩ (w.conn i)

theorem Shared.inv_init (env : Env) (db : Db) : ({ db := db } : Shared ι).Inv env :=
  fun _ => inv_opened env db

variable [DecidableEq ι]

/-- The shared state after connection `i` went from `w.conn i` to `t`. -/
def Shared.after (w : Shared ι) (i : ι) (t : Conn) : Shared ι where
  db := t.db
  sessions := fun j =>
    if j = i then t.session
    else if t.db = w.db then w.sessions j
    else (w.sessions j).notified
  reads := t.reads
  draws := t.draws
  lines := t.lines
  statements := t.statements

theorem Shared.after_rollbacks_self (w : Shared ι) (i : ι) (t : Conn) :
    ((w.after i t).sessions i).rollbacks = t.rollbacks := by
  simp [Shared.after, Conn.session]

theorem Shared.after_rollbacks_of_ne (w : Shared ι) {i j : ι} (t : Conn) (h : j ≠ i) :
    ((w.after i t).sessions j).rollbacks = (w.sessions j).rollbacks := by
  simp only [Shared.after, h, if_false]
  split <;> rfl

theorem Shared.after_conn_self (w : Shared ι) {i : ι} {t : Conn} (h : t.saved = none) :
    (w.after i t).conn i = t := by
  rcases t with ⟨db, saved, gen, cache, dataVersion, reads, draws, lines, statements, rollbacks⟩
  subst h
  simp [Shared.after, Shared.conn, Conn.session]

/-- A connection that another one's commit has notified holds no current cache. -/
theorem Inv.notified {env : Env} {base : List RolledBack} {s t : Conn}
    (h : Approvals.Inv env ⟨base, none⟩ s) (hsaved : t.saved = none) (hcache : t.cache = s.cache)
    (hgen : t.gen = s.gen) (hdv : t.dataVersion = s.dataVersion + 1)
    (hrb : t.rollbacks = s.rollbacks) : Approvals.Inv env ⟨base, none⟩ t := by
  refine ⟨⟨hsaved, nofun, hrb ▸ h.stands.since⟩, ?_, ?_⟩
  · intro c hc
    have hle := h.dated c (hcache ▸ hc)
    rw [hgen, hdv]
    exact ⟨hle.1, by omega⟩
  · intro _ snap hsnap
    exfalso
    unfold Conn.cached at hsnap
    split at hsnap
    · cases hsnap
    · rename_i c hc
      have hle := h.dated c (hcache ▸ hc)
      split at hsnap
      · omega
      · cases hsnap

theorem Shared.Inv.after {env : Env} {w : Shared ι} (h : w.Inv env) {i : ι} {t : Conn}
    {base : List RolledBack} (ht : Approvals.Inv env ⟨base, none⟩ t) : (w.after i t).Inv env := by
  intro j
  by_cases hj : j = i
  · subst hj
    rw [Shared.after_conn_self w ht.stands.saved, Shared.after_rollbacks_self]
    exact ht.rebase
  · rw [Shared.after_rollbacks_of_ne w t hj]
    by_cases hdb : t.db = w.db
    · refine (h j).sameChain ⟨rfl, ?_⟩
      simp [Shared.after, Shared.conn, hj, hdb]
    · refine (h j).notified rfl ?_ ?_ ?_ ?_ <;>
        simp [Shared.after, Shared.conn, hj, hdb, Session.notified]

end Sessions

end Plur1bus.Approvals
