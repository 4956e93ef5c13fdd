import Plur1bus.Language
import Plur1bus.Program.Groups
import Mathlib.Algebra.Group.Prod

/-!
The budget of calls to other agents. A call reserves its bound of tokens
before it is made, is spent with what it took, or is cancelled if it never got
out. Rows of calls are kept for thirty days; `compact` then adds them to a
total for their turn and peer, and `reserve` counts rows and totals together.

A clock may say anything, so each step carries what it reads. Identifiers are
drawn in turn from `uuid`; a draw is not taken back when a transaction is.
-/

namespace Plur1bus.Budget.Peer

open Program.Keyed

/-! ### What a caller gives -/

structure PeerBudgetIdentity where
  person : String
  agent : String
  session : String
  turn : String
  peer : String
  deriving DecidableEq, Repr

structure PeerBudgetLimits where
  peerCalls : Number
  turnCalls : Number
  peerTokens : Number
  turnTokens : Number
  deriving DecidableEq, Repr

inductive PeerBudgetDecision
  | allow (id : String)
  | refuse
  deriving DecidableEq, Repr

inductive PeerBudgetError
  | invalid
  /-- The database has a row with this identifier. -/
  | constraint
  deriving DecidableEq, Repr

def PeerBudgetError.message : PeerBudgetError → String
  | .invalid => "invalid peer budget input"
  | .constraint => "UNIQUE constraint failed: a2a_peer_call.id"

def count (n : Number) : Option ℕ := n.safeFrom 0

/-- Limits that are all counts. -/
structure Ceilings where
  peerCalls : ℕ
  turnCalls : ℕ
  peerTokens : ℕ
  turnTokens : ℕ
  deriving DecidableEq, Repr

def PeerBudgetLimits.counts (l : PeerBudgetLimits) : Option Ceilings := do
  return ⟨← count l.peerCalls, ← count l.turnCalls, ← count l.peerTokens, ← count l.turnTokens⟩

def PeerBudgetIdentity.valid (who : PeerBudgetIdentity) : Bool :=
  [who.person, who.agent, who.session, who.turn, who.peer].all fun v => v ≠ "" && unitLength v ≤ 512

/-! ### The tables -/

def CALL_RETENTION_MS : ℤ := 30 * 24 * 60 * 60 * 1000

structure TurnKey where
  person : String
  session : String
  turn : String
  deriving DecidableEq, Repr

structure PeerKey extends TurnKey where
  peer : String
  deriving DecidableEq, Repr

def PeerBudgetIdentity.key (who : PeerBudgetIdentity) : PeerKey :=
  ⟨⟨who.person, who.session, who.turn⟩, who.peer⟩

inductive CallState
  | reserved | spent | cancelled
  deriving DecidableEq, Repr

/-- `a2a_peer_call` -/
structure PeerCall where
  id : String
  person : String
  agent : String
  session : String
  turn : String
  peer : String
  tokens : ℕ
  capacity : ℕ
  state : CallState
  ts : ℤ
  deriving DecidableEq, Repr

def PeerCall.key (c : PeerCall) : PeerKey := ⟨⟨c.person, c.session, c.turn⟩, c.peer⟩

def PeerCall.live (c : PeerCall) : Bool := c.state ≠ .cancelled

/-- What `COUNT(*)` and `SUM(tokens)` add up. -/
def PeerCall.weight (c : PeerCall) : ℕ × ℕ := (1, c.tokens)

/-- `a2a_peer_turn_total` -/
structure PeerTurnTotal where
  key : PeerKey
  calls : ℕ
  tokens : ℕ
  deriving DecidableEq, Repr

def PeerTurnTotal.weight (t : PeerTurnTotal) : ℕ × ℕ := (t.calls, t.tokens)

/-- `ON CONFLICT DO UPDATE` -/
def PeerTurnTotal.add (t excluded : PeerTurnTotal) : PeerTurnTotal :=
  { t with calls := t.calls + excluded.calls, tokens := t.tokens + excluded.tokens }

def PeerTurnTotal.ofGroup (g : PeerKey × ℕ × ℕ) : PeerTurnTotal := ⟨g.1, g.2.1, g.2.2⟩

structure PeerDb where
  calls : List PeerCall
  totals : List PeerTurnTotal
  deriving DecidableEq, Repr

/-- The calls of some peers that are not cancelled, and the tokens they hold
or have spent. -/
def held (q : PeerKey → Bool) (calls : List PeerCall) : ℕ × ℕ :=
  sumOf (fun c => q c.key && c.live) PeerCall.weight calls

/-- What the tables say of the same. -/
def PeerDb.used (db : PeerDb) (q : PeerKey → Bool) : ℕ × ℕ :=
  held q db.calls + sumOf (fun t => q t.key) PeerTurnTotal.weight db.totals

structure PeerCallBudget where
  db : PeerDb
  drawn : ℕ
  deriving DecidableEq, Repr

/-! ### The operations -/

def compact (now : ℤ) (db : PeerDb) : PeerDb :=
  let cutoff := now - CALL_RETENTION_MS
  let moved := groupSums PeerCall.key PeerCall.weight (db.calls.filter fun c => decide (c.ts < cutoff) && c.live)
  { totals := (moved.map PeerTurnTotal.ofGroup).foldl
      (fun totals t => upsert PeerTurnTotal.key PeerTurnTotal.add t totals) db.totals
    calls := db.calls.filter fun c => !decide (c.ts < cutoff) }

/-- A transaction that throws leaves the tables as they were. -/
def transaction {β : Type} (b : PeerCallBudget)
    (fn : PeerCallBudget → Except PeerBudgetError β × PeerCallBudget) :
    Except PeerBudgetError β × PeerCallBudget :=
  match fn b with
  | (.ok r, b') => (.ok r, b')
  | (.error e, b') => (.error e, { b' with db := b.db })

/-- The sums of a turn by peer, over rows and totals. -/
def turnRows (turn : TurnKey) (db : PeerDb) : List (String × ℕ × ℕ) := groupSums Prod.fst Prod.snd
    (groupSums PeerCall.peer PeerCall.weight
        (db.calls.filter fun c => decide (c.key.toTurnKey = turn) && c.live) ++
      (db.totals.filter fun t => t.key.toTurnKey = turn).map fun t => (t.key.peer, t.calls, t.tokens))

/-- Whether one of the four limits stands in the way. -/
def full (limits : Ceilings) (tokens : ℕ) (who : PeerBudgetIdentity) (rows : List (String × ℕ × ℕ)) : Bool :=
  let peer := rowAt Prod.fst who.peer rows
  decide (limits.peerCalls ≤ (peer.map (·.2.1)).getD 0) ||
    decide (limits.turnCalls ≤ (rows.map (·.2.1)).sum) ||
    decide (limits.peerTokens < (peer.map (·.2.2)).getD 0 + tokens) ||
    decide (limits.turnTokens < (rows.map (·.2.2)).sum + tokens)

section Draws

variable (uuid : ℕ → String)

/-- What `reserve` does in its transaction; the clock says `first` to
`compact` and `second` when the row is written. -/
def admitCall (limits : Ceilings) (tokens : ℕ) (who : PeerBudgetIdentity) (first second : ℤ)
    (b : PeerCallBudget) : Except PeerBudgetError PeerBudgetDecision × PeerCallBudget :=
  let db := compact first b.db
  if full limits tokens who (turnRows who.key.toTurnKey db) then (.ok .refuse, { b with db })
  else
    let id := uuid b.drawn
    if (rowAt PeerCall.id id db.calls).isSome then (.error .constraint, { db, drawn := b.drawn + 1 })
    else
      let row : PeerCall :=
        { id, person := who.person, agent := who.agent, session := who.session, turn := who.turn,
          peer := who.peer, tokens, capacity := tokens, state := .reserved, ts := second }
      (.ok (.allow id), { db := { db with calls := db.calls ++ [row] }, drawn := b.drawn + 1 })

def reserve (limits : PeerBudgetLimits) (who : PeerBudgetIdentity) (tokens : Number) (first second : ℤ)
    (b : PeerCallBudget) : Except PeerBudgetError PeerBudgetDecision × PeerCallBudget :=
  match count tokens, limits.counts with
  | some tokens, some limits =>
      if who.valid then transaction b (admitCall uuid limits tokens who first second)
      else (.error .invalid, b)
  | _, _ => (.error .invalid, b)

end Draws

/-- The rows after `UPDATE … WHERE id=? AND state='reserved'`. -/
def editReserved (id : String) (f : PeerCall → PeerCall) (calls : List PeerCall) : List PeerCall :=
  calls.map fun c => if c.id = id ∧ c.state = .reserved then f c else c

def PeerCall.spend (tokens : ℕ) (c : PeerCall) : PeerCall := { c with tokens, state := .spent }

def PeerCall.drop (c : PeerCall) : PeerCall := { c with state := .cancelled }

def PeerDb.edit (id : String) (f : PeerCall → PeerCall) (db : PeerDb) : PeerDb :=
  { db with calls := editReserved id f db.calls }

def finish (id : String) (tokens : Number) (b : PeerCallBudget) :
    Except PeerBudgetError Unit × PeerCallBudget :=
  match count tokens with
  | none => (.error .invalid, b)
  | some tokens => transaction b fun b =>
      match rowAt PeerCall.id id b.db.calls with
      | none => (.error .invalid, b)
      | some row =>
          if row.capacity < tokens ∨ row.state = .cancelled ∨ (row.state = .spent ∧ tokens ≠ row.tokens) then
            (.error .invalid, b)
          else (.ok (), { b with db := b.db.edit id (PeerCall.spend tokens) })

def cancel (id : String) (b : PeerCallBudget) : PeerCallBudget :=
  { b with db := b.db.edit id PeerCall.drop }

/-- The constructor on a database that is there. -/
def restart (now : ℤ) (b : PeerCallBudget) : PeerCallBudget := { b with db := compact now b.db }

/-! ### Histories -/

inductive PeerOp
  | restart (now : ℤ)
  | reserve (who : PeerBudgetIdentity) (tokens : Number) (first second : ℤ)
  | finish (id : String) (tokens : Number)
  | cancel (id : String)
  deriving DecidableEq, Repr

/-- A budget with what it was asked: every call that was allowed, as `finish`
and `cancel` left it, and the answers of `reserve`. -/
structure History where
  budget : PeerCallBudget
  calls : List PeerCall
  decisions : List (Except PeerBudgetError PeerBudgetDecision)

def History.start : History := ⟨⟨⟨[], []⟩, 0⟩, [], []⟩

/-- The row `reserve` has just written. -/
def newCall (answer : Except PeerBudgetError PeerBudgetDecision) (b : PeerCallBudget) : List PeerCall :=
  match answer with
  | .ok (.allow id) => (rowAt PeerCall.id id b.db.calls).toList
  | _ => []

/-- A call whose row is there is edited as its row is. -/
def editCalls (id : String) (f : PeerCall → PeerCall) (db : PeerDb) (calls : List PeerCall) : List PeerCall :=
  if (rowAt PeerCall.id id db.calls).isSome then editReserved id f calls else calls

def History.act (uuid : ℕ → String) (limits : PeerBudgetLimits) (h : History) : PeerOp → History
  | .restart now => { h with budget := Peer.restart now h.budget }
  | .reserve who tokens first second =>
      let (answer, b) := Peer.reserve uuid limits who tokens first second h.budget
      { budget := b, calls := h.calls ++ newCall answer b, decisions := h.decisions ++ [answer] }
  | .finish id tokens =>
      match Peer.finish id tokens h.budget, count tokens with
      | (.ok _, b), some n =>
          { h with budget := b, calls := editCalls id (PeerCall.spend n) h.budget.db h.calls }
      | (_, b), _ => { h with budget := b }
  | .cancel id =>
      { h with budget := Peer.cancel id h.budget
               calls := editCalls id PeerCall.drop h.budget.db h.calls }

def History.after (uuid : ℕ → String) (limits : PeerBudgetLimits) (ops : List PeerOp) : History :=
  ops.foldl (History.act uuid limits) .start

/-- A call was allowed and its row is gone. -/
def History.Compacted (h : History) (id : String) : Prop :=
  id ∈ h.calls.map PeerCall.id ∧ rowAt PeerCall.id id h.budget.db.calls = none

/-- `finish` and `cancel` are for calls whose row is still there. -/
def History.Timely (h : History) : PeerOp → Prop
  | .finish id _ => ¬h.Compacted id
  | .cancel id => ¬h.Compacted id
  | _ => True

end Plur1bus.Budget.Peer
