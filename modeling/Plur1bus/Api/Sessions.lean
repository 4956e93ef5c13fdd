import Mathlib.Data.Int.Notation
import Mathlib.Order.Lattice
import Plur1bus.Program.Upsert
import Plur1bus.Rbac.Policy

/-!
The web sessions of the API, held in memory by the hash of their cookie value.

The map is the list of its entries in their order. A session is one object that
the map holds at most once; it is known by its number, which is given out in the
order sessions are made. Instants are milliseconds; a call that reads the clock
twice takes both readings. Listeners are told in turn and what they throw is
swallowed, so what they are told is a list of its own and changes nothing.
-/

namespace Plur1bus.Api.Sessions

open Program.Keyed

inductive PrincipalKind where
  | owner | user
  deriving DecidableEq, Repr

structure Principal where
  kind : PrincipalKind
  id : String
  role : Rbac.Role
  deriving DecidableEq, Repr

structure Device where
  deviceId : String
  userId : String
  scopes : List String
  expiresAt : ℤ
  deriving DecidableEq, Repr

/-- An entry of the map, with the number of the session it is. -/
structure Entry where
  session : ℕ
  principal : Principal
  createdAt : ℤ
  absoluteExpiresAt : ℤ
  idleExpiresAt : ℤ
  authVersion : ℤ
  device : Option Device
  mustRotate : Bool
  stepUpAt : Option ℤ
  /-- The hashes of the pending one-time tokens and when they expire, the oldest first. -/
  csrf : List (String × ℤ)
  deriving DecidableEq, Repr

structure SessionLimits where
  idleMs : ℤ
  absoluteMs : ℤ
  maxSessions : ℤ
  maxSessionsPerPrincipal : Option ℤ
  csrfTtlMs : ℤ
  maxCsrfPerSession : ℤ
  deriving DecidableEq, Repr

def DEFAULT_SESSION_LIMITS : SessionLimits where
  idleMs := 30 * 60000
  absoluteMs := 12 * 3600000
  maxSessions := 1024
  maxSessionsPerPrincipal := some 64
  csrfTtlMs := 10 * 60000
  maxCsrfPerSession := 16

def DEFAULT_PER_PRINCIPAL : ℤ := 64

/-- How many sessions one account can hold. -/
def SessionLimits.perPrincipal (limits : SessionLimits) : ℤ :=
  max 1 (min (limits.maxSessionsPerPrincipal.getD DEFAULT_PER_PRINCIPAL) limits.maxSessions)

inductive Reason where
  | principalCap | globalCap
  deriving DecidableEq, Repr

structure SessionEviction where
  session : Entry
  reason : Reason
  by_ : Principal
  deriving DecidableEq, Repr

structure CreateOptions where
  authVersion : Option ℤ := none
  stepUpAt : Option ℤ := none
  device : Option Device := none
  deriving DecidableEq, Repr

/-- Random values and their hashes: no two draws are the same, and no two values
have the same hash. -/
structure Secrets where
  draw : ℕ → String
  sha256 : String → String
  draw_injective : Function.Injective draw
  sha256_injective : Function.Injective sha256

/-- The entries of the map. -/
abbrev Rows := List (String × Entry)

structure SessionStore where
  byId : Rows := []
  /-- What the listeners were told. -/
  ended : List Entry := []
  evicted : List SessionEviction := []
  /-- Values drawn and sessions made so far. -/
  drawn : ℕ := 0
  made : ℕ := 0

/-- `Map.set`: over the entry with its key, or behind the others. -/
def set (hash : String) (e : Entry) (rows : Rows) : Rows :=
  upsert Prod.fst (fun _ new => new) (hash, e) rows

def find (hash : String) (rows : Rows) : Option Entry := (rowAt Prod.fst hash rows).map Prod.snd

/-- What `#entry` and `#sweep` ask of an entry. -/
def Entry.over (e : Entry) (now : ℤ) : Prop := e.idleExpiresAt ≤ now ∨ e.absoluteExpiresAt ≤ now

instance Entry.over.instDecidable (e : Entry) (now : ℤ) : Decidable (e.over now) :=
  inferInstanceAs (Decidable (_ ∨ _))

namespace SessionStore

/-- `#remove`. -/
def remove (s : SessionStore) (hash : String) : SessionStore × Bool :=
  match find hash s.byId with
  | none => (s, false)
  | some e => ({ s with byId := s.byId.filter (fun r => r.1 ≠ hash), ended := s.ended ++ [e] }, true)

/-- `#evict`. -/
def evict (s : SessionStore) (hash : String) (reason : Reason) (by_ : Principal) : SessionStore :=
  match find hash s.byId with
  | none => s
  | some session =>
    let s := (s.remove hash).1
    { s with evicted := s.evicted ++ [{ session, reason, by_ }] }

/-- The removal of every entry that meets a condition, in the order of the map. -/
def removeAll (s : SessionStore) (p : Entry → Prop) [DecidablePred p] : SessionStore := { s with
    byId := s.byId.filter (fun r => ¬ p r.2)
    ended := s.ended ++ (s.byId.filter (fun r => p r.2)).map Prod.snd }

/-- `#sweep`. -/
def sweep (s : SessionStore) (now : ℤ) : SessionStore := s.removeAll (fun e => e.over now)

/-- `#entry`: an entry that is over is removed. An empty value is none. -/
def entry (secrets : Secrets) (s : SessionStore) (id : Option String) (now : ℤ) :
    SessionStore × Option Entry :=
  match id with
  | none => (s, none)
  | some id =>
    if id = "" then (s, none)
    else
      match find (secrets.sha256 id) s.byId with
      | none => (s, none)
      | some e => if e.over now then ((s.remove (secrets.sha256 id)).1, none) else (s, some e)

end SessionStore

/-! ### Making room -/

/-- One pass over the map for one account: how many sessions it has, and its oldest. -/
def countOldest (principalId : String) (rows : Rows) : ℕ × Option (String × ℤ) := rows.foldl (fun acc r =>
    if r.2.principal.id = principalId then
      (acc.1 + 1, match acc.2 with
        | none => some (r.1, r.2.createdAt)
        | some oldest => if r.2.createdAt < oldest.2 then some (r.1, r.2.createdAt) else some oldest)
    else acc) (0, none)

/-- What an account holds: how many sessions, and its oldest. -/
structure Held where
  principalId : String
  n : ℕ
  hash : String
  createdAt : ℤ
  deriving DecidableEq, Repr

def heldBy (rows : Rows) : List Held := rows.foldl (fun held r =>
    upsert Held.principalId
      (fun cur new => if new.createdAt < cur.createdAt then { new with n := cur.n + 1 }
        else { cur with n := cur.n + 1 })
      ⟨r.2.principal.id, 1, r.1, r.2.createdAt⟩ held) []

/-- The account that holds the most, and of two such the one with the older session. -/
def pick (held : List Held) : Option Held := held.foldl (fun pick c =>
    match pick with
    | none => some c
    | some p => if c.n > p.n ∨ (c.n = p.n ∧ c.createdAt < p.createdAt) then some c else some p) none

namespace SessionStore

/-- The first loop of `#makeRoom`; each round removes an entry, so that as many rounds
as there are entries are enough. -/
def roomForOwn (limits : SessionLimits) (principal : Principal) : ℕ → SessionStore → SessionStore
  | 0, s => s
  | rounds + 1, s =>
    match countOldest principal.id s.byId with
    | (_, none) => s
    | (count, some oldest) =>
      if count < limits.perPrincipal then s
      else roomForOwn limits principal rounds (s.evict oldest.1 .principalCap principal)

/-- Its second loop. -/
def roomForAll (limits : SessionLimits) (principal : Principal) : ℕ → SessionStore → SessionStore
  | 0, s => s
  | rounds + 1, s =>
    if s.byId.length ≥ limits.maxSessions then
      match pick (heldBy s.byId) with
      | none => s
      | some held => roomForAll limits principal rounds (s.evict held.hash .globalCap principal)
    else s

/-- `#makeRoom`. -/
def makeRoom (limits : SessionLimits) (s : SessionStore) (principal : Principal) : SessionStore :=
  let s := roomForOwn limits principal (s.byId.length + 1) s
  roomForAll limits principal (s.byId.length + 1) s

/-! ### The calls -/

variable (secrets : Secrets) (limits : SessionLimits)

/-- `newSecret`. -/
def newSecret (s : SessionStore) : SessionStore × String :=
  ({ s with drawn := s.drawn + 1 }, secrets.draw s.drawn)

def create (s : SessionStore) (principal : Principal) (o : CreateOptions) (now : ℤ) :
    SessionStore × (String × Entry) :=
  let s := makeRoom limits (s.sweep now) principal
  let (s, id) := newSecret secrets s
  let e : Entry := {
    session := s.made, principal, createdAt := now
    absoluteExpiresAt := now + limits.absoluteMs, idleExpiresAt := now + limits.idleMs
    authVersion := o.authVersion.getD 0, device := o.device, mustRotate := false
    stepUpAt := o.stepUpAt, csrf := [] }
  ({ s with byId := set (secrets.sha256 id) e s.byId, made := s.made + 1 }, (id, e))

def peek (s : SessionStore) (id : Option String) (now : ℤ) : SessionStore × Option Entry :=
  s.entry secrets id now

/-- `get`: the clock is read once for the entry and once more to put its idle expiry off. -/
def get (s : SessionStore) (id : Option String) (now now' : ℤ) : SessionStore × Option Entry :=
  match id, s.entry secrets id now with
  | some id, (s, some e) =>
    let e := { e with idleExpiresAt := min (now' + limits.idleMs) e.absoluteExpiresAt }
    ({ s with byId := set (secrets.sha256 id) e s.byId }, some e)
  | _, (s, _) => (s, none)

def destroy (s : SessionStore) (id : Option String) : SessionStore × Bool :=
  match id with
  | none => (s, false)
  | some id => s.remove (secrets.sha256 id)

def destroyAllFor (s : SessionStore) (principalId : String) : SessionStore × ℕ :=
  (s.removeAll (fun e => e.principal.id = principalId),
    (s.byId.filter fun r => r.2.principal.id = principalId).length)

def markRotate (s : SessionStore) (principalId : String) : SessionStore × ℕ :=
  ({ s with byId := s.byId.map fun r =>
      if r.2.principal.id = principalId then (r.1, { r.2 with mustRotate := true }) else r },
    (s.byId.filter fun r => r.2.principal.id = principalId).length)

def rotate (s : SessionStore) (id : Option String) (authVersion : Option ℤ) (now : ℤ) :
    SessionStore × Option (String × Entry) :=
  match id, s.entry secrets id now with
  | some id, (s, some e) =>
    let s := (s.remove (secrets.sha256 id)).1
    let (s, next) := newSecret secrets s
    let e := { e with csrf := [], mustRotate := false, authVersion := authVersion.getD e.authVersion }
    ({ s with byId := set (secrets.sha256 next) e s.byId }, some (next, e))
  | _, (s, _) => (s, none)

def countFor (s : SessionStore) (principalId : String) (now : ℤ) : SessionStore × ℕ :=
  let s := s.sweep now
  (s, (s.byId.filter fun r => r.2.principal.id = principalId).length)

def isLive (s : SessionStore) (session : ℕ) (now : ℤ) : SessionStore × Bool :=
  let s := s.sweep now
  (s, s.byId.any fun r => r.2.session = session)

/-- `while (csrf.size >= maxCsrfPerSession)`: the oldest goes. -/
def dropOldestCsrf (max : ℤ) : List (String × ℤ) → List (String × ℤ)
  | [] => []
  | t :: csrf => if ((t :: csrf).length : ℤ) ≥ max then dropOldestCsrf max csrf else t :: csrf

def issueCsrf (s : SessionStore) (id : String) (now now' : ℤ) : SessionStore × Option (String × ℤ) :=
  match s.entry secrets (some id) now with
  | (s, none) => (s, none)
  | (s, some e) =>
    let csrf := dropOldestCsrf limits.maxCsrfPerSession (e.csrf.filter fun t => ¬ t.2 ≤ now')
    let (s, token) := s.newSecret secrets
    let expiresAt := now' + limits.csrfTtlMs
    let csrf := upsert Prod.fst (fun _ new => new) (secrets.sha256 token, expiresAt) csrf
    ({ s with byId := set (secrets.sha256 id) { e with csrf := csrf } s.byId }, some (token, expiresAt))

def consumeCsrf (s : SessionStore) (id : String) (token : Option String) (now now' : ℤ) :
    SessionStore × Bool :=
  match s.entry secrets (some id) now with
  | (s, none) => (s, false)
  | (s, some e) =>
    match token with
    | none => (s, false)
    | some token =>
      if token = "" then (s, false)
      else
        match rowAt Prod.fst (secrets.sha256 token) e.csrf with
        | none => (s, false)
        | some (h, exp) =>
          let e := { e with csrf := e.csrf.filter fun t => t.1 ≠ h }
          ({ s with byId := set (secrets.sha256 id) e s.byId }, exp > now')

end SessionStore

/-! ### Sequences of calls -/

inductive Op where
  | create (principal : Principal) (o : CreateOptions) (now : ℤ)
  | get (id : Option String) (now now' : ℤ)
  | peek (id : Option String) (now : ℤ)
  | rotate (id : Option String) (authVersion : Option ℤ) (now : ℤ)
  | markRotate (principalId : String)
  | destroy (id : Option String)
  | destroyAllFor (principalId : String)
  | countFor (principalId : String) (now : ℤ)
  | isLive (session : ℕ) (now : ℤ)
  | issueCsrf (id : String) (now now' : ℤ)
  | consumeCsrf (id : String) (token : Option String) (now now' : ℤ)

section Calls

variable (secrets : Secrets) (limits : SessionLimits)

def SessionStore.step (s : SessionStore) : Op → SessionStore
  | .create principal o now => (s.create secrets limits principal o now).1
  | .get id now now' => (s.get secrets limits id now now').1
  | .peek id now => (s.peek secrets id now).1
  | .rotate id authVersion now => (s.rotate secrets id authVersion now).1
  | .markRotate principalId => (s.markRotate principalId).1
  | .destroy id => (s.destroy secrets id).1
  | .destroyAllFor principalId => (s.destroyAllFor principalId).1
  | .countFor principalId now => (s.countFor principalId now).1
  | .isLive session now => (s.isLive session now).1
  | .issueCsrf id now now' => (s.issueCsrf secrets limits id now now').1
  | .consumeCsrf id token now now' => (s.consumeCsrf secrets id token now now').1

end Calls

end Plur1bus.Api.Sessions
