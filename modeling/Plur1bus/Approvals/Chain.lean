import Plur1bus.Approvals.Json
import Mathlib.Data.Int.Notation
import Mathlib.Data.List.Basic

/-!
The append-only approval chain: entries, the keyed head, and the verifier
`build`, which reads the three chain tables and says how far they can be
trusted. HMAC-SHA256 under the installation key is the parameter `hmac`; it is
applied to the tuples the code serialises, never to raw text. Ed25519 is the
parameter pair `signer` and `verifySignature`.

Reading order: the loop over the rows (`checkLinks`), the head (`checkHead`),
the binding and replay rules (`semantic`), the signatures, and `build` over
all of them. The first failure decides.
-/

namespace Plur1bus.Approvals

def GENESIS_MAC : String := String.ofList (List.replicate 64 '0')

/-! ### Entries -/

/-- The kinds the code writes, and any other text a row may hold. -/
inductive Kind
  | requested | decided | cancelled | used
  | grantCreated | grantRevoked | grantEnded | grantUsed | grantConsumed
  | other (name : String)
  deriving DecidableEq, Repr

/-- `kind.startsWith("approval.")`. -/
def Kind.isApproval : Kind → Bool
  | .requested | .decided | .cancelled | .used => true
  | .other name => name.startsWith "approval."
  | _ => false

/-- `kind LIKE 'approval.%'`, which ignores ASCII case. -/
def Kind.likeApproval : Kind → Bool
  | .requested | .decided | .cancelled | .used => true
  | .other name => name.toLower.startsWith "approval."
  | _ => false

structure ChainEntry where
  seq : ℤ
  ts : ℤ
  kind : Kind
  refId : String
  nonce : Option String
  payload : JsonText
  prevMac : String
  mac : String
  deriving DecidableEq, Repr

structure ChainHead where
  seq : ℤ
  mac : String
  tag : String
  deriving DecidableEq, Repr

structure Signature where
  alg : String
  publicKey : String
  signature : String
  deriving DecidableEq, Repr

structure SignatureRow where
  seq : ℤ
  sig : Signature
  deriving DecidableEq, Repr

/-- The tables `approval_chain` (in the order of `seq`), `chain_head` and
`approval_signatures`. -/
structure ChainTables where
  rows : List ChainEntry := []
  head : Option ChainHead := none
  signatures : List SignatureRow := []
  deriving DecidableEq, Repr

/-! ### Keys -/

/-- What is serialised under the MAC: an entry after its predecessor's MAC, or
the head. The two never serialise alike. -/
inductive MacInput
  | entry (prev : String) (seq ts : ℤ) (kind : Kind) (refId : String) (nonce : Option String)
      (payload : JsonText)
  | head (seq : ℤ) (mac : String)
  deriving DecidableEq, Repr

structure Signer where
  publicKey : String
  sign : String → Signature

structure ChainKey where
  hmac : MacInput → String
  signer : Option Signer := none
  verifySignature : (mac publicKey signature : String) → Bool := fun _ _ _ => false

def ChainKey.mac (key : ChainKey) (prev : String) (e : ChainEntry) : String :=
  key.hmac (.entry prev e.seq e.ts e.kind e.refId e.nonce e.payload)

def ChainKey.tag (key : ChainKey) (seq : ℤ) (mac : String) : String := key.hmac (.head seq mac)

/-! ### Failures -/

inductive VerifyFailure
  | seqGap | prevMismatch | macMismatch | truncated | headMismatch
  | malformed | nonceReuse | bindingMismatch | duplicate | signatureMismatch
  deriving DecidableEq, Repr

inductive SignatureReport | unsignedLegacy | signedOk | signedBad
  deriving DecidableEq, Repr

structure SignatureSummary where
  unsignedLegacy : ℕ := 0
  signedOk : ℕ := 0
  signedBad : ℕ := 0
  report : SignatureReport := .unsignedLegacy
  deriving DecidableEq, Repr

def EMPTY_SIGNATURES : SignatureSummary := {}

structure Broken where
  entries : ℕ
  brokenAt : ℤ
  reason : VerifyFailure
  detail : String
  signatures : SignatureSummary := EMPTY_SIGNATURES
  deriving DecidableEq, Repr

inductive VerifyResult
  | ok (entries : ℕ) (head : Option (ℕ × String)) (signatures : SignatureSummary)
  | broken (b : Broken)
  deriving DecidableEq, Repr

def VerifyResult.isOk : VerifyResult → Bool
  | .ok .. => true
  | .broken _ => false

structure ChainSnapshot where
  result : VerifyResult
  entries : List ChainEntry
  /-- Entries with `seq` below this are proven; `none` when the whole chain verifies. -/
  trustedBelow : Option ℤ
  deriving DecidableEq, Repr

def ChainSnapshot.byRef (snap : ChainSnapshot) (id : String) : List ChainEntry :=
  snap.entries.filter (fun e => e.refId = id)

def ChainSnapshot.trusts (snap : ChainSnapshot) (seq : ℤ) : Bool :=
  snap.trustedBelow.all (fun b => decide (seq < b))

/-- What stops a check: a failure it reports, or an exception it raises. -/
inductive Trouble
  | throws
  | fails (brokenAt : ℤ) (reason : VerifyFailure) (detail : String)
  deriving DecidableEq, Repr

/-! ### Links and head -/

/-- `String.prototype.length`: code points beyond the basic plane count twice. -/
def utf16Length (s : String) : ℕ := (s.toList.map (fun c => if c.toNat < 0x10000 then 1 else 2)).sum

/-- Lengths are compared in UTF-16 units, contents as UTF-8 bytes, and
`timingSafeEqual` throws (`none`) on byte strings of different lengths. -/
def eq (a b : String) : Option Bool :=
  if a = b then some true
  else if utf16Length a = utf16Length b ∧ a.utf8ByteSize ≠ b.utf8ByteSize then none
  else some false

def checkLinks (key : ChainKey) : ℤ → String → List ChainEntry → Except Trouble Unit
  | _, _, [] => .ok ()
  | expected, prev, e :: rest =>
    if e.seq ≠ expected then
      .error (.fails expected .seqGap
        ("expected entry " ++ toString expected ++ ", found " ++ toString e.seq))
    else
      match eq e.prevMac prev with
      | none => .error .throws
      | some false =>
        .error (.fails e.seq .prevMismatch "the entry does not chain to its predecessor")
      | some true =>
        match eq e.mac (key.mac prev e) with
        | none => .error .throws
        | some false => .error (.fails e.seq .macMismatch "the entry's MAC does not verify")
        | some true => checkLinks key (expected + 1) e.mac rest

def headMissing (n : ℕ) : Trouble :=
  .fails n .headMismatch "the chain head is missing or its tag does not verify"

/-- `last` is the last row of a chain of `n` rows. -/
def checkPinned (key : ChainKey) (n : ℕ) (last : ChainEntry) (head : ChainHead) : Except Trouble Unit :=
  match eq head.tag (key.tag head.seq head.mac) with
  | none => .error .throws
  | some false => .error (headMissing n)
  | some true =>
    if head.seq > n then
      .error (.fails (n + 1) .truncated
        ("the head pins entry " ++ toString head.seq ++ ", the chain ends at " ++ toString n))
    else if head.seq < n then
      .error (.fails (head.seq + 1) .headMismatch "entries exist beyond the pinned head")
    else
      match eq head.mac last.mac with
      | none => .error .throws
      | some false =>
        .error (.fails n .headMismatch "the pinned head does not match the last entry")
      | some true => .ok ()

def checkHead (key : ChainKey) (rows : List ChainEntry) (head : Option ChainHead) : Except Trouble Unit :=
  match rows.getLast?, head with
  | none, none => .ok ()
  | none, some _ => .error (.fails 1 .truncated "the head points at entries that are gone")
  | some _, none => .error (headMissing rows.length)
  | some last, some h => checkPinned key rows.length last h

/-! ### Binding and replay rules -/

/-- The binding every approval is tied to, as one canonical tuple. -/
def bindingTuple (b : Option Json) : Option (List String) := b.bind fun o =>
    if o.isObject then
      let s := o.get "subject"
      [o.get "actionHash", o.get "principal", s.bind (·.get "kind"), s.bind (·.get "id"),
        o.get "turnId", o.get "taskId", o.get "sessionId"].mapM
          (fun part => part.bind Json.asStr?)
    else none

structure Requested where
  tuple : List String
  nonce : Option String
  deriving DecidableEq, Repr

/-- What the rules remember of the entries read so far. -/
structure Replay where
  requested : List (String × Requested) := []
  decided : List (String × String) := []
  used : List String := []
  cancelled : List String := []
  nonces : List String := []
  deriving DecidableEq, Repr

def approve : Json := .str "approve"

def deny : Json := .str "deny"

/-- The `approval.requested` rule. -/
def replayRequested (st : Replay) (e : ChainEntry) (tuple : Option (List String)) : Except Trouble Replay :=
  match tuple with
  | none => .error (.fails e.seq .malformed "request entry")
  | some t =>
    if (st.requested.lookup e.refId).isSome then
      .error (.fails e.seq .duplicate "request entry")
    else .ok { st with requested := (e.refId, ⟨t, e.nonce⟩) :: st.requested }

/-- The entry's request, when the entry repeats its tuple. -/
def boundRequest (st : Replay) (e : ChainEntry) (tuple : Option (List String)) : Option Requested :=
  match st.requested.lookup e.refId with
  | none => none
  | some r => if tuple = some r.tuple then some r else none

def replayDecided (st : Replay) (e : ChainEntry) (tuple : Option (List String))
    (decision : Option Json) : Except Trouble Replay :=
  match e.nonce with
  | none => .error (.fails e.seq .nonceReuse "a nonce is single-use")
  | some nonce =>
    if nonce ∈ st.nonces then .error (.fails e.seq .nonceReuse "a nonce is single-use")
    else if ((boundRequest st e tuple).filter (fun r => r.nonce = some nonce)).isNone then
      .error (.fails e.seq .bindingMismatch "decision does not match its request")
    else if (st.decided.lookup e.refId).isSome then
      .error (.fails e.seq .duplicate "request decided twice")
    else if e.refId ∈ st.cancelled then
      .error (.fails e.seq .bindingMismatch "a cancelled request was decided")
    else if decision = some approve then
      .ok { st with nonces := nonce :: st.nonces, decided := (e.refId, "approve") :: st.decided }
    else if decision = some deny then
      .ok { st with nonces := nonce :: st.nonces, decided := (e.refId, "deny") :: st.decided }
    else .error (.fails e.seq .malformed "decision")

def replayCancelled (st : Replay) (e : ChainEntry) (tuple : Option (List String)) : Except Trouble Replay :=
  if (boundRequest st e tuple).isNone ∨ (st.decided.lookup e.refId).isSome then
    .error (.fails e.seq .bindingMismatch "cancel does not match an undecided request")
  else .ok { st with cancelled := e.refId :: st.cancelled }

def replayUsed (st : Replay) (e : ChainEntry) (tuple : Option (List String)) : Except Trouble Replay :=
  if (boundRequest st e tuple).isNone ∨ st.decided.lookup e.refId ≠ some "approve" then
    .error (.fails e.seq .bindingMismatch "use does not match an approved request")
  else if e.refId ∈ st.used then
    .error (.fails e.seq .duplicate "approval used twice")
  else .ok { st with used := e.refId :: st.used }

/-- One turn of the loop of `#semantic`. -/
def replayEntry (st : Replay) (e : ChainEntry) : Except Trouble Replay := if e.kind.isApproval then
    match e.payload.parsed with
    | none => .error (.fails e.seq .malformed "payload is not JSON")
    | some p =>
      if p.isObject then
        let tuple := bindingTuple (p.get "bound")
        match e.kind with
        | .requested => replayRequested st e tuple
        | .decided => replayDecided st e tuple (p.get "decision")
        | .cancelled => replayCancelled st e tuple
        | .used => replayUsed st e tuple
        | _ => .ok st
      else .error (.fails e.seq .malformed "payload is not an object")
  else .ok st

/-- Binding and replay rules over MAC-valid entries. -/
def semantic (rows : List ChainEntry) : Except Trouble Replay := rows.foldlM replayEntry {}

/-! ### Signatures -/

inductive SignatureState | unsigned | good | bad
  deriving DecidableEq, Repr

def signatureOf (key : ChainKey) (stored : List SignatureRow) (e : ChainEntry) : SignatureState :=
  if e.kind = .decided then
    match stored.find? (fun r => r.seq = e.seq) with
    | none => .unsigned
    | some row =>
      let cryptoOk := key.verifySignature e.mac row.sig.publicKey row.sig.signature
      let keyOk := key.signer.all (fun s => row.sig.publicKey = s.publicKey)
      if cryptoOk && keyOk then .good else .bad
  else .unsigned

def signatures (key : ChainKey) (t : ChainTables) : SignatureSummary :=
  let states := t.rows.map (signatureOf key t.signatures)
  let signedOk := states.count .good
  let signedBad := states.count .bad
  { unsignedLegacy := states.count .unsigned
    signedOk := signedOk
    signedBad := signedBad
    report := if signedBad > 0 then .signedBad else if signedOk > 0 then .signedOk
      else .unsignedLegacy }

def firstBadSignatureSeq (key : ChainKey) (t : ChainTables) : Option ℤ :=
  (t.rows.find? (fun e => signatureOf key t.signatures e = .bad)).map (·.seq)

/-! ### The verifier -/

/-- The MAC and head part of the verification. -/
def checkMacs (key : ChainKey) (t : ChainTables) : Except Trouble Unit :=
  match checkLinks key 1 GENESIS_MAC t.rows with
  | .error trouble => .error trouble
  | .ok () => checkHead key t.rows t.head

def failed (t : ChainTables) (brokenAt : ℤ) (reason : VerifyFailure) (detail : String)
    (sigs : SignatureSummary := EMPTY_SIGNATURES) : ChainSnapshot where
  result := .broken ⟨t.rows.length, brokenAt, reason, detail, sigs⟩
  entries := t.rows
  trustedBelow := some brokenAt

def verified (t : ChainTables) (sigs : SignatureSummary) : ChainSnapshot where
  result := .ok t.rows.length (t.rows.getLast?.map (fun e => (t.rows.length, e.mac))) sigs
  entries := t.rows
  trustedBelow := none

/-- A failure is part of the answer; an exception is not. -/
def report (t : ChainTables) : Trouble → Option ChainSnapshot
  | .throws => none
  | .fails brokenAt reason detail => some (failed t brokenAt reason detail)

/-- `#build`: `none` when a comparison throws. -/
def build (key : ChainKey) (t : ChainTables) : Option ChainSnapshot :=
  match checkMacs key t with
  | .error trouble => report t trouble
  | .ok () =>
    match semantic t.rows with
    | .error trouble => report t trouble
    | .ok _ =>
      let sigs := signatures key t
      if sigs.signedBad > 0 then
        some (failed t ((firstBadSignatureSeq key t).getD t.rows.length) .signatureMismatch
          "a signed decision does not verify" sigs)
      else some (verified t sigs)

end Plur1bus.Approvals
