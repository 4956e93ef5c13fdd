import Mathlib.Logic.Function.Basic
import Mathlib.Order.Compare
import Plur1bus.Language

/-!
What an update trusts, kept in `guard.json`: the highest version accepted on each channel,
and the keys that were announced in signed key lists. A release is accepted if it is signed
by the key built in for its channel or by an accepted key that has not expired; otherwise a
key list that comes with it may announce the key, if the list is signed by a key that is
trusted at that moment.
-/

namespace Plur1bus.Release

/-! ### Times -/

/-- White space as `str::trim` knows it. -/
def isSpace (c : Char) : Bool := (isWhite c && c.toNat ≠ 0xfeff) || c.toNat = 0x85

def trimmed (cs : List Char) : List Char := ((cs.dropWhile isSpace).reverse.dropWhile isSpace).reverse

/-- Two's complement in 64 bits. -/
def i64 (n : ℤ) : ℤ := n.bmod (2 ^ 64)

def digits (cs : List Char) : Option ℕ := if cs ≠ [] ∧ cs.all Char.isDigit then
    some (cs.foldl (fun n c => 10 * n + (c.toNat - '0'.toNat)) 0)
  else none

/-- `str::parse::<i64>`. -/
def parseI64 (cs : List Char) : Option ℤ := do
  let n : ℤ ← match cs with
    | '-' :: rest => (digits rest).map fun n => -(n : ℤ)
    | '+' :: rest => (digits rest).map Int.ofNat
    | _ => (digits cs).map Int.ofNat
  if -(2 ^ 63) ≤ n ∧ n < 2 ^ 63 then some n else none

/-- Seconds since the epoch, from the days of a civil date. -/
def seconds (y m day hh mm ss : ℤ) : ℤ :=
  let y := if m ≤ 2 then i64 (y - 1) else y
  let era := y / 400
  let yoe := i64 (y - i64 (era * 400))
  let doy := (153 * (if m > 2 then m - 3 else m + 9) + 2) / 5 + day - 1
  let doe := yoe * 365 + yoe / 4 - yoe / 100 + doy
  let days := i64 (era * 146097 + doe - 719468)
  i64 (days * 86400 + hh * 3600 + mm * 60 + ss)

/-- `YYYY-MM-DD[THH:MM:SS[Z]]`. -/
def parseTime (s : String) : Option ℤ := do
  let cs := ((trimmed s.toList).reverse.dropWhile (· = 'Z')).reverse
  let date := cs.takeWhile (· ≠ 'T')
  let time := if cs.contains 'T' then (cs.dropWhile (· ≠ 'T')).tail else "00:00:00".toList
  match date.splitOn '-', time.splitOn ':' with
  | [y, m, day], parts => do
    let y ← parseI64 y
    let m ← parseI64 m
    let day ← parseI64 day
    if ¬(1 ≤ m ∧ m ≤ 12) ∨ ¬(1 ≤ day ∧ day ≤ 31) then none
    else do
      let hh ← parseI64 (parts[0]?.getD [])
      let mm ← parseI64 (parts[1]?.getD ['0'])
      let ss ← parseI64 (((parts[2]?.getD ['0']).splitOn '.').headD [])
      some (seconds y m day hh mm ss)
  | _, _ => none

example : parseTime "1970-01-02T00:00:01Z" = some 86401 := by decide

/-! ### The file -/

structure RotatedKey where
  channel : String
  publicKey : String
  expires : String
  addedAt : ℕ
  deriving DecidableEq, Repr

structure Guard where
  schemaVersion : ℕ
  /-- Channel to highest accepted release version. -/
  highestSeen : String → Option String
  keys : List RotatedKey

def SCHEMA_VERSION : ℕ := 1

def Guard.default : Guard := ⟨SCHEMA_VERSION, fun _ => none, []⟩

/-- `guard.json`: not there, not to be read, or what it holds. -/
inductive File
  | missing
  | unreadable
  | present (g : Guard)

/-- A file that cannot be read, or is of a newer schema, is an error and not an empty guard. -/
def File.load : File → Except String Guard
  | .missing => .ok .default
  | .unreadable => .error "guard-unreadable"
  | .present g => if SCHEMA_VERSION < g.schemaVersion then .error "guard-unreadable" else .ok g

structure ListedKey where
  publicKey : String
  expires : String
  deriving DecidableEq, Repr

structure KeyList where
  schemaVersion : ℕ
  channel : String
  keys : List ListedKey
  deriving DecidableEq, Repr

/-- What is outside: public keys and signatures, the texts that are key lists, the versions
without their build part, and the keys built in. -/
structure Outside (M S V : Type) where
  isKey : String → Bool
  decode : String → Option S
  verify : M → S → String → Bool
  keyList : M → Option KeyList
  version : String → Option V
  baked : String → Option String

variable {M S V : Type} [LinearOrder V] (out : Outside M S V)

/-- A valid signature of `raw` under the key. -/
def verifies (raw : M) (sig : S) (key : String) : Bool := out.isKey key && out.verify raw sig key

/-! ### Versions -/

/-- SemVer precedence; `none` unless both are valid. -/
def precedence (a b : String) : Option Ordering := do
  let x ← out.version a
  let y ← out.version b
  some (compare x y)

def compareVersions (a b : String) : Except String Ordering :=
  match precedence out a b with
  | some o => .ok o
  | none => if a = b then .ok .eq else .error "release-version-invalid"

def checkVersion (g : Guard) (channel installed target : String) (allowDowngrade : Bool) :
    Except String Unit := do
  if allowDowngrade then pure ()
  else do
    if (← compareVersions out target installed) = .lt then .error "downgrade-refused"
    else
      match g.highestSeen channel with
      | none => pure ()
      | some seen => do
        if (← compareVersions out target seen) = .lt then .error "release-replay" else pure ()

/-- `version` is above the highest one seen, if there is one. -/
def isHigher (g : Guard) (channel version : String) : Except String Bool :=
  match g.highestSeen channel with
  | some old => (compareVersions out version old).map (· = .gt)
  | none => .ok true

/-- Raises the highest version seen, never lowers it; `saves` says whether the file can be
written. -/
def recordSeen (channel version : String) (saves : Bool) (file : File) : Except String Unit × File :=
  match file.load with
  | .error e => (.error e, file)
  | .ok g =>
    match isHigher out g channel version with
    | .error e => (.error e, file)
    | .ok false => (.ok (), file)
    | .ok true =>
      if saves then
        (.ok (), .present { g with highestSeen := Function.update g.highestSeen channel (some version) })
      else (.error "guard-unreadable", file)

/-! ### Releases -/

/-- What the verification needs besides the manifest: the text of its signature, the key list
with its own, the clock, and whether an accepted list is written and can be. -/
structure Ctx (M : Type) where
  channel : String
  persist : Bool
  now : ℤ
  nowMs : ℕ
  fetchSig : Except String String
  fetchKeys : Option (M × String)
  saves : Bool

section Verify

variable (c : Ctx M) (raw : M)

/-- The accepted keys of the channel that have not expired. -/
def live (g : Guard) : List RotatedKey :=
  g.keys.filter fun k => k.channel = c.channel && (parseTime k.expires).any (c.now < ·)

def expired (g : Guard) : List RotatedKey :=
  g.keys.filter fun k => k.channel = c.channel && (parseTime k.expires).all (· ≤ c.now)

def trusted (g : Guard) : List String := (out.baked c.channel).toList ++ (live c g).map RotatedKey.publicKey

/-- `text` is signed by a key that is trusted now. -/
def trusts (g : Guard) (text : M) (sig : S) : Bool := (trusted out c g).any (verifies out text sig)

structure Scan where
  guard : Guard
  signerExpired : Option String

/-- One key of a list: an expired one is passed over, one that is known is kept as it is. -/
def scanKey (sig : S) (s : Scan) (k : ListedKey) : Except String Scan :=
  if ¬out.isKey k.publicKey then .error "key-list-invalid"
  else
    match parseTime k.expires with
    | none => .error "key-list-invalid"
    | some t =>
      if t ≤ c.now then
        .ok (if verifies out raw sig k.publicKey then { s with signerExpired := some k.expires } else s)
      else if s.guard.keys.any fun g => g.channel = c.channel && g.publicKey = k.publicKey then .ok s
      else
        .ok { s with guard := { s.guard with
          keys := s.guard.keys ++ [⟨c.channel, k.publicKey, k.expires, c.nowMs⟩] } }

/-- The guard with the keys of a list, if a trusted key signed the list and one of the keys it
then has signed the manifest. -/
def readList (sig : S) (g : Guard) (listRaw : M) (listSig : String) : Except String Guard :=
  match out.decode listSig with
  | none => .error "release-signature-invalid"
  | some lsig =>
    if ¬trusts out c g listRaw lsig then .error "key-list-invalid"
    else
      match out.keyList listRaw with
      | none => .error "key-list-invalid"
      | some list =>
        if list.schemaVersion ≠ SCHEMA_VERSION ∨ list.channel ≠ c.channel then
          .error "key-list-invalid"
        else
          match list.keys.foldlM (scanKey out c raw sig) ⟨g, none⟩ with
          | .error e => .error e
          | .ok s =>
            if s.signerExpired.isSome then .error "release-key-expired"
            else if trusts out c s.guard raw sig then .ok s.guard
            else .error "release-signature-invalid"

/-- The release is signed by a key that is trusted now, or by one announced in a key list. -/
def verifyRelease (file : File) : Except String Bool × File :=
  match file.load with
  | .error e => (.error e, file)
  | .ok g =>
    if out.baked c.channel = none ∧ live c g = [] then (.ok false, file)
    else if (out.baked c.channel).any fun b => !out.isKey b then
      (.error "release-signature-invalid", file)
    else
      match c.fetchSig with
      | .error e => (.error e, file)
      | .ok text =>
        match out.decode text with
        | none => (.error "release-signature-invalid", file)
        | some sig =>
          if trusts out c g raw sig then (.ok true, file)
          else if (expired c g).any fun k => verifies out raw sig k.publicKey then
            (.error "release-key-expired", file)
          else
            match c.fetchKeys with
            | none => (.error "release-signature-invalid", file)
            | some (listRaw, listSig) =>
              match readList out c raw sig g listRaw listSig with
              | .error e => (.error e, file)
              | .ok g' =>
                if !c.persist then (.ok true, file)
                else if c.saves then (.ok true, .present g')
                else (.error "guard-unreadable", file)

/-- The manifest is signed by a key that was trusted before the call. -/
def direct (g : Guard) : Bool :=
  match c.fetchSig.toOption.bind out.decode with
  | some sig => trusts out c g raw sig
  | none => false

end Verify

/-! ### Sequences of calls -/

inductive Call (M : Type)
  | verifyRelease (raw : M) (c : Ctx M)
  | checkVersion (channel installed target : String) (allowDowngrade : Bool)
  | recordSeen (channel version : String) (saves : Bool)

/-- What the call answers, and the file after it. -/
def Call.run (file : File) : Call M → Except String Bool × File
  | .verifyRelease raw c => Release.verifyRelease out c raw file
  | .checkVersion channel installed target allowDowngrade =>
    (file.load.bind fun g =>
      (Release.checkVersion out g channel installed target allowDowngrade).map fun _ => true, file)
  | .recordSeen channel version saves =>
    let r := Release.recordSeen out channel version saves file
    (r.1.map fun _ => true, r.2)

/-- A key list that was accepted, and when. -/
structure Accepted (M : Type) where
  channel : String
  now : ℤ
  raw : M
  list : KeyList

/-- The key list a call accepts: it is asked for only when no trusted key signed the manifest. -/
def Call.accepted (file : File) : Call M → List (Accepted M)
  | .verifyRelease raw c =>
    match file.load, c.fetchKeys with
    | .ok g, some (listRaw, _) =>
      match (Release.verifyRelease out c raw file).1 with
      | .ok true =>
        if direct out c raw g then []
        else (out.keyList listRaw).toList.map fun list => ⟨c.channel, c.now, listRaw, list⟩
      | _ => []
    | _, _ => []
  | _ => []

/-- The files that calls lead to, with the key lists accepted on the way. -/
inductive Runs (init : File) : File → List (Accepted M) → Prop
  | start : Runs init init []
  | call {file : File} {past : List (Accepted M)} (h : Runs init file past) (call : Call M) :
      Runs init (call.run out file).2 (past ++ call.accepted out file)

end Plur1bus.Release
