import Mathlib.Data.List.Perm.Subperm
import Plur1bus.Language
import Plur1bus.Program.Serial

/-!
The second factor. A code of six digits is that of a time step, and a step counts once: the
newest step accepted is kept, and only a newer one passes. A backup code passes while its hash
is in the record, and goes with it. The calls of one user run one at a time, so that what a
call decides from the record it has read is still right when it writes.
-/

namespace Plur1bus.Api

open Program Serial

/-- What is used and not part of this: the hash functions and the language's case mapping. -/
structure Crypto where
  hmacSha1 : List ℕ → ℕ → List ℕ
  sha256hex : List Char → String
  toLowerCase : List Char → List Char
  toUpperCase : List Char → List Char

variable (crypto : Crypto)

def B32 : List Char := "ABCDEFGHIJKLMNOPQRSTUVWXYZ234567".toList

/-- The digits from the first on; `value` and `bits` are what is not yet a byte. -/
def base32Loop (value bits : ℕ) : List Char → Option (List ℕ)
  | [] => some []
  | c :: rest =>
    match B32.idxOf? c with
    | none => none
    | some i =>
      let value := (value * 32 + i) % 2 ^ 32
      let bits := bits + 5
      if bits ≥ 8 then (base32Loop value (bits - 8) rest).map fun out => value / 2 ^ (bits - 8) % 256 :: out
      else base32Loop value bits rest

def stripped (s : List Char) : List Char := s.filter fun c => !(isWhite c || c = '-')

def base32Decode (s : List Char) : Option (List ℕ) :=
  let clean := ((stripped (crypto.toUpperCase s)).reverse.dropWhile (· = '=')).reverse
  if clean = [] then none else base32Loop 0 0 clean

/-- `String(n).padStart(6, "0")`. -/
def sixDigits (n : ℕ) : List Char :=
  List.replicate (6 - (Nat.toDigits 10 n).length) '0' ++ Nat.toDigits 10 n

def hotp (secret : List ℕ) (counter : ℕ) : List Char :=
  let h := crypto.hmacSha1 secret counter
  let o := h.getD 19 0 % 16
  sixDigits (((h.getD o 0 % 128) * 2 ^ 24 + h.getD (o + 1) 0 * 2 ^ 16 + h.getD (o + 2) 0 * 2 ^ 8 +
    h.getD (o + 3) 0) % 10 ^ 6)

def TOTP_STEP_SECONDS : ℤ := 30

def stepOf (ms : ℤ) : ℤ := ms / (1000 * TOTP_STEP_SECONDS)

inductive TotpCheck
  | ok (step : ℤ)
  | no
  /-- A counter that is not an unsigned 64-bit number. -/
  | thrown
  deriving DecidableEq, Repr

/-- The newest step of the window that the code is of and that is newer than `lastStep`. -/
def newestHit (key : List ℕ) (given : List Char) (lastStep : ℤ) (steps : List ℤ) : ℤ :=
  steps.foldl (fun hit step =>
    if given = hotp crypto key step.toNat ∧ step > lastStep ∧ step > hit then step else hit) (-1)

/-- `code` is `none` when it is not a string. -/
def verifyTotp (secret : List Char) (code : Option (List Char)) (nowMs lastStep : ℤ) : TotpCheck :=
  match code with
  | none => .no
  | some code =>
    let c := code.filter fun ch => !isWhite ch
    match base32Decode crypto secret with
    | none => .no
    | some key =>
      if c.length = 6 ∧ c.all Char.isDigit then
        let cur := stepOf nowMs
        if cur - 1 < 0 ∨ cur + 1 ≥ 2 ^ 64 then .thrown
        else
          let hit := newestHit crypto key c lastStep [cur - 1, cur, cur + 1]
          if hit ≥ 0 then .ok hit else .no
      else .no

def normBackup (s : List Char) : List Char := stripped (crypto.toLowerCase s)

def backupShape (s : List Char) : Bool :=
  s.length = 10 && s.all fun c => ('a' ≤ c && c ≤ 'z') || ('2' ≤ c && c ≤ '9')

/-! ### The service -/

structure TotpRecord where
  secret : List Char
  enabled : Bool
  createdAt : ℤ
  lastStep : Option ℤ
  backupHashes : List String
  deriving DecidableEq, Repr

/-- The newest step that was accepted. -/
def TotpRecord.last (r : TotpRecord) : ℤ := r.lastStep.getD (-1)

/-- With what was drawn at random for the call. -/
inductive Op
  | begin (secret : List Char)
  | confirm (code : Option (List Char)) (backupCodes : List (List Char))
  | verify (code : Option (List Char))
  | disable (code : Option (List Char))

/-- With the step or the hash that was accepted, which the caller is not told. -/
inductive Answer
  | no
  | begun
  | confirmed (step : ℤ) (backupHashes : List String)
  | totp (step : ℤ)
  | backup (hash : String)
  | disabledByStep (step : ℤ)
  | disabledByBackup (hash : String)
  deriving DecidableEq, Repr

/-- The hash of a backup code that the record has. -/
def spendable (r : TotpRecord) (code : List Char) : Option String :=
  let n := normBackup crypto code
  if backupShape n ∧ crypto.sha256hex n ∈ r.backupHashes then some (crypto.sha256hex n) else none

def planBegin (secret : List Char) (now : ℤ) (cur : Option TotpRecord) : Plan TotpRecord Answer :=
  if cur.any TotpRecord.enabled then .settle none
  else .write (some ⟨secret, false, now, none, []⟩) .begun

def planConfirm (code : Option (List Char)) (backupCodes : List (List Char)) (now : ℤ) :
    Option TotpRecord → Plan TotpRecord Answer
  | none => .settle (some .no)
  | some cur =>
    if cur.enabled then .settle (some .no)
    else
      match verifyTotp crypto cur.secret code now (-1) with
      | .thrown => .settle none
      | .no => .settle (some .no)
      | .ok step =>
        let hashes := backupCodes.map fun c => crypto.sha256hex (normBackup crypto c)
        .write (some { cur with enabled := true, lastStep := some step, backupHashes := hashes })
          (.confirmed step hashes)

def planVerify (code : Option (List Char)) (now : ℤ) : Option TotpRecord → Plan TotpRecord Answer
  | none => .settle (some .no)
  | some cur =>
    match cur.enabled, code with
    | true, some text =>
      match verifyTotp crypto cur.secret code now cur.last with
      | .thrown => .settle none
      | .ok step => .write (some { cur with lastStep := some step }) (.totp step)
      | .no =>
        match spendable crypto cur text with
        | none => .settle (some .no)
        | some h => .write (some { cur with backupHashes := cur.backupHashes.erase h }) (.backup h)
    | _, _ => .settle (some .no)

def planDisable (code : Option (List Char)) (now : ℤ) : Option TotpRecord → Plan TotpRecord Answer
  | none => .settle (some .no)
  | some cur =>
    match cur.enabled, code with
    | true, some text =>
      match verifyTotp crypto cur.secret code now cur.last with
      | .thrown => .settle none
      | .ok step => .write none (.disabledByStep step)
      | .no =>
        match spendable crypto cur text with
        | none => .settle (some .no)
        | some h => .write none (.disabledByBackup h)
    | _, _ => .settle (some .no)

def plan : Op → ℤ → Option TotpRecord → Plan TotpRecord Answer
  | .begin secret, now, cur => planBegin secret now cur
  | .confirm code backupCodes, now, cur => planConfirm crypto code backupCodes now cur
  | .verify code, now, cur => planVerify crypto code now cur
  | .disable code, now, cur => planDisable crypto code now cur

/-- One service, its store, and the calls of any users. -/
abbrev TotpService (U : Type) := State U TotpRecord Op ℤ Answer

end Plur1bus.Api
