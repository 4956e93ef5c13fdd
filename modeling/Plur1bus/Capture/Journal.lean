import Mathlib.Logic.Function.Basic
import Plur1bus.Program.Lossy

/-!
The capture journal of one agent. Command-line processes append lines to
`<agent>.jsonl` through a handle that follows the file and not its name; one core
at a time renames the file to `.replaying-<pid>`, reads it to its end in chunks,
captures its lines one after another, appends the lines it keeps to the journal and
removes the renamed file. A process may stop between any two of its steps, and a
write that is cut off leaves a beginning of what was written.
-/

namespace Plur1bus.Capture

open Program
open Utf8 (bytes lossy)

def NL : UInt8 := 0x0A

/-- What `JSON.stringify` makes of a journal line: an object, in one line. -/
structure JournalLine where
  text : List Char
  object : text.head? = some '\x7b'
  oneLine : '\n' ∉ text
  deriving DecidableEq

def JournalLine.raw (l : JournalLine) : List UInt8 := bytes l.text

/-- Where a call of `appendJournalLine` stands. -/
inductive Call
  | idle
  /-- The file is open. -/
  | opened (inode : ℕ) (line : JournalLine)
  /-- The last byte has been looked at. -/
  | looked (inode : ℕ) (line : JournalLine) (gluing : Bool)
  deriving DecidableEq

/-- Reading, after the end of the file, or after the kept lines are appended. -/
inductive Stage
  | reading | ended | appended
  deriving DecidableEq, Repr

/-- `processReplayingFile` on the file named `.replaying-<name>`. -/
structure Work where
  name : ℕ
  inode : ℕ
  pos : ℕ := 0
  /-- The bytes of the line that is being read. -/
  line : List UInt8 := []
  /-- The lines that are read and not captured yet. -/
  pending : List (List UInt8) := []
  kept : List (List UInt8) := []
  stage : Stage := .reading
  deriving DecidableEq, Repr

/-- What the core does: nothing, recover the leftovers that were listed, look for
the journal file, or process a file, with the leftovers still to come after it. -/
inductive Activity
  | rest
  | recover (todo : List ℕ)
  | scan
  | work (todo : Option (List ℕ)) (work : Work)
  deriving DecidableEq, Repr

structure World where
  /-- The bytes of each file, by inode. -/
  content : ℕ → List UInt8
  fresh : ℕ
  /-- The inode under `<agent>.jsonl`. -/
  jsonl : Option ℕ
  /-- The files `<agent>.jsonl.replaying-<pid>`. -/
  replaying : List (ℕ × ℕ)
  calls : ℕ → Call
  /-- The pid of the core and what it does. -/
  core : Option (ℕ × Activity)
  /-- The lines whose append completed. -/
  appended : List JournalLine
  /-- The lines of which a capture has been handled. -/
  handled : List (List UInt8)

def World.empty : World := ⟨fun _ => [], 0, none, [], fun _ => .idle, none, [], []⟩

/-- What the replay asks of outside. -/
structure Env where
  /-- The text is parsed, validated, and of a registered agent. -/
  accepts : List Char → Bool
  maxLineBytes : ℕ

/-- Only spaces, tabs and carriage returns. -/
def isBlank (line : List UInt8) : Bool := line.all fun b => b = 0x20 || b = 0x09 || b = 0x0D

/-- What becomes of a line: the abort came before it, or its capture has an outcome. -/
inductive Outcome
  | aborted | handled | notHandled
  deriving DecidableEq, Repr

/-- The text without the carriage return at its end. -/
def clean (text : List Char) : List Char := if text.getLast? = some '\r' then text.dropLast else text

inductive Event
  | openFile (cli : ℕ) (line : JournalLine)
  | look (cli : ℕ)
  | write (cli : ℕ)
  /-- The process stops, with `k` bytes of its write in the file. -/
  | writeCut (cli : ℕ) (k : ℕ)
  | start (pid : ℕ)
  | crash
  | startPass
  | nextFile
  | read (n : ℕ)
  | endOfFile
  | line (outcome : Outcome)
  | appendKept
  /-- The core stops, with `k` bytes of the kept lines in the file. -/
  | appendKeptCut (k : ℕ)
  | remove
  /-- The file is abandoned or fails, and stays as it is. -/
  | giveUp
  deriving DecidableEq

namespace World

variable (w : World)

def setContent (i : ℕ) (b : List UInt8) : World := { w with content := Function.update w.content i b }

def setCall (cli : ℕ) (c : Call) : World := { w with calls := Function.update w.calls cli c }

/-- Opening `<agent>.jsonl` to append, which creates it. -/
def openJsonl : ℕ × World :=
  match w.jsonl with
  | some i => (i, w)
  | none => (w.fresh, { w with jsonl := some w.fresh, fresh := w.fresh + 1 })

/-- What one append writes. -/
def payload (gluing : Bool) (line : JournalLine) : List UInt8 :=
  (if gluing then [NL] else []) ++ line.raw ++ [NL]

def act (env : Env) (w : World) : Event → World
  | .openFile cli line =>
    match w.calls cli with
    | .idle =>
      let (i, w) := w.openJsonl
      w.setCall cli (.opened i line)
    | _ => w
  | .look cli =>
    match w.calls cli with
    | .opened i line =>
      let last := (w.content i).getLast?
      w.setCall cli (.looked i line (last.any (· ≠ NL)))
    | _ => w
  | .write cli =>
    match w.calls cli with
    | .looked i line gluing =>
      let w := w.setContent i (w.content i ++ payload gluing line)
      { w.setCall cli .idle with appended := w.appended ++ [line] }
    | _ => w
  | .writeCut cli k =>
    match w.calls cli with
    | .looked i line gluing =>
      (w.setContent i (w.content i ++ (payload gluing line).take k)).setCall cli .idle
    | _ => w.setCall cli .idle
  | .start pid => if w.core = none then { w with core := some (pid, .rest) } else w
  | .crash => { w with core := none }
  | .startPass =>
    match w.core with
    | some (pid, .rest) => { w with core := some (pid, .recover (w.replaying.map Prod.fst)) }
    | _ => w
  | .nextFile =>
    match w.core with
    | some (pid, .recover (name :: todo)) =>
      match w.replaying.lookup name with
      | some i => { w with core := some (pid, .work (some todo) { name := name, inode := i }) }
      | none => { w with core := some (pid, .recover todo) }
    | some (pid, .recover []) => { w with core := some (pid, .scan) }
    | some (pid, .scan) =>
      match w.jsonl with
      | none => { w with core := some (pid, .rest) }
      | some i =>
        -- A leftover under this very name still holds lines.
        if pid ∈ w.replaying.map Prod.fst then { w with core := some (pid, .rest) }
        else
          { w with
            jsonl := none
            replaying := w.replaying ++ [(pid, i)]
            core := some (pid, .work none { name := pid, inode := i }) }
    | _ => w
  | .read n =>
    match w.core with
    | some (pid, .work todo k) =>
      let chunk := ((w.content k.inode).drop k.pos).take n
      if k.stage = .reading ∧ k.pending = [] ∧ chunk ≠ [] then
        let pieces := (k.line ++ chunk).splitOn NL
        { w with core := some (pid, .work todo { k with
            pos := k.pos + chunk.length, line := pieces.getLastD [], pending := pieces.dropLast }) }
      else w
    | _ => w
  | .endOfFile =>
    match w.core with
    | some (pid, .work todo k) =>
      if k.stage = .reading ∧ k.pending = [] ∧ (w.content k.inode).drop k.pos = [] then
        { w with core := some (pid, .work todo { k with
            stage := .ended, line := [], pending := if k.line = [] then [] else [k.line] }) }
      else w
    | _ => w
  | .line outcome =>
    match w.core with
    | some (pid, .work todo k) =>
      match k.pending with
      | [] => w
      | raw :: pending =>
        let keep (text : List UInt8) : World :=
          { w with core := some (pid, .work todo { k with pending := pending, kept := k.kept ++ [text] }) }
        if isBlank raw then { w with core := some (pid, .work todo { k with pending := pending }) }
        else if outcome = .aborted ∨ env.maxLineBytes < raw.length then keep raw
        else if env.accepts (clean (lossy raw)) ∧ outcome = .handled then
          { w with
            core := some (pid, .work todo { k with pending := pending })
            handled := w.handled ++ [raw] }
        else keep (bytes (lossy raw))
    | _ => w
  | .appendKept =>
    match w.core with
    | some (pid, .work todo k) =>
      if k.stage = .ended ∧ k.pending = [] then
        let w := { w with core := some (pid, .work todo { k with stage := .appended }) }
        if k.kept = [] then w
        else
          let (i, w) := w.openJsonl
          w.setContent i (w.content i ++ k.kept.flatMap (· ++ [NL]))
      else w
    | _ => w
  | .appendKeptCut n =>
    match w.core with
    | some (_, .work _ k) =>
      if k.stage = .ended ∧ k.pending = [] ∧ k.kept ≠ [] then
        let (i, w) := w.openJsonl
        { w.setContent i (w.content i ++ (k.kept.flatMap (· ++ [NL])).take n) with core := none }
      else w
    | _ => w
  | .remove =>
    match w.core with
    | some (pid, .work todo k) =>
      if k.stage = .appended then
        { w with
          replaying := w.replaying.filter fun f => f.1 ≠ k.name
          core := some (pid, match todo with
            | some todo => .recover todo
            | none => .rest) }
      else w
    | _ => w
  | .giveUp =>
    match w.core with
    | some (pid, .work todo _) =>
      { w with core := some (pid, match todo with
          | some todo => .recover todo
          | none => .rest) }
    | _ => w

end World

end Plur1bus.Capture
