import Mathlib.Algebra.Order.Ring.Rat
import Mathlib.Data.Int.Notation

/-!
The writer of diagnostic records. A record that was written in the last minute is counted and not
written again, a source that writes too fast is counted and not written, and what is written goes
through a queue that drops its oldest lines when the sink fails for too long. The counts become lines
of their own, in the same queue.

What is read from outside, the clock and the files, is a `World`: the answers to the accesses in their
order. A state also has what a reader of the history sees: the lines that reached the files, those
that were put into the queue and those that were dropped from it, and how many records were written.
-/

namespace Plur1bus.Logs.Writer

def MAX_PENDING : ℕ := 256
def MAX_BATCH : ℕ := 256

def dedupWindowMs : ℤ := 60000
def rateSustainedPerSecond : ℚ := 100
def rateBurst : ℚ := 500

inductive Reason
  | rateLimit
  | sinkFailed
  deriving DecidableEq, Repr

/-- A line, with the content of its record. -/
inductive Body (R S : Type)
  | record (r : R)
  /-- The record again, with `repeat` and the window. -/
  | again (r : R) (count : ℕ)
  /-- `log.suppressed`; without a source it is the writer's own. -/
  | suppressed (dropped : ℕ) (windowMs : ℤ) (reason : Reason) (source : Option S)
  | internal (r : R)
  | legacy (r : R)
  deriving DecidableEq, Repr

structure Line (R S : Type) where
  ts : ℤ
  body : Body R S
  deriving DecidableEq, Repr

structure Repeat (R : Type) where
  record : R
  start : ℤ
  count : ℕ

structure Bucket where
  tokens : ℚ
  at' : ℤ
  start : ℤ
  dropped : ℕ

/-- The answers to the readings of the clock, and to the accesses to the log directory. -/
structure World (R S : Type) where
  clock : ℕ → ℤ
  /-- Whether the access succeeds. -/
  io : ℕ → Bool
  size : ℕ → ℕ
  /-- The file was last written on an earlier day. -/
  earlier : ℕ → Bool
  /-- How many files are pruned. -/
  pruned : ℕ → ℕ
  bytes : Line R S → ℕ

structure State (R K S : Type) where
  closed : Bool := false
  lastPrune : ℤ := 0
  pending : List (Line R S) := []
  lost : ℕ := 0
  retryAt : ℤ := 0
  repeats : List (K × Repeat R) := []
  buckets : List (S × Bucket) := []
  maxBytes : ℕ
  /-- Something is written and not synced. -/
  dirty : Bool := false
  reads : ℕ := 0
  accesses : ℕ := 0
  -- The history.
  file : List (Line R S) := []
  queued : List (Line R S) := []
  dropped : List (Line R S) := []
  writes : ℕ := 0

/-- What `emit` is given, once it is looked up, checked and redacted. -/
structure Write (R K S : Type) where
  record : R
  /-- The hash of the record without its time. -/
  key : K
  source : S
  fatal : Bool
  bypassRate : Bool

inductive Prepared (R K S : Type)
  /-- It throws: the event is not one of the writer's, or the record is invalid. -/
  | throws
  /-- The level is not enabled. -/
  | silent
  /-- An internal record instead: the event is not registered, or its redaction failed. -/
  | instead (r : R)
  | accepted (w : Write R K S)

inductive Op (R K S : Type)
  /-- `write` and `writeOutputLine`; `levels` are the records of levels that expire. -/
  | write (levels : List R) (p : Prepared R K S)
  /-- `writeLegacy` of a record, or of the internal one that stands for it; none if the level is not enabled. -/
  | writeLegacy (levels : List R) (r : Option R) (instead : Option R) (durable : Bool)
  | flush (durable : Bool)
  | tick (force : Bool) (levels : List R)
  /-- The timer of a second. -/
  | timer (levels : List R)
  | updateLevels (changed : List R)
  | setRotation (maxBytes : ℕ)
  | close (levels : List R)

variable {R K S : Type}

namespace State

/-- What happens next, unless something was thrown. -/
def next (r : State R K S × Bool) (f : State R K S → State R K S × Bool) : State R K S × Bool :=
  if r.2 then f r.1 else r

def now (w : World R S) (s : State R K S) : ℤ × State R K S := (w.clock s.reads, { s with reads := s.reads + 1 })

/-- An access to the files. -/
def access (w : World R S) (s : State R K S) : State R K S × Bool := ({ s with accesses := s.accesses + 1 }, w.io s.accesses)

/-! ### The sink -/

def syncDirty (w : World R S) (s : State R K S) : State R K S × Bool :=
  next (s.access w) fun s => ({ s with dirty := false }, true)

def rotate (w : World R S) (s : State R K S) : State R K S × Bool := next (s.syncDirty w) (access w)

/-- `write`, which reports the lines that reached the file, and then sets the times of the file. -/
def writeChunk (w : World R S) (s : State R K S) (chunk : List (Line R S)) : State R K S × Bool :=
  if chunk.isEmpty then (s, true)
  else
    next (s.access w) fun s =>
      access w { s with dirty := true, file := s.file ++ chunk, pending := s.pending.drop chunk.length }

def batchFrom (w : World R S) : List (Line R S) → List (Line R S) → ℕ → ℕ → State R K S → State R K S × Bool
  | [], chunk, _, _, s => s.writeChunk w chunk
  | line :: lines, chunk, chunkBytes, size, s =>
    if size + chunkBytes > 0 ∧ size + chunkBytes + w.bytes line > s.maxBytes then
      next (next (s.writeChunk w chunk) (rotate w)) (batchFrom w lines [line] (w.bytes line) 0)
    else batchFrom w lines (chunk ++ [line]) (chunkBytes + w.bytes line) size s

def appendBatch (w : World R S) (s : State R K S) (lines : List (Line R S)) (durable : Bool) : State R K S × Bool :=
  if lines.isEmpty then (s, true)
  else
    next (s.access w) fun s =>
      let size := w.size s.accesses
      let batch :=
        if size > 0 ∧ w.earlier s.accesses then next (s.rotate w) (batchFrom w lines [] 0 0)
        else batchFrom w lines [] 0 size s
      next batch fun s => if durable && s.dirty then s.syncDirty w else (s, true)

/-- `sink.sync`. -/
def sync (w : World R S) (s : State R K S) : State R K S × Bool :=
  if s.dirty then next (s.access w) (syncDirty w) else (s, true)

/-! ### The queue -/

def queue (s : State R K S) (line : Line R S) : State R K S :=
  let pending := s.pending ++ [line]
  let n := pending.length - MAX_PENDING
  { s with
    pending := pending.drop n
    lost := s.lost + n
    queued := s.queued ++ [line]
    dropped := s.dropped ++ pending.take n }

def drainFrom (w : World R S) (durable : Bool) : ℕ → State R K S → State R K S × Bool
  | 0, s => (s, true)
  | n + 1, s =>
    if s.pending.isEmpty then (s, true)
    else
      next (s.appendBatch w (s.pending.take MAX_BATCH) (durable && s.pending.length ≤ MAX_BATCH))
        (drainFrom w durable n)

def drain (w : World R S) (s : State R K S) (durable : Bool) : State R K S × Bool :=
  s.drainFrom w durable s.pending.length

/-- `enqueue` while a flush is under way: another one returns at once. -/
def enqueueFlushing (w : World R S) (s : State R K S) (line : Line R S) : State R K S :=
  let s := s.queue line
  if s.pending.length ≥ 64 then (s.now w).2 else s

/-- The lines that were dropped are reported. -/
def reportLost (w : World R S) (s : State R K S) (durable : Bool) : State R K S × Bool :=
  if s.lost > 0 ∧ !s.closed then
    let (ts, t) := now w { s with lost := 0 }
    (t.enqueueFlushing w ⟨ts, .suppressed s.lost 0 .sinkFailed none⟩).drain w durable
  else (s, true)

def flush (w : World R S) (s : State R K S) (durable : Bool) : State R K S × Bool :=
  next (next (next (s.drain w durable) fun s => s.reportLost w durable) fun s => if durable then s.sync w else (s, true))
    fun s => ({ s with retryAt := 0 }, true)

def autoFlush (w : World R S) (s : State R K S) (durable : Bool) : State R K S :=
  let (t, s) := s.now w
  if t < s.retryAt then s
  else
    let (s, ok) := s.flush w durable
    if ok then s
    else
      let (t, s) := s.now w
      { s with retryAt := t + 1000 }

def enqueue (w : World R S) (s : State R K S) (line : Line R S) : State R K S :=
  let s := s.queue line
  if s.pending.length ≥ 64 then s.autoFlush w true else s

/-! ### Records -/

/-- A record that is read at the time that it is queued. -/
def put (w : World R S) (s : State R K S) (body : Body R S) : State R K S :=
  let (ts, s) := s.now w
  s.enqueue w ⟨ts, body⟩

/-- `emit` of the writer's own records, in their order. -/
def emitInternal (w : World R S) (s : State R K S) (rs : List R) : State R K S :=
  if s.closed then s else rs.foldl (fun s r => s.put w (.internal r)) s

def summarize (w : World R S) (s : State R K S) (r : Repeat R) : State R K S :=
  if r.count > 1 then s.put w (.again r.record r.count) else s

variable [DecidableEq K] [DecidableEq S]

/-- A bucket that is there, or a full one. -/
def bucketOf (w : World R S) (s : State R K S) (source : S) : Bucket × State R K S :=
  match s.buckets.find? fun e => e.1 = source with
  | some e => (e.2, s)
  | none =>
    let (at', s) := s.now w
    let (start, s) := s.now w
    (⟨rateBurst, at', start, 0⟩, s)

/-- The bucket of the source is `b`. -/
def setBucket (b : Bucket) (source : S) : List (S × Bucket) → List (S × Bucket)
  | [] => [(source, b)]
  | e :: es => if e.1 = source then (source, b) :: es else e :: setBucket b source es

def refill (w : World R S) (s : State R K S) (b : Bucket) : Bucket × State R K S :=
  let (t, s) := s.now w
  let tokens := min rateBurst (b.tokens + max 0 (t - b.at' : ℤ) * rateSustainedPerSecond / 1000)
  let (t, s) := s.now w
  ({ b with tokens := tokens, at' := t }, s)

/-- The oldest of a thousand repeats is summarized. -/
def evict (w : World R S) (s : State R K S) : State R K S := if s.repeats.length ≥ 1000 then
    match s.repeats with
    | [] => s
    | e :: _ =>
      let s := s.summarize w e.2
      { s with repeats := s.repeats.drop 1 }
  else s

/-- A record that is not a repetition. -/
def allow (w : World R S) (s : State R K S) (x : Write R K S) (ts : ℤ) : State R K S :=
  let (b, s) := s.bucketOf w x.source
  let (b, s) := s.refill w b
  if !x.bypassRate ∧ b.tokens < 1 then
    { s with buckets := setBucket { b with dropped := b.dropped + 1 } x.source s.buckets }
  else
    let b := if x.bypassRate then b else { b with tokens := b.tokens - 1 }
    let s := { s with buckets := setBucket b x.source s.buckets }
    let s := s.evict w
    let s := s.enqueue w ⟨ts, .record x.record⟩
    let (start, s) := s.now w
    { s with repeats := s.repeats ++ [(x.key, ⟨x.record, start, 1⟩)] }

/-- The repeat of the key is counted once more. -/
def recount (key : K) : List (K × Repeat R) → List (K × Repeat R)
  | [] => []
  | e :: es => if e.1 = key then (e.1, { e.2 with count := e.2.count + 1 }) :: es else e :: recount key es

/-- `emit` of a record of somebody else. -/
def emit (w : World R S) (s : State R K S) (x : Write R K S) : State R K S :=
  let s := { s with writes := s.writes + 1 }
  let (ts, s) := s.now w
  if x.fatal then s.enqueue w ⟨ts, .record x.record⟩
  else
    match s.repeats.find? fun e => e.1 = x.key with
    | some e =>
      let (t, s) := s.now w
      if t - e.2.start < dedupWindowMs then { s with repeats := recount x.key s.repeats }
      else
        let s := s.summarize w e.2
        let s := { s with repeats := s.repeats.eraseP fun e => e.1 = x.key }
        s.allow w x ts
    | none => s.allow w x ts

def write (w : World R S) (s : State R K S) (levels : List R) (p : Prepared R K S) : State R K S :=
  if s.closed then s
  else
    let s := s.emitInternal w levels
    match p with
    | .throws | .silent => s
    | .instead r => s.emitInternal w [r]
    | .accepted x => s.emit w x

def writeLegacy (w : World R S) (s : State R K S) (levels : List R) (r instead : Option R) (durable : Bool) : State R K S :=
  if s.closed then s
  else
    let s := s.emitInternal w levels
    match r, instead with
    | none, _ => s
    | some _, some r => s.emitInternal w [r]
    | some r, none =>
      let (at', s) := now w { s with writes := s.writes + 1 }
      (s.queue ⟨at', .legacy r⟩).autoFlush w durable

/-! ### The timer -/

/-- The repeats that are due are summarized; those that are left stay. -/
def tickRepeats (w : World R S) (force : Bool) : List (K × Repeat R) → State R K S → List (K × Repeat R) × State R K S
  | [], s => ([], s)
  | e :: es, s =>
    if force then tickRepeats w force es (s.summarize w e.2)
    else
      let (t, s) := s.now w
      if t - e.2.start ≥ dedupWindowMs then tickRepeats w force es (s.summarize w e.2)
      else
        let (es, s) := tickRepeats w force es s
        (e :: es, s)

/-- A bucket whose time is up reports what it has dropped. -/
def report (w : World R S) (s : State R K S) (e : S × Bucket) : (S × Bucket) × State R K S :=
  let (ts, s) := s.now w
  let s := s.put w (.suppressed e.2.dropped (max 0 (ts - e.2.start)) .rateLimit (some e.1))
  let (start, s) := s.now w
  ((e.1, { e.2 with dropped := 0, start := start }), s)

def tickBuckets (w : World R S) (force : Bool) : List (S × Bucket) → State R K S → List (S × Bucket) × State R K S
  | [], s => ([], s)
  | e :: es, s =>
    let (e, s) :=
      if e.2.dropped = 0 then (e, s)
      else if force then s.report w e
      else
        let (t, s) := s.now w
        if t - e.2.start ≥ 1000 then s.report w e else (e, s)
    let (es, s) := tickBuckets w force es s
    (e :: es, s)

/-- `prune`, with the record of what it removed. -/
def prune (w : World R S) (s : State R K S) (record : ℕ → R) : State R K S × Bool :=
  let files := w.pruned s.accesses
  next (s.access w) fun s => (if files > 0 then s.emitInternal w [record files] else s, true)

def tick (w : World R S) (record : ℕ → R) (s : State R K S) (force : Bool) (levels : List R) : State R K S × Bool :=
  let (repeats, s) := s.tickRepeats w force s.repeats
  let (buckets, s) := ({ s with repeats := repeats } : State R K S).tickBuckets w force s.buckets
  let s := ({ s with buckets := buckets } : State R K S).emitInternal w levels
  let (t, s) := s.now w
  if t - s.lastPrune ≥ 86400000 then
    next (s.prune w record) fun s =>
      let (t, s) := s.now w
      ({ s with lastPrune := t }, true)
  else (s, true)

/-- `close`; it throws if something goes wrong, and the writer stays open. -/
def close (w : World R S) (record : ℕ → R) (s : State R K S) (levels : List R) : State R K S × Bool :=
  if s.closed then (s, true)
  else
    next (next (s.tick w record true levels) fun s => s.flush w true) fun s => ({ s with closed := true }, true)

def act (w : World R S) (record : ℕ → R) (s : State R K S) : Op R K S → State R K S
  | .write levels p => s.write w levels p
  | .writeLegacy levels r instead durable => s.writeLegacy w levels r instead durable
  | .flush durable => (s.flush w durable).1
  | .tick force levels => (s.tick w record force levels).1
  | .timer levels => (next (s.tick w record false levels) fun s => s.flush w true).1
  | .updateLevels changed => s.emitInternal w changed
  | .setRotation maxBytes => { s with maxBytes := maxBytes }
  | .close levels => (s.close w record levels).1

/-- A new writer, which prunes first. -/
def create (w : World R S) (record : ℕ → R) (maxBytes : ℕ) : State R K S :=
  let (t, s) := now w { maxBytes := maxBytes }
  (prune w { s with lastPrune := t } record).1

def run (w : World R S) (record : ℕ → R) (maxBytes : ℕ) (ops : List (Op R K S)) : State R K S :=
  ops.foldl (act w record) (create w record maxBytes)

end State

end Plur1bus.Logs.Writer
