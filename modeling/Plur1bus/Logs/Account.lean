import Mathlib.Tactic.Ring
import Plur1bus.Logs.Writer

/-!
What becomes of a record. It is in a line that was written, waits in one that was not, is counted in
a repeat or in a bucket, or it is lost. A line that the full queue drops is counted as one lost record;
so when everything is written at the end, the counts are right if and only if the dropped lines stood
for as many records as there were of them.
-/

namespace Plur1bus.Logs.Writer

open List

variable {R K S : Type} {w : World R S} {s t u : State R K S}

/-- How many records a line stands for, besides those that other lines stand for. -/
def Body.weight : Body R S → ℕ
  | .record _ => 1
  | .again _ count => count - 1
  | .suppressed dropped _ _ _ => dropped
  | .internal _ => 0
  | .legacy _ => 1

def weigh (lines : List (Line R S)) : ℕ := (lines.map fun line => line.body.weight).sum

theorem weigh_append (as bs : List (Line R S)) : weigh (as ++ bs) = weigh as + weigh bs := by
  unfold weigh
  rw [map_append, sum_append]

theorem weigh_singleton (line : Line R S) : weigh [line] = line.body.weight := by
  unfold weigh
  rw [map_singleton, sum_singleton]

/-! ### What the queue and the sink do -/

/-- From `s` to `t` records for `n` were put into the queue, and otherwise lines have only moved: from
the queue to the file, or out of it. -/
structure Queued (s t : State R K S) (n : ℕ) : Prop where
  repeats : t.repeats = s.repeats
  buckets : t.buckets = s.buckets
  writes : t.writes = s.writes
  closed : t.closed = s.closed
  weight : weigh t.file + weigh t.pending + weigh t.dropped + t.lost + s.dropped.length =
    weigh s.file + weigh s.pending + weigh s.dropped + s.lost + t.dropped.length + n
  order : (s.file ++ s.pending).Sublist s.queued → (t.file ++ t.pending).Sublist t.queued

theorem Queued.refl (s : State R K S) : Queued s s 0 where
  repeats := rfl
  buckets := rfl
  writes := rfl
  closed := rfl
  weight := rfl
  order h := h

variable {n m : ℕ}

theorem Queued.trans (h : Queued s t n) (h' : Queued t u m) : Queued s u (n + m) where
  repeats := h'.repeats.trans h.repeats
  buckets := h'.buckets.trans h.buckets
  writes := h'.writes.trans h.writes
  closed := h'.closed.trans h.closed
  weight := by
    have hw := h.weight
    have hw' := h'.weight
    omega
  order ho := h'.order (h.order ho)

theorem Queued.trans_zero (h : Queued s t n) (h' : Queued t u 0) : Queued s u n := h.trans h'

/-- What follows does not concern the lines. -/
theorem Queued.then (h : Queued s t n) (hfile : u.file = t.file) (hpending : u.pending = t.pending)
    (hdropped : u.dropped = t.dropped) (hqueued : u.queued = t.queued) (hlost : u.lost = t.lost)
    (hrepeats : u.repeats = t.repeats) (hbuckets : u.buckets = t.buckets)
    (hwrites : u.writes = t.writes) (hclosed : u.closed = t.closed) : Queued s u n where
  repeats := hrepeats.trans h.repeats
  buckets := hbuckets.trans h.buckets
  writes := hwrites.trans h.writes
  closed := hclosed.trans h.closed
  weight := by
    rw [hfile, hpending, hdropped, hlost]
    exact h.weight
  order ho := by
    rw [hfile, hpending, hqueued]
    exact h.order ho

variable {r : State R K S × Bool} {f : State R K S → State R K S × Bool}

theorem queued_next (h : Queued s r.1 n) (hf : Queued r.1 (f r.1).1 0) : Queued s (State.next r f).1 n := by
  unfold State.next
  split
  · exact h.trans_zero hf
  · exact h

theorem queued_now (w : World R S) (s : State R K S) : Queued s (s.now w).2 0 :=
  (Queued.refl s).then rfl rfl rfl rfl rfl rfl rfl rfl rfl

theorem queued_access (s : State R K S) : Queued s (s.access w).1 0 :=
  (Queued.refl s).then rfl rfl rfl rfl rfl rfl rfl rfl rfl

theorem queued_syncDirty (s : State R K S) : Queued s (s.syncDirty w).1 0 :=
  queued_next (queued_access s) ((Queued.refl _).then rfl rfl rfl rfl rfl rfl rfl rfl rfl)

theorem queued_sync (s : State R K S) : Queued s (s.sync w).1 0 := by
  unfold State.sync
  split
  · exact queued_next (queued_access s) (queued_syncDirty _)
  · exact Queued.refl s

theorem queued_drop (s : State R K S) (line : Line R S) (hle : n ≤ (s.pending ++ [line]).length) :
    Queued s { s with
      pending := (s.pending ++ [line]).drop n
      lost := s.lost + n
      queued := s.queued ++ [line]
      dropped := s.dropped ++ (s.pending ++ [line]).take n } line.body.weight where
  repeats := rfl
  buckets := rfl
  writes := rfl
  closed := rfl
  weight := by
    have hsplit := congrArg weigh (take_append_drop n (s.pending ++ [line]))
    rw [weigh_append, weigh_append, weigh_singleton] at hsplit
    have hlen : ((s.pending ++ [line]).take n).length = n := length_take_of_le hle
    dsimp only
    rw [weigh_append s.dropped, length_append, hlen]
    omega
  order h := by
    have hdrop : (s.file ++ (s.pending ++ [line]).drop n).Sublist (s.file ++ (s.pending ++ [line])) :=
      List.Sublist.append_left (drop_sublist _ _) _
    refine hdrop.trans ?_
    rw [← append_assoc]
    exact List.Sublist.append_right h _

theorem queued_queue (s : State R K S) (line : Line R S) : Queued s (s.queue line) line.body.weight :=
  queued_drop s line (Nat.sub_le _ MAX_PENDING)

/-! ### A batch -/

/-- `s` goes to `r` by writing lines of the queue; if nothing was thrown, the first `n` were written. -/
structure Wrote (s : State R K S) (n : ℕ) (r : State R K S × Bool) : Prop where
  queued : Queued s r.1 0
  lost : r.1.lost = s.lost
  moved : ∃ k, r.1.file = s.file ++ s.pending.take k ∧ r.1.pending = s.pending.drop k
  all : r.2 = true → r.1.pending = s.pending.drop n

theorem Wrote.of_moved {k : ℕ} (hq : r.1.repeats = s.repeats ∧ r.1.buckets = s.buckets ∧
      r.1.writes = s.writes ∧ r.1.closed = s.closed ∧ r.1.dropped = s.dropped ∧ r.1.queued = s.queued ∧
      r.1.lost = s.lost) (hfile : r.1.file = s.file ++ s.pending.take k)
    (hpending : r.1.pending = s.pending.drop k) (hall : r.2 = true → r.1.pending = s.pending.drop n) :
    Wrote s n r := by
  obtain ⟨hrepeats, hbuckets, hwrites, hclosed, hdropped, hqueued, hlost⟩ := hq
  refine ⟨⟨hrepeats, hbuckets, hwrites, hclosed, ?_, ?_⟩, hlost, ⟨k, hfile, hpending⟩, hall⟩
  · have hsplit := congrArg weigh (take_append_drop k s.pending)
    rw [weigh_append] at hsplit
    rw [hfile, hpending, hdropped, hlost, weigh_append]
    omega
  · intro h
    rw [hfile, hpending, hqueued, append_assoc, take_append_drop]
    exact h

/-- An access that concerns no line. -/
theorem wrote_quiet (s : State R K S) (hq : r.1.repeats = s.repeats ∧ r.1.buckets = s.buckets ∧
      r.1.writes = s.writes ∧ r.1.closed = s.closed ∧ r.1.dropped = s.dropped ∧ r.1.queued = s.queued ∧
      r.1.lost = s.lost) (hfile : r.1.file = s.file) (hpending : r.1.pending = s.pending) :
    Wrote s 0 r :=
  Wrote.of_moved hq (by rw [hfile, take_zero, append_nil] : r.1.file = s.file ++ s.pending.take 0) hpending
    fun _ => hpending

theorem Wrote.next (h : Wrote s n r) (hf : r.2 = true → Wrote r.1 m (f r.1)) :
    Wrote s (n + m) (State.next r f) := by
  unfold State.next
  by_cases hok : r.2 = true
  · rw [if_pos hok]
    have hf := hf hok
    obtain ⟨k, hfile, hpending⟩ := h.moved
    obtain ⟨l, hfile', hpending'⟩ := hf.moved
    refine ⟨h.queued.trans_zero hf.queued, hf.lost.trans h.lost, ⟨k + l, ?_, ?_⟩, ?_⟩
    · rw [hfile', hfile, hpending, take_add, append_assoc]
    · rw [hpending', hpending, drop_drop]
    · intro hall
      rw [hf.all hall, h.all hok, drop_drop]
  · rw [if_neg hok]
    exact ⟨h.queued, h.lost, h.moved, fun hall => absurd hall hok⟩

theorem wrote_access (s : State R K S) : Wrote s 0 (s.access w) :=
  wrote_quiet s ⟨rfl, rfl, rfl, rfl, rfl, rfl, rfl⟩ rfl rfl

theorem wrote_syncDirty (s : State R K S) : Wrote s 0 (s.syncDirty w) :=
  (wrote_access s).next fun _ => (wrote_quiet _ ⟨rfl, rfl, rfl, rfl, rfl, rfl, rfl⟩ rfl rfl)

theorem wrote_syncWhen (s : State R K S) (b : Bool) : Wrote s 0 (if b then s.syncDirty w else (s, true)) := by
  cases b with
  | true => exact wrote_syncDirty s
  | false => exact wrote_quiet s ⟨rfl, rfl, rfl, rfl, rfl, rfl, rfl⟩ rfl rfl

theorem wrote_rotate (s : State R K S) : Wrote s 0 (s.rotate w) :=
  (wrote_syncDirty s).next fun _ => wrote_access _

theorem wrote_chunk {chunk rest : List (Line R S)} (h : s.pending = chunk ++ rest) :
    Wrote s chunk.length (s.writeChunk w chunk) := by
  unfold State.writeChunk
  by_cases hempty : chunk.isEmpty = true
  · rw [if_pos hempty, List.isEmpty_iff.mp hempty]
    exact wrote_quiet s ⟨rfl, rfl, rfl, rfl, rfl, rfl, rfl⟩ rfl rfl
  · rw [if_neg hempty]
    have hwritten : Wrote (s.access w).1 chunk.length
        (State.access w { (s.access w).1 with
          dirty := true, file := (s.access w).1.file ++ chunk, pending := (s.access w).1.pending.drop chunk.length }) := by
      refine Wrote.of_moved ⟨rfl, rfl, rfl, rfl, rfl, rfl, rfl⟩ ?_ rfl fun _ => rfl
      show s.file ++ chunk = s.file ++ s.pending.take chunk.length
      rw [h, take_left]
    have hboth : Wrote s (0 + chunk.length) (State.next (s.access w) fun s => State.access w { s with
        dirty := true, file := s.file ++ chunk, pending := s.pending.drop chunk.length }) :=
      (wrote_access s).next fun _ => hwritten
    rw [Nat.zero_add] at hboth
    exact hboth

theorem wrote_batchFrom {lines chunk rest : List (Line R S)} (chunkBytes size : ℕ)
    (h : s.pending = chunk ++ (lines ++ rest)) :
    Wrote s (chunk.length + lines.length) (State.batchFrom w lines chunk chunkBytes size s) := by
  induction lines generalizing s chunk chunkBytes size with
  | nil => exact wrote_chunk h
  | cons line lines ih =>
    unfold State.batchFrom
    by_cases hfull : size + chunkBytes > 0 ∧ size + chunkBytes + w.bytes line > s.maxBytes
    · rw [if_pos hfull]
      have hrotated := (wrote_chunk (w := w) h).next fun _ => wrote_rotate (w := w) _
      have hall : Wrote s (chunk.length + 0 + ([line].length + lines.length))
          (State.next (State.next (s.writeChunk w chunk) (State.rotate w))
            (State.batchFrom w lines [line] (w.bytes line) 0)) := by
        refine hrotated.next fun hok => ih (w.bytes line) 0 ?_
        rw [hrotated.all hok, h]
        exact drop_left
      have hlen : chunk.length + 0 + ([line].length + lines.length) = chunk.length + (line :: lines).length := by
        simp only [length_cons, length_nil]
        omega
      rw [hlen] at hall
      exact hall
    · grind

theorem wrote_appendBatch {lines rest : List (Line R S)} (durable : Bool) (h : s.pending = lines ++ rest) :
    Wrote s lines.length (s.appendBatch w lines durable) := by
  unfold State.appendBatch
  by_cases hempty : lines.isEmpty = true
  · rw [if_pos hempty, List.isEmpty_iff.mp hempty]
    exact wrote_quiet s ⟨rfl, rfl, rfl, rfl, rfl, rfl, rfl⟩ rfl rfl
  · rw [if_neg hempty]
    -- The lines are written from the start of the queue, after a rotation or not.
    have hbatch : ∀ (u : State R K S) (size : ℕ), u.pending = s.pending →
        Wrote u lines.length (State.batchFrom w lines [] 0 size u) := by
      intro u size hu
      have hall : Wrote u (([] : List (Line R S)).length + lines.length) (State.batchFrom w lines [] 0 size u) :=
        wrote_batchFrom 0 size (hu.trans h)
      rw [length_nil, Nat.zero_add] at hall
      exact hall
    suffices hall : Wrote s (0 + (lines.length + 0)) (State.next (s.access w) fun s =>
        State.next
          (if w.size s.accesses > 0 ∧ w.earlier s.accesses then State.next (s.rotate w) (State.batchFrom w lines [] 0 0)
            else State.batchFrom w lines [] 0 (w.size s.accesses) s)
          fun s => if durable && s.dirty then s.syncDirty w else (s, true)) by
      rw [Nat.zero_add, Nat.add_zero] at hall
      exact hall
    refine (wrote_access s).next fun _ => Wrote.next ?_ fun _ => ?_
    · split
      · have hrotate := wrote_rotate (w := w) (s.access w).1
        have hall := hrotate.next fun hok => hbatch _ 0 (hrotate.all hok)
        rw [Nat.zero_add] at hall
        exact hall
      · exact hbatch _ _ rfl
    · exact wrote_syncWhen _ _

theorem wrote_drainFrom (durable : Bool) (h : s.pending.length ≤ n) :
    Wrote s s.pending.length (s.drainFrom w durable n) := by
  induction n generalizing s with
  | zero =>
    have hzero : s.pending.length = 0 := Nat.le_zero.mp h
    rw [hzero]
    exact wrote_quiet s ⟨rfl, rfl, rfl, rfl, rfl, rfl, rfl⟩ rfl rfl
  | succ n ih =>
    unfold State.drainFrom
    by_cases hempty : s.pending.isEmpty = true
    · rw [if_pos hempty, List.isEmpty_iff.mp hempty]
      exact wrote_quiet s ⟨rfl, rfl, rfl, rfl, rfl, rfl, rfl⟩ rfl rfl
    · rw [if_neg hempty]
      have hpositive : 0 < s.pending.length := length_pos_iff.mpr fun hnil => hempty (List.isEmpty_iff.mpr hnil)
      have hbatch := wrote_appendBatch (w := w) (durable && s.pending.length ≤ MAX_BATCH)
        (take_append_drop MAX_BATCH s.pending).symm
      have hlen : (s.pending.take MAX_BATCH).length = min MAX_BATCH s.pending.length := length_take
      have hmax : 0 < MAX_BATCH := by decide
      set r := s.appendBatch w (s.pending.take MAX_BATCH) (durable && s.pending.length ≤ MAX_BATCH)
      by_cases hok : r.2 = true
      · have hpending := congrArg List.length (hbatch.all hok)
        rw [length_drop] at hpending
        have hall := hbatch.next fun _ => ih (s := r.1) (by omega)
        have hsum : (s.pending.take MAX_BATCH).length + r.1.pending.length = s.pending.length := by omega
        rw [hsum] at hall
        exact hall
      · unfold State.next
        rw [if_neg hok]
        exact ⟨hbatch.queued, hbatch.lost, hbatch.moved, fun hall => absurd hall hok⟩

theorem wrote_drain (w : World R S) (s : State R K S) (durable : Bool) : Wrote s s.pending.length (s.drain w durable) :=
  wrote_drainFrom durable (Nat.le_refl _)

variable {durable : Bool}

theorem drain_empty (h : (s.drain w durable).2 = true) : (s.drain w durable).1.pending = [] := by
  rw [(wrote_drain w s durable).all h, drop_length]

/-! ### A flush -/

theorem queued_enqueueFlushing (s : State R K S) (line : Line R S) :
    Queued s (s.enqueueFlushing w line) line.body.weight := by
  unfold State.enqueueFlushing
  dsimp only
  split
  · exact (queued_queue s line).trans_zero (queued_now w _)
  · exact queued_queue s line

/-- The state in which what was lost is reported, and the line. -/
def reporting (s : State R K S) : State R K S := { s with lost := 0, reads := s.reads + 1 }

def lostLine (w : World R S) (s : State R K S) : Line R S := ⟨w.clock s.reads, .suppressed s.lost 0 .sinkFailed none⟩

theorem reportLost_pos (durable : Bool) (h : s.lost > 0 ∧ (!s.closed) = true) :
    s.reportLost w durable = ((reporting s).enqueueFlushing w (lostLine w s)).drain w durable := by
  unfold State.reportLost
  rw [if_pos h]
  rfl

/-- What was lost is now in a line. -/
theorem queued_reportLost (s : State R K S) (durable : Bool) : Queued s (s.reportLost w durable).1 0 := by
  by_cases hlost : s.lost > 0 ∧ (!s.closed) = true
  · rw [reportLost_pos durable hlost]
    have henqueue : Queued (reporting s) ((reporting s).enqueueFlushing w (lostLine w s)) s.lost :=
      queued_enqueueFlushing (reporting s) (lostLine w s)
    have hqueued := henqueue.trans_zero
      (wrote_drain w ((reporting s).enqueueFlushing w (lostLine w s)) durable).queued
    generalize (((reporting s).enqueueFlushing w (lostLine w s)).drain w durable).1 = t at hqueued ⊢
    have hw := hqueued.weight
    refine ⟨hqueued.repeats, hqueued.buckets, hqueued.writes, hqueued.closed, ?_, hqueued.order⟩
    change _ + s.dropped.length = weigh s.file + weigh s.pending + weigh s.dropped + 0 + _ + s.lost at hw
    omega
  · unfold State.reportLost
    rw [if_neg hlost]
    exact Queued.refl s

theorem queued_flush (s : State R K S) (durable : Bool) : Queued s (s.flush w durable).1 0 := by
  refine queued_next (queued_next (queued_next (wrote_drain w s durable).queued (queued_reportLost _ durable)) ?_)
    ((Queued.refl _).then rfl rfl rfl rfl rfl rfl rfl rfl rfl)
  split
  · exact queued_sync _
  · exact Queued.refl _

theorem queued_autoFlush (s : State R K S) (durable : Bool) : Queued s (s.autoFlush w durable) 0 := by
  unfold State.autoFlush
  dsimp only
  split
  · exact queued_now w s
  · have hflush := (queued_now w s).trans_zero (queued_flush (w := w) (s.now w).2 durable)
    split
    · exact hflush
    · exact hflush.then rfl rfl rfl rfl rfl rfl rfl rfl rfl

theorem queued_enqueue (s : State R K S) (line : Line R S) : Queued s (s.enqueue w line) line.body.weight := by
  unfold State.enqueue
  dsimp only
  split
  · exact (queued_queue s line).trans_zero (queued_autoFlush _ true)
  · exact queued_queue s line

theorem queued_put (s : State R K S) (body : Body R S) : Queued s (s.put w body) body.weight := by
  have h := (queued_now w s).trans (queued_enqueue (w := w) (s.now w).2 ⟨(s.now w).1, body⟩)
  rw [Nat.zero_add] at h
  exact h

theorem queued_emitInternal (s : State R K S) (rs : List R) : Queued s (s.emitInternal w rs) 0 := by
  unfold State.emitInternal
  split
  · exact Queued.refl s
  · clear * -
    induction rs generalizing s with
    | nil => exact Queued.refl s
    | cons r rs ih =>
      rw [foldl_cons]
      exact (queued_put s (.internal r)).trans_zero (ih _)

theorem queued_summarize (s : State R K S) (r : Repeat R) : Queued s (s.summarize w r) (r.count - 1) := by
  unfold State.summarize
  split
  · exact queued_put s (.again r.record r.count)
  · next hcount =>
    rw [Nat.sub_eq_zero_of_le (Nat.not_lt.mp hcount)]
    exact Queued.refl s

/-! ### A flush that succeeds -/

theorem next_ok (h : (State.next r f).2 = true) :
    r.2 = true ∧ (f r.1).2 = true ∧ State.next r f = f r.1 := by
  unfold State.next at h ⊢
  by_cases hok : r.2 = true
  · rw [if_pos hok] at h ⊢
    exact ⟨hok, h, rfl⟩
  · rw [if_neg hok] at h
    exact absurd h hok

theorem lost_enqueueFlushing {line : Line R S} (hpending : s.pending = []) :
    (s.enqueueFlushing w line).lost = s.lost := by
  have hqueue : (s.queue line).lost = s.lost := by
    have hroom : (s.pending ++ [line]).length ≤ MAX_PENDING := by
      rw [hpending]
      show 1 ≤ MAX_PENDING
      decide
    show s.lost + ((s.pending ++ [line]).length - MAX_PENDING) = s.lost
    rw [Nat.sub_eq_zero_of_le hroom, Nat.add_zero]
  unfold State.enqueueFlushing
  dsimp only
  split
  · exact hqueue
  · exact hqueue

theorem wrote_sync (s : State R K S) : Wrote s 0 (s.sync w) := by
  unfold State.sync
  split
  · exact (wrote_access s).next fun _ => wrote_syncDirty _
  · exact wrote_quiet s ⟨rfl, rfl, rfl, rfl, rfl, rfl, rfl⟩ rfl rfl

/-- Nothing is left in the queue, and what was lost is reported. -/
theorem flush_done (hclosed : s.closed = false) (h : (s.flush w durable).2 = true) :
    (s.flush w durable).1.pending = [] ∧ (s.flush w durable).1.lost = 0 := by
  unfold State.flush at h ⊢
  obtain ⟨h, -, heq⟩ := next_ok h
  rw [heq]
  obtain ⟨h, hsync, heq⟩ := next_ok h
  rw [heq]
  obtain ⟨hdrain, hreport, heq⟩ := next_ok h
  rw [heq]
  have hempty := drain_empty hdrain
  have hopen : (s.drain w durable).1.closed = false := (wrote_drain w s durable).queued.closed.trans hclosed
  have hreported : ((s.drain w durable).1.reportLost w durable).1.pending = [] ∧
      ((s.drain w durable).1.reportLost w durable).1.lost = 0 := by
    generalize (s.drain w durable).1 = u at hempty hopen hreport ⊢
    by_cases hlost : u.lost > 0 ∧ (!u.closed) = true
    · rw [reportLost_pos durable hlost] at hreport ⊢
      refine ⟨drain_empty hreport, ?_⟩
      have hlast : ((reporting u).enqueueFlushing w (lostLine w u)).lost = (reporting u).lost :=
        lost_enqueueFlushing hempty
      rw [(wrote_drain w _ durable).lost, hlast]
      rfl
    · have hzero : u.lost = 0 := by
        rw [hopen] at hlost
        simpa using hlost
      unfold State.reportLost
      rw [if_neg hlost]
      exact ⟨hempty, hzero⟩
  generalize ((s.drain w durable).1.reportLost w durable).1 = u at hreported ⊢
  have hquiet : Wrote u 0 (if durable then u.sync w else (u, true)) := by
    split
    · exact wrote_sync u
    · exact wrote_quiet u ⟨rfl, rfl, rfl, rfl, rfl, rfl, rfl⟩ rfl rfl
  obtain ⟨k, -, hpending⟩ := hquiet.moved
  exact ⟨by rw [hpending, hreported.1]; exact drop_nil, hquiet.lost.trans hreported.2⟩

/-- After the close there is nothing to flush. -/
theorem flush_closed (hclosed : s.closed = true) (hpending : s.pending = []) :
    (s.flush w durable).1.pending = [] ∧ (s.flush w durable).1.lost = s.lost := by
  have hdrain : s.drain w durable = (s, true) := by
    unfold State.drain
    rw [hpending]
    rfl
  have hreport : s.reportLost w durable = (s, true) := by
    unfold State.reportLost
    rw [if_neg fun h => by rw [hclosed] at h; exact absurd h.2 (by decide)]
  have hquiet : Wrote s 0 (if durable then s.sync w else (s, true)) := by
    split
    · exact wrote_sync s
    · exact wrote_quiet s ⟨rfl, rfl, rfl, rfl, rfl, rfl, rfl⟩ rfl rfl
  have hflush : s.flush w durable = State.next (if durable then s.sync w else (s, true))
      fun s => ({ s with retryAt := 0 }, true) := by
    unfold State.flush
    rw [hdrain]
    show State.next (State.next (s.reportLost w durable) _) _ = _
    rw [hreport]
    rfl
  have hall := hquiet.next (f := fun s => ({ s with retryAt := 0 }, true)) fun _ =>
    wrote_quiet _ ⟨rfl, rfl, rfl, rfl, rfl, rfl, rfl⟩ rfl rfl
  rw [hflush]
  obtain ⟨k, -, hmoved⟩ := hall.moved
  exact ⟨by rw [hmoved, hpending]; exact drop_nil, hall.lost⟩

end Plur1bus.Logs.Writer
