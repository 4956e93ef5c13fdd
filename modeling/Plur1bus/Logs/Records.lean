import Plur1bus.Logs.Account

/-!
Every record is accounted for as long as what the full queue drops stands for one record a line. What
a record becomes is followed through `emit`, the timer and `close`; the books balance after every step
of the writer.
-/

namespace Plur1bus.Logs.Writer

open List

variable {R K S : Type} {w : World R S} {s t u : State R K S}

/-- The records that repeats count and no line stands for. -/
def waiting (repeats : List (K × Repeat R)) : ℕ := (repeats.map fun e => e.2.count - 1).sum

/-- The records that buckets have dropped since they were last reported. -/
def held (buckets : List (S × Bucket)) : ℕ := (buckets.map fun e => e.2.dropped).sum

/-- Of the records that were written, `n` are yet to be put somewhere. -/
structure Books (s : State R K S) (n : ℕ) : Prop where
  balance : weigh s.file + weigh s.pending + weigh s.dropped + s.lost + waiting s.repeats + held s.buckets + n =
    s.writes + s.dropped.length
  order : (s.file ++ s.pending).Sublist s.queued
  counted : ∀ e ∈ s.repeats, 1 ≤ e.2.count

/-- Nothing waits to be written. -/
structure Clean (s : State R K S) : Prop where
  pending : s.pending = []
  lost : s.lost = 0
  repeats : s.repeats = []
  buckets : ∀ e ∈ s.buckets, e.2.dropped = 0

theorem waiting_append (as bs : List (K × Repeat R)) : waiting (as ++ bs) = waiting as + waiting bs := by
  unfold waiting
  rw [map_append, sum_append]

theorem waiting_cons (e : K × Repeat R) (es : List (K × Repeat R)) :
    waiting (e :: es) = e.2.count - 1 + waiting es := by
  unfold waiting
  rw [map_cons, sum_cons]

theorem held_cons (e : S × Bucket) (es : List (S × Bucket)) : held (e :: es) = e.2.dropped + held es := by
  unfold held
  rw [map_cons, sum_cons]

variable {buckets : List (S × Bucket)}

theorem held_eq_zero (h : ∀ e ∈ buckets, e.2.dropped = 0) : held buckets = 0 := by
  induction buckets with
  | nil => rfl
  | cons e es ih =>
    rw [held_cons, h e mem_cons_self, ih fun x hx => h x (mem_cons_of_mem e hx)]

/-- Records for `m` of those that are yet to be put somewhere were queued. -/
theorem Books.queued {n m : ℕ} (h : Books s (n + m)) (hq : Queued s t m) : Books t n where
  balance := by
    have hb := h.balance
    have hw := hq.weight
    rw [hq.repeats, hq.buckets, hq.writes]
    omega
  order := hq.order h.order
  counted := by
    rw [hq.repeats]
    exact h.counted

theorem Books.queued_zero {n : ℕ} (h : Books s n) (hq : Queued s t 0) : Books t n := Books.queued (m := 0) h hq

/-- The repeats change, and `n` of the records that wait with them. -/
theorem Books.setRepeats {n m : ℕ} {repeats : List (K × Repeat R)} (h : Books s n)
    (hsum : waiting s.repeats + n = waiting repeats + m) (hcounted : ∀ e ∈ repeats, 1 ≤ e.2.count) :
    Books ({ s with repeats := repeats } : State R K S) m where
  balance := by
    have hb := h.balance
    dsimp only
    omega
  order := h.order
  counted := hcounted

theorem Books.setBuckets {n m : ℕ} (h : Books s n) (hsum : held s.buckets + n = held buckets + m) :
    Books ({ s with buckets := buckets } : State R K S) m where
  balance := by
    have hb := h.balance
    dsimp only
    omega
  order := h.order
  counted := h.counted

/-! ### Repeats and buckets -/

theorem refill_spec (s : State R K S) (b : Bucket) :
    Queued s (s.refill w b).2 0 ∧ (s.refill w b).1.dropped = b.dropped :=
  ⟨(queued_now w s).trans_zero (queued_now w _), rfl⟩

theorem books_evict {n : ℕ} (h : Books s n) : Books (s.evict w) n := by
  unfold State.evict
  split
  · cases hr : s.repeats with
    | nil => exact h
    | cons e es =>
      have hq := queued_summarize (w := w) s e.2
      have hsum : waiting s.repeats = e.2.count - 1 + waiting es := by rw [hr, waiting_cons]
      have hrepeats : (s.summarize w e.2).repeats.drop 1 = es := by
        rw [hq.repeats, hr]
        rfl
      have hcounted : ∀ e ∈ es, 1 ≤ e.2.count := fun x hx => h.counted x (by rw [hr]; exact mem_cons_of_mem e hx)
      dsimp only
      rw [hrepeats]
      refine ⟨?_, hq.order h.order, hcounted⟩
      have hb := h.balance
      have hw := hq.weight
      dsimp only
      rw [hq.buckets, hq.writes]
      omega
  · exact h

section

variable [DecidableEq K]

variable {repeats : List (K × Repeat R)} {e : K × Repeat R}

theorem waiting_eraseP {key : K} (h : (repeats.find? fun e => e.1 = key) = some e) :
    waiting repeats = e.2.count - 1 + waiting (repeats.eraseP fun e => e.1 = key) := by
  induction repeats with
  | nil => cases h
  | cons a as ih =>
    by_cases ha : a.1 = key
    · rw [List.find?_cons_of_pos (by simpa using ha)] at h
      cases h
      rw [eraseP_cons_of_pos (by simpa using ha), waiting_cons]
    · rw [List.find?_cons_of_neg (by simpa using ha)] at h
      rw [eraseP_cons_of_neg (by simpa using ha), waiting_cons, waiting_cons, ih h]
      omega

theorem waiting_recount {key : K} (h : (repeats.find? fun e => e.1 = key) = some e)
    (hcounted : ∀ e ∈ repeats, 1 ≤ e.2.count) :
    waiting (State.recount key repeats) = waiting repeats + 1 ∧
      ∀ e ∈ State.recount key repeats, 1 ≤ e.2.count := by
  induction repeats with
  | nil => cases h
  | cons a as ih =>
    have hfirst := hcounted a mem_cons_self
    have hrest : ∀ e ∈ as, 1 ≤ e.2.count := fun e he => hcounted e (mem_cons_of_mem a he)
    unfold State.recount
    by_cases ha : a.1 = key
    · rw [if_pos ha, waiting_cons, waiting_cons]
      refine ⟨?_, ?_⟩
      · dsimp only
        omega
      · grind
    · rw [List.find?_cons_of_neg (by simpa using ha)] at h
      obtain ⟨hsum, hmore⟩ := ih h hrest
      rw [if_neg ha, waiting_cons, waiting_cons, hsum]
      refine ⟨by omega, ?_⟩
      intro e he
      obtain rfl | he := mem_cons.mp he
      · exact hfirst
      · exact hmore e he

end

section

variable [DecidableEq S]

/-- What the bucket of a source has dropped. -/
def droppedBy (source : S) (buckets : List (S × Bucket)) : ℕ :=
  ((buckets.find? fun e => e.1 = source).map fun e => e.2.dropped).getD 0

theorem held_setBucket (b : Bucket) (source : S) (buckets : List (S × Bucket)) :
    held (State.setBucket b source buckets) + droppedBy source buckets = held buckets + b.dropped := by
  induction buckets with
  | nil =>
    show held [(source, b)] + 0 = 0 + b.dropped
    rw [held_cons]
    show b.dropped + 0 + 0 = 0 + b.dropped
    omega
  | cons a as ih =>
    have hset : State.setBucket b source (a :: as) =
        if a.1 = source then (source, b) :: as else a :: State.setBucket b source as := rfl
    rw [hset]
    unfold droppedBy at ih ⊢
    by_cases ha : a.1 = source
    · rw [if_pos ha, List.find?_cons_of_pos (by simpa using ha), held_cons, held_cons]
      simp only [Option.map_some, Option.getD_some]
      omega
    · rw [if_neg ha, List.find?_cons_of_neg (by simpa using ha), held_cons, held_cons]
      omega

theorem bucketOf_spec (s : State R K S) (source : S) :
    Queued s (s.bucketOf w source).2 0 ∧ (s.bucketOf w source).1.dropped = droppedBy source s.buckets := by
  unfold State.bucketOf droppedBy
  cases s.buckets.find? fun e => e.1 = source with
  | none => exact ⟨(queued_now w s).trans_zero (queued_now w _), rfl⟩
  | some e => exact ⟨Queued.refl s, rfl⟩

end

/-! ### A record of somebody else -/

theorem closed_evict (s : State R K S) : (s.evict w).closed = s.closed := by
  unfold State.evict
  split
  · cases s.repeats with
    | nil => rfl
    | cons e es => exact (queued_summarize s e.2).closed
  · rfl

section

variable [DecidableEq S]

variable {x : Write R K S} {ts : ℤ}

theorem closed_allow : (s.allow w x ts).closed = s.closed := by
  unfold State.allow
  dsimp only
  have hbucket := (bucketOf_spec (w := w) s x.source).1.closed
  generalize s.bucketOf w x.source = found at hbucket ⊢
  have hrefill := (refill_spec (w := w) found.2 found.1).1.closed
  generalize found.2.refill w found.1 = filled at hrefill ⊢
  split
  · exact hrefill.trans hbucket
  · have hevicted := closed_evict (w := w) ({ filled.2 with
      buckets := State.setBucket (if x.bypassRate = true then filled.1 else { filled.1 with tokens := filled.1.tokens - 1 })
        x.source filled.2.buckets } : State R K S)
    generalize State.evict w _ = u at hevicted ⊢
    have hline := (queued_enqueue (w := w) u ⟨ts, .record x.record⟩).closed
    generalize u.enqueue w ⟨ts, .record x.record⟩ = v at hline ⊢
    exact (hline.trans hevicted).trans (hrefill.trans hbucket)

theorem books_allow (h : Books s 1) : Books (s.allow w x ts) 0 := by
  obtain ⟨hbucket, hdropped⟩ := bucketOf_spec (w := w) s x.source
  unfold State.allow
  dsimp only
  generalize s.bucketOf w x.source = found at hbucket hdropped ⊢
  obtain ⟨hrefill, hsame⟩ := refill_spec (w := w) found.2 found.1
  generalize found.2.refill w found.1 = filled at hrefill hsame ⊢
  have hq := hbucket.trans_zero hrefill
  have hfilled : Books filled.2 1 := h.queued_zero hq
  have hold : filled.1.dropped = droppedBy x.source filled.2.buckets := by
    rw [hsame, hdropped, hq.buckets]
  split
  · -- The bucket is empty and counts the record.
    refine hfilled.setBuckets ?_
    have hsum := held_setBucket { filled.1 with dropped := filled.1.dropped + 1 } x.source filled.2.buckets
    dsimp only at hsum
    omega
  · have hset : ∀ b : Bucket, b.dropped = filled.1.dropped →
        Books ({ filled.2 with buckets := State.setBucket b x.source filled.2.buckets } : State R K S) 1 := by
      intro b hb
      refine hfilled.setBuckets ?_
      have hsum := held_setBucket b x.source filled.2.buckets
      omega
    have hb : (if x.bypassRate = true then filled.1 else { filled.1 with tokens := filled.1.tokens - 1 }).dropped =
        filled.1.dropped := by
      split
      · rfl
      · rfl
    have hevicted := books_evict (w := w) (hset _ hb)
    generalize State.evict w _ = u at hevicted ⊢
    have hline : Books (u.enqueue w ⟨ts, .record x.record⟩) 0 :=
      Books.queued hevicted (queued_enqueue u ⟨ts, .record x.record⟩)
    have hread := hline.queued_zero (queued_now w _)
    generalize State.now w _ = read at hread ⊢
    have hone : waiting [(x.key, (⟨x.record, read.1, 1⟩ : Repeat R))] = 0 := rfl
    refine hread.setRepeats ?_ ?_
    · rw [waiting_append, hone]
    · intro e he
      obtain he | he := mem_append.mp he
      · exact hread.counted e he
      · rw [mem_singleton.mp he]

variable [DecidableEq K]

theorem books_emit (h : Books s 0) : Books (s.emit w x) 0 := by
  have hwritten : Books ({ s with writes := s.writes + 1 } : State R K S) 1 := by
    refine ⟨?_, h.order, h.counted⟩
    have hb := h.balance
    dsimp only
    omega
  unfold State.emit
  dsimp only
  have hread := hwritten.queued_zero (queued_now w _)
  generalize State.now w ({ s with writes := s.writes + 1 } : State R K S) = read at hread ⊢
  split
  · exact Books.queued hread (queued_enqueue read.2 ⟨read.1, .record x.record⟩)
  · cases hfind : read.2.repeats.find? fun e => e.1 = x.key with
    | none => exact books_allow hread
    | some e =>
      have hagain := hread.queued_zero (queued_now w _)
      have hrepeats : (read.2.now w).2.repeats = read.2.repeats := rfl
      dsimp only
      generalize read.2.now w = again at hagain hrepeats ⊢
      rw [← hrepeats] at hfind
      split
      · -- The record is the same as one that was just written.
        obtain ⟨hsum, hcounted⟩ := waiting_recount hfind hagain.counted
        refine hagain.setRepeats ?_ hcounted
        omega
      · have hq := queued_summarize (w := w) again.2 e.2
        have hsum := waiting_eraseP hfind
        refine books_allow ⟨?_, hq.order hagain.order, ?_⟩
        · have hb := hagain.balance
          have hw := hq.weight
          dsimp only
          rw [hq.buckets, hq.writes, hq.repeats]
          omega
        · intro x hx
          dsimp only at hx
          rw [hq.repeats] at hx
          exact hagain.counted x (mem_of_mem_eraseP hx)

theorem closed_emit : (s.emit w x).closed = s.closed := by
  unfold State.emit
  dsimp only
  split
  · exact (queued_enqueue _ _).closed
  · split
    · split
      · rfl
      · rw [closed_allow]
        exact (queued_summarize _ _).closed
    · rw [closed_allow]
      rfl

variable {levels : List R} {p : Prepared R K S}

theorem closed_write : (s.write w levels p).closed = s.closed := by
  unfold State.write
  split
  · rfl
  · have hlevels := (queued_emitInternal (w := w) s levels).closed
    cases p with
    | throws => exact hlevels
    | silent => exact hlevels
    | «instead» r => exact (queued_emitInternal _ [r]).closed.trans hlevels
    | accepted x => exact closed_emit.trans hlevels

theorem books_write (h : Books s 0) : Books (s.write w levels p) 0 := by
  unfold State.write
  split
  · exact h
  · have hlevels := h.queued_zero (queued_emitInternal (w := w) s levels)
    cases p with
    | throws => exact hlevels
    | silent => exact hlevels
    | «instead» r => exact hlevels.queued_zero (queued_emitInternal _ [r])
    | accepted x => exact books_emit hlevels

end

variable {levels : List R} {durable : Bool}

theorem books_writeLegacy {r other : Option R} (h : Books s 0) :
    Books (s.writeLegacy w levels r other durable) 0 := by
  unfold State.writeLegacy
  split
  · exact h
  · have hlevels := h.queued_zero (queued_emitInternal (w := w) s levels)
    dsimp only
    generalize s.emitInternal w levels = t at hlevels ⊢
    cases r with
    | none => exact hlevels
    | some r =>
      cases other with
      | some r' => exact hlevels.queued_zero (queued_emitInternal _ [r'])
      | none =>
        have hwritten : Books ({ t with writes := t.writes + 1 } : State R K S) 1 := by
          refine ⟨?_, hlevels.order, hlevels.counted⟩
          have hb := hlevels.balance
          dsimp only
          omega
        have hread := hwritten.queued_zero (queued_now w _)
        have hline : Books (State.queue _ (⟨w.clock t.reads, .legacy r⟩ : Line R S)) 0 :=
          Books.queued hread (queued_queue _ _)
        exact hline.queued_zero (queued_autoFlush _ durable)

theorem closed_writeLegacy {r other : Option R} :
    (s.writeLegacy w levels r other durable).closed = s.closed := by
  unfold State.writeLegacy
  split
  · rfl
  · have hlevels := (queued_emitInternal (w := w) s levels).closed
    cases r with
    | none => exact hlevels
    | some r =>
      cases other with
      | some r' => exact (queued_emitInternal _ [r']).closed.trans hlevels
      | none => exact ((queued_autoFlush _ durable).closed.trans (queued_queue _ _).closed).trans hlevels

/-! ### The timer -/

theorem tickRepeats_spec (w : World R S) (force : Bool) (repeats : List (K × Repeat R)) (s : State R K S) :
    ∃ n, Queued s (s.tickRepeats w force repeats).2 n ∧
      waiting (s.tickRepeats w force repeats).1 + n = waiting repeats ∧
      (∀ e ∈ (s.tickRepeats w force repeats).1, e ∈ repeats) ∧
      (force = true → (s.tickRepeats w force repeats).1 = []) := by
  induction repeats generalizing s with
  | nil => exact ⟨0, Queued.refl s, rfl, fun e he => he, fun _ => rfl⟩
  | cons e es ih =>
    -- The repeat is summarized, after the clock was read or not.
    have hdue : ∀ (t : State R K S), Queued s t 0 → ∃ n,
        Queued s ((t.summarize w e.2).tickRepeats w force es).2 n ∧
        waiting ((t.summarize w e.2).tickRepeats w force es).1 + n = waiting (e :: es) ∧
        (∀ x ∈ ((t.summarize w e.2).tickRepeats w force es).1, x ∈ e :: es) ∧
        (force = true → ((t.summarize w e.2).tickRepeats w force es).1 = []) := by
      intro t ht
      obtain ⟨n, hq, hsum, hmem, hforce⟩ := ih (t.summarize w e.2)
      have hall := (ht.trans (queued_summarize t e.2)).trans hq
      refine ⟨_, hall, ?_, fun x hx => mem_cons_of_mem e (hmem x hx), hforce⟩
      rw [waiting_cons]
      omega
    unfold State.tickRepeats
    by_cases hf : force = true
    · rw [if_pos hf]
      exact hdue s (Queued.refl s)
    · rw [if_neg hf]
      have hread := queued_now w s
      generalize s.now w = read at hread ⊢
      dsimp only
      split
      · exact hdue read.2 hread
      · obtain ⟨n, hq, hsum, hmem, -⟩ := ih read.2
        refine ⟨0 + n, hread.trans hq, ?_, ?_, fun h => absurd h hf⟩
        · dsimp only
          rw [waiting_cons, waiting_cons]
          omega
        · simp_all

theorem report_spec (s : State R K S) (e : S × Bucket) :
    Queued s (s.report w e).2 e.2.dropped ∧ (s.report w e).1.2.dropped = 0 := by
  unfold State.report
  dsimp only
  have hread := queued_now w s
  generalize s.now w = read at hread ⊢
  have hput : Queued read.2 (read.2.put w (.suppressed e.2.dropped (max 0 (read.1 - e.2.start)) .rateLimit (some e.1)))
      e.2.dropped := queued_put read.2 _
  have hall := (hread.trans hput).trans_zero (queued_now w _)
  rw [Nat.zero_add] at hall
  exact ⟨hall, rfl⟩

theorem tickBuckets_spec (w : World R S) (force : Bool) (buckets : List (S × Bucket)) (s : State R K S) :
    ∃ n, Queued s (s.tickBuckets w force buckets).2 n ∧ held (s.tickBuckets w force buckets).1 + n = held buckets ∧
      (force = true → ∀ e ∈ (s.tickBuckets w force buckets).1, e.2.dropped = 0) := by
  induction buckets generalizing s with
  | nil => exact ⟨0, Queued.refl s, rfl, fun _ e he => absurd he not_mem_nil⟩
  | cons e es ih =>
    unfold State.tickBuckets
    -- One bucket: what it does not hold any more is in a line.
    have hone : ∃ n, Queued s (if e.2.dropped = 0 then (e, s) else if force = true then s.report w e
          else if (s.now w).1 - e.2.start ≥ 1000 then (s.now w).2.report w e else (e, (s.now w).2)).2 n ∧
        (if e.2.dropped = 0 then (e, s) else if force = true then s.report w e
          else if (s.now w).1 - e.2.start ≥ 1000 then (s.now w).2.report w e else (e, (s.now w).2)).1.2.dropped + n =
          e.2.dropped ∧
        (force = true → (if e.2.dropped = 0 then (e, s) else if force = true then s.report w e
          else if (s.now w).1 - e.2.start ≥ 1000 then (s.now w).2.report w e
          else (e, (s.now w).2)).1.2.dropped = 0) := by
      by_cases hzero : e.2.dropped = 0
      · rw [if_pos hzero]
        exact ⟨0, Queued.refl s, rfl, fun _ => hzero⟩
      · rw [if_neg hzero]
        by_cases hf : force = true
        · rw [if_pos hf]
          obtain ⟨hq, hnone⟩ := report_spec (w := w) s e
          exact ⟨_, hq, by rw [hnone, Nat.zero_add], fun _ => hnone⟩
        · rw [if_neg hf]
          have hread := queued_now w s
          generalize s.now w = read at hread ⊢
          split
          · obtain ⟨hq, hnone⟩ := report_spec (w := w) read.2 e
            exact ⟨_, hread.trans hq, by rw [hnone, Nat.zero_add, Nat.zero_add], fun h => absurd h hf⟩
          · exact ⟨0, hread, rfl, fun h => absurd h hf⟩
    dsimp only
    generalize (if e.2.dropped = 0 then (e, s) else if force = true then s.report w e
      else if (s.now w).1 - e.2.start ≥ 1000 then (s.now w).2.report w e else (e, (s.now w).2)) = r at hone ⊢
    obtain ⟨n, hq, hsum, hforce⟩ := hone
    obtain ⟨m, hq', hsum', hforce'⟩ := ih r.2
    refine ⟨n + m, hq.trans hq', ?_, ?_⟩
    · rw [held_cons, held_cons]
      omega
    · intro hf x hx
      obtain rfl | hx := mem_cons.mp hx
      · exact hforce hf
      · exact hforce' hf x hx

theorem queued_prune (s : State R K S) (record : ℕ → R) : Queued s (s.prune w record).1 0 := by
  unfold State.prune
  refine queued_next (queued_access s) ?_
  split
  · exact queued_emitInternal _ _
  · exact Queued.refl _

theorem books_tick (w : World R S) (record : ℕ → R) (force : Bool) (levels : List R) (h : Books s 0) :
    Books (s.tick w record force levels).1 0 ∧ (s.tick w record force levels).1.closed = s.closed ∧
      (force = true → (s.tick w record force levels).1.repeats = [] ∧
        ∀ e ∈ (s.tick w record force levels).1.buckets, e.2.dropped = 0) := by
  unfold State.tick
  dsimp only
  obtain ⟨n, hq, hsum, hmem, hforce⟩ := tickRepeats_spec w force s.repeats s
  generalize s.tickRepeats w force s.repeats = first at hq hsum hmem hforce ⊢
  have hfirst : Books ({ first.2 with repeats := first.1 } : State R K S) 0 := by
    refine ⟨?_, hq.order h.order, fun e he => h.counted e (hmem e he)⟩
    have hb := h.balance
    have hw := hq.weight
    dsimp only
    rw [hq.buckets, hq.writes]
    omega
  obtain ⟨m, hq', hsum', hforce'⟩ := tickBuckets_spec w force first.2.buckets ({ first.2 with repeats := first.1 } : State R K S)
  generalize State.tickBuckets w force first.2.buckets ({ first.2 with repeats := first.1 } : State R K S) = second at hq' hsum' hforce' ⊢
  have hsecond : Books ({ second.2 with buckets := second.1 } : State R K S) 0 := by
    refine ⟨?_, hq'.order hfirst.order, ?_⟩
    · have hb := hfirst.balance
      have hw := hq'.weight
      dsimp only at hb ⊢
      rw [hq'.repeats, hq'.writes]
      dsimp only at hw ⊢
      omega
    · dsimp only
      rw [hq'.repeats]
      exact hfirst.counted
  have hrest : ∀ {u : State R K S}, Queued ({ second.2 with buckets := second.1 } : State R K S) u 0 →
      Books u 0 ∧ u.closed = s.closed ∧
        (force = true → u.repeats = [] ∧ ∀ e ∈ u.buckets, e.2.dropped = 0) := by
    intro u hu
    refine ⟨hsecond.queued_zero hu, hu.closed.trans (hq'.closed.trans hq.closed), fun hf => ⟨?_, ?_⟩⟩
    · rw [hu.repeats]
      exact hq'.repeats.trans (hforce hf)
    · rw [hu.buckets]
      exact hforce' hf
  have hread := (queued_emitInternal (w := w) ({ second.2 with buckets := second.1 } : State R K S) levels).trans_zero
    (queued_now w _)
  split
  · exact hrest (queued_next (hread.trans_zero (queued_prune _ record))
      ((Queued.refl _).then rfl rfl rfl rfl rfl rfl rfl rfl rfl))
  · exact hrest hread

/-! ### Runs -/

/-- The books balance, and after the close nothing waits to be written. -/
structure Settled (s : State R K S) : Prop where
  books : Books s 0
  clean : s.closed = true → Clean s

theorem emitInternal_closed (rs : List R) (hclosed : s.closed = true) : s.emitInternal w rs = s := if_pos hclosed

theorem tickBuckets_clean (w : World R S) (force : Bool) (h : ∀ e ∈ buckets, e.2.dropped = 0)
    (s : State R K S) : s.tickBuckets w force buckets = (buckets, s) := by
  induction buckets with
  | nil => rfl
  | cons e es ih =>
    unfold State.tickBuckets
    rw [if_pos (h e mem_cons_self)]
    dsimp only
    rw [ih fun x hx => h x (mem_cons_of_mem e hx)]

variable {record : ℕ → R}

theorem clean_tick {force : Bool} (h : Clean s) (hclosed : s.closed = true) :
    Clean (s.tick w record force levels).1 := by
  have hsame : ∀ {u : State R K S}, u.pending = s.pending → u.lost = s.lost → u.repeats = [] → u.buckets = s.buckets →
      Clean u := by
    intro u hpending hlost hrepeats hbuckets
    refine ⟨hpending.trans h.pending, hlost.trans h.lost, hrepeats, ?_⟩
    rw [hbuckets]
    exact h.buckets
  have hprune : ∀ u : State R K S, u.closed = true → (u.prune w record).1 = (u.access w).1 := by
    intro u hu
    unfold State.prune State.next
    split
    · dsimp only
      split
      · exact emitInternal_closed _ hu
      · rfl
    · rfl
  unfold State.tick
  rw [h.repeats]
  dsimp only [State.tickRepeats]
  rw [tickBuckets_clean w force h.buckets]
  dsimp only
  rw [emitInternal_closed levels]
  swap
  · exact hclosed
  have hread : ∀ u : State R K S, (u.now w).2.pending = u.pending ∧ (u.now w).2.lost = u.lost ∧
      (u.now w).2.repeats = u.repeats ∧ (u.now w).2.buckets = u.buckets ∧ (u.now w).2.closed = u.closed :=
    fun u => ⟨rfl, rfl, rfl, rfl, rfl⟩
  obtain ⟨hpending, hlost, hrepeats, hbuckets, hopen⟩ := hread ({ s with repeats := [] } : State R K S)
  generalize State.now w ({ s with repeats := [] } : State R K S) = read at hpending hlost hrepeats hbuckets hopen ⊢
  split
  · unfold State.next
    split
    · dsimp only
      rw [hprune _ (hopen.trans hclosed)]
      exact hsame hpending hlost hrepeats hbuckets
    · rw [hprune _ (hopen.trans hclosed)]
      exact hsame hpending hlost hrepeats hbuckets
  · exact hsame hpending hlost hrepeats hbuckets

theorem clean_flush (h : Clean s) (hclosed : s.closed = true) : Clean (s.flush w durable).1 := by
  obtain ⟨hpending, hlost⟩ : (s.flush w durable).1.pending = [] ∧ (s.flush w durable).1.lost = s.lost :=
    flush_closed hclosed h.pending
  have hq := queued_flush (w := w) s durable
  refine ⟨hpending, hlost.trans h.lost, hq.repeats.trans h.repeats, ?_⟩
  rw [hq.buckets]
  exact h.buckets

theorem settled_flush (w : World R S) (durable : Bool) (h : Settled s) : Settled (s.flush w durable).1 where
  books := h.books.queued_zero (queued_flush s durable)
  clean hclosed := by
    have hwas : s.closed = true := (queued_flush (w := w) s durable).closed.symm.trans hclosed
    exact clean_flush (h.clean hwas) hwas

theorem settled_tick (w : World R S) (record : ℕ → R) (force : Bool) (levels : List R) (h : Settled s) :
    Settled (s.tick w record force levels).1 := by
  obtain ⟨hbooks, hsame, -⟩ := books_tick w record force levels h.books
  refine ⟨hbooks, fun hclosed => ?_⟩
  have hwas : s.closed = true := hsame.symm.trans hclosed
  exact clean_tick (h.clean hwas) hwas

theorem settled_next {r : State R K S × Bool} {f : State R K S → State R K S × Bool} (h : Settled r.1)
    (hf : Settled (f r.1).1) : Settled (State.next r f).1 := by
  unfold State.next
  split
  · exact hf
  · exact h

theorem settled_close (h : Settled s) : Settled (s.close w record levels).1 := by
  unfold State.close
  by_cases hclosed : s.closed = true
  · rw [if_pos hclosed]
    exact h
  · rw [if_neg hclosed]
    have hopen : s.closed = false := Bool.eq_false_iff.mpr hclosed
    have htick := settled_tick w record true levels h
    obtain ⟨-, hsame, hforce⟩ := books_tick w record true levels h.books
    generalize s.tick w record true levels = ticked at htick hsame hforce ⊢
    have hflush := settled_flush w true htick
    by_cases hok : (State.next ticked fun s => s.flush w true).2 = true
    · obtain ⟨-, hdone, heq⟩ := next_ok hok
      obtain ⟨hpending, hlost⟩ := flush_done (hsame.trans hopen) hdone
      obtain ⟨hrepeats, hbuckets⟩ := hforce rfl
      have hq := queued_flush (w := w) ticked.1 true
      unfold State.next at hok ⊢
      rw [if_pos hok]
      change Settled ({ (State.next ticked fun s => s.flush w true).1 with closed := true } : State R K S)
      rw [heq]
      refine ⟨⟨hflush.books.balance, hflush.books.order, hflush.books.counted⟩, fun _ => ⟨hpending, hlost, ?_, ?_⟩⟩
      · exact hq.repeats.trans hrepeats
      · show ∀ e ∈ (ticked.1.flush w true).1.buckets, e.2.dropped = 0
        rw [hq.buckets]
        exact hbuckets
    · have hnext := settled_next (f := fun s => s.flush w true) htick hflush
      generalize (State.next ticked fun s => s.flush w true) = r at hok hnext ⊢
      unfold State.next
      rw [if_neg hok]
      exact hnext

variable [DecidableEq K] [DecidableEq S]

theorem settled_act (h : Settled s) (op : Op R K S) : Settled (s.act w record op) := by
  cases op with
  | write levels p =>
    refine ⟨books_write h.books, fun hclosed => ?_⟩
    have hwas : s.closed = true := closed_write.symm.trans hclosed
    have hsame : s.act w record (.write levels p) = s := if_pos hwas
    rw [hsame]
    exact h.clean hwas
  | writeLegacy levels r other durable =>
    refine ⟨books_writeLegacy h.books, fun hclosed => ?_⟩
    have hwas : s.closed = true := closed_writeLegacy.symm.trans hclosed
    have hsame : s.act w record (.writeLegacy levels r other durable) = s := if_pos hwas
    rw [hsame]
    exact h.clean hwas
  | flush durable => exact settled_flush w durable h
  | tick force levels => exact settled_tick w record force levels h
  | timer levels =>
    have htick := settled_tick w record false levels h
    exact settled_next htick (settled_flush w true htick)
  | updateLevels changed =>
    have hq := queued_emitInternal (w := w) s changed
    refine ⟨h.books.queued_zero hq, fun hclosed => ?_⟩
    have hwas : s.closed = true := hq.closed.symm.trans hclosed
    show Clean (s.emitInternal w changed)
    rw [emitInternal_closed changed hwas]
    exact h.clean hwas
  | setRotation maxBytes =>
    exact ⟨⟨h.books.balance, h.books.order, h.books.counted⟩, fun hclosed =>
      have hc := h.clean hclosed
      ⟨hc.pending, hc.lost, hc.repeats, hc.buckets⟩⟩
  | close levels => exact settled_close h

theorem settled_run (w : World R S) (record : ℕ → R) (maxBytes : ℕ) (ops : List (Op R K S)) :
    Settled (State.run w record maxBytes ops) := by
  have hcreate : Settled (State.create (K := K) w record maxBytes) := by
    set u : State R K S := { maxBytes := maxBytes, reads := 1, lastPrune := w.clock 0 }
    have hq : Queued u (State.create w record maxBytes) 0 := queued_prune u record
    have hempty : Books u 0 := ⟨rfl, List.Sublist.refl [], fun e he => absurd he not_mem_nil⟩
    refine ⟨hempty.queued_zero hq, fun hclosed => ?_⟩
    rw [hq.closed] at hclosed
    cases hclosed
  unfold State.run
  generalize State.create w record maxBytes = s at hcreate ⊢
  induction ops generalizing s with
  | nil => exact hcreate
  | cons op ops ih =>
    rw [foldl_cons]
    exact ih _ (settled_act hcreate op)

/-- When the writer was closed, the lines in the files stand for the records that were written, if and
only if the lines that the full queue dropped stood, together, for one record each; and the files have
the lines that were queued, in their order and none of them twice. -/
theorem records_accounted (w : World R S) (record : ℕ → R) (maxBytes : ℕ) (ops : List (Op R K S))
    (hclosed : (State.run w record maxBytes ops).closed = true) :
    ((State.run w record maxBytes ops).writes = weigh (State.run w record maxBytes ops).file ↔
        weigh (State.run w record maxBytes ops).dropped = (State.run w record maxBytes ops).dropped.length) ∧
      (State.run w record maxBytes ops).file.Sublist (State.run w record maxBytes ops).queued := by
  have hsettled := settled_run w record maxBytes ops
  have hclean := hsettled.clean hclosed
  have horder := hsettled.books.order
  have hbalance := hsettled.books.balance
  have hheld := held_eq_zero hclean.buckets
  rw [hclean.pending, append_nil] at horder
  rw [hclean.pending, hclean.repeats, hclean.lost, hheld] at hbalance
  change weigh _ + 0 + weigh _ + 0 + 0 + 0 + 0 = _ at hbalance
  exact ⟨by omega, horder⟩

/-! ### A summary that is dropped -/

/-- The clock stands still, and of the accesses only the second one fails. -/
def flaky : World ℕ ℕ where
  clock _ := 0
  io n := n ≠ 1
  size _ := 0
  earlier _ := false
  pruned _ := 0
  bytes _ := 1

private def again : Op ℕ ℕ ℕ := .write [] (.accepted ⟨0, 0, 0, false, false⟩)

/-- The first attempt fails. -/
private def closing : List (Op ℕ ℕ ℕ) := [.close [], .close []]

/-- A record and its repetition. -/
theorem records_accounted_repeat : ((State.run flaky (fun n => n) 1000 (again :: again :: closing)).writes =
        weigh (State.run flaky (fun n => n) 1000 (again :: again :: closing)).file ↔
      weigh (State.run flaky (fun n => n) 1000 (again :: again :: closing)).dropped =
        (State.run flaky (fun n => n) 1000 (again :: again :: closing)).dropped.length) ∧
      (State.run flaky (fun n => n) 1000 (again :: again :: closing)).file.Sublist
        (State.run flaky (fun n => n) 1000 (again :: again :: closing)).queued :=
  records_accounted flaky (fun n => n) 1000 (again :: again :: closing) (by decide +kernel)

/-- A record three times, the summary of its repetitions, and 256 other records while the sink fails. -/
def crowded : List (Op ℕ ℕ ℕ) := [again, again, again, .tick true []] ++
    (List.range 256).map (fun n => .write [] (.accepted ⟨n, n, 0, true, false⟩)) ++ [.close []]

/-- The summary stands for two records and is counted as one. -/
theorem summary_dropped : ¬∀ (w : World ℕ ℕ) (ops : List (Op ℕ ℕ ℕ)),
    (State.run w (fun n => n) 1000 ops).closed = true →
      (State.run w (fun n => n) 1000 ops).writes = weigh (State.run w (fun n => n) 1000 ops).file := by
  intro hall
  have hrun : (State.run flaky (fun n => n) 1000 crowded).closed = true ∧
      (State.run flaky (fun n => n) 1000 crowded).writes = 259 ∧
      weigh (State.run flaky (fun n => n) 1000 crowded).file = 258 := by
    decide +kernel
  obtain ⟨hclosed, hwrites, hfile⟩ := hrun
  have hsame := hall flaky crowded hclosed
  rw [hwrites, hfile] at hsame
  exact absurd hsame (by decide)

end Plur1bus.Logs.Writer
