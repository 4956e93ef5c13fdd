import Plur1bus.Budget.PeerTotals

/-!
One more compaction in a history. The history with it and the one without it
are run side by side; the tables of the first are those of the second with
some rows folded into the totals. `reserve` sees the same sums in both, and
`finish` and `cancel` find the same row as long as it is not a folded one they
are after.
-/

namespace Plur1bus.Budget.Peer

open Program Program.Keyed List

/-! ### Tables with folded rows -/

/-- The tables `db'` are the tables `db` with the rows outside `K` in the totals. -/
structure Folded (K : String → Bool) (db db' : PeerDb) : Prop where
  calls : db'.calls = db.calls.filter fun c => K c.id
  totals : ∀ q, sumOf (fun t => q t.key) PeerTurnTotal.weight db'.totals =
    sumOf (fun t => q t.key) PeerTurnTotal.weight db.totals + held q (db.calls.filter fun c => !K c.id)

namespace Folded

variable {K : String → Bool} {db db' : PeerDb}

theorem used (hf : Folded K db db') : db'.used = db.used := by
  funext q
  unfold PeerDb.used
  rw [hf.totals, hf.calls, ← held_filter q (fun c => K c.id) db.calls]
  abel

/-- Compacting both keeps them side by side. -/
theorem compact (hf : Folded K db db') (hn : (db.totals.map PeerTurnTotal.key).Nodup)
    (hn' : (db'.totals.map PeerTurnTotal.key).Nodup) (now : ℤ) :
    Folded K (Peer.compact now db) (Peer.compact now db') where
  calls := (by
    show db'.calls.filter _ = (db.calls.filter _).filter _
    rw [hf.calls]
    exact filter_comm _ _ _)
  totals := (by
    intro q
    let old := fun c : PeerCall => decide (c.ts < now - CALL_RETENTION_MS)
    let gone := fun c : PeerCall => !K c.id
    rw [totals_compact hn', totals_compact hn, hf.totals, hf.calls]
    -- Rows that are old, or folded, or both: each side counts them once.
    have hgone := held_filter q old (db.calls.filter gone)
    have hold := held_filter q (fun c => K c.id) (db.calls.filter old)
    rw [filter_comm (fun c => K c.id) old, filter_comm (fun c => !K c.id) old] at hold
    show _ + held q (db.calls.filter gone) + held q ((db.calls.filter fun c => K c.id).filter old) =
      _ + held q (db.calls.filter old) + held q ((db.calls.filter fun c => !old c).filter gone)
    rw [filter_comm gone, ← hgone, ← hold]
    abel)

/-- A row with a new identifier goes to both. -/
theorem snoc (hf : Folded K db db') {row : PeerCall} (hnew : ∀ c ∈ db.calls, c.id ≠ row.id) :
    Folded (fun id => K id || decide (id = row.id)) { db with calls := db.calls ++ [row] }
      { db' with calls := db'.calls ++ [row] } := by
  have hK : ∀ c ∈ db.calls, (K c.id || decide (c.id = row.id)) = K c.id := fun c hc => (by
    rw [decide_eq_false (hnew c hc), Bool.or_false])
  refine ⟨?_, fun q => ?_⟩
  · show db'.calls ++ [row] = (db.calls ++ [row]).filter _
    rw [filter_append, filter_congr hK, hf.calls]
    simp
  · show sumOf _ _ db'.totals = _ + held q ((db.calls ++ [row]).filter _)
    rw [filter_append, filter_congr fun c hc => congrArg (!·) (hK c hc), hf.totals]
    simp

/-- The update of a row that is not folded. -/
theorem edit (hf : Folded K db db') {id : String} {f : PeerCall → PeerCall} (hK : K id = true)
    (hs : SameCall f) : Folded K (db.edit id f) (db'.edit id f) := by
  have hid : ∀ c : PeerCall, (if c.id = id ∧ c.state = .reserved then f c else c).id = c.id := by
    intro c
    split
    · exact (hs c).1
    · rfl
  refine ⟨?_, fun q => ?_⟩
  · show editReserved id f db'.calls = (editReserved id f db.calls).filter _
    unfold editReserved
    rw [hf.calls, filter_map]
    refine congrArg _ (filter_congr fun c _ => ?_)
    rw [Function.comp_apply, hid]
  · show sumOf _ _ db'.totals = _ + held q ((editReserved id f db.calls).filter _)
    rw [hf.totals, editReserved, filter_map]
    -- The folded rows are others than the one that is updated.
    have hrest : ((db.calls.filter fun c => !K c.id).map
        fun c => if c.id = id ∧ c.state = .reserved then f c else c) = db.calls.filter fun c => !K c.id := by
      refine (map_congr_left fun c hc => ?_).trans (map_id _)
      have hKc := (mem_filter.mp hc).2
      rw [if_neg, id_eq]
      rintro ⟨rfl, -⟩
      rw [hK] at hKc
      cases hKc
    have hsame : ((fun c : PeerCall => !K c.id) ∘ fun c => if c.id = id ∧ c.state = .reserved then f c else c) =
        fun c => !K c.id := by
      funext c
      rw [Function.comp_apply, hid]
    rw [hsame, hrest]
    rfl

theorem kept (hf : Folded K db db') {id : String} {row : PeerCall}
    (hrow : rowAt PeerCall.id id db'.calls = some row) : K id = true := by
  obtain ⟨hmem, rfl⟩ := rowAt_some hrow
  rw [hf.calls] at hmem
  exact (mem_filter.mp hmem).2

theorem row (hf : Folded K db db') (hn : (db.calls.map PeerCall.id).Nodup) {id : String} {row : PeerCall}
    (hrow : rowAt PeerCall.id id db'.calls = some row) : rowAt PeerCall.id id db.calls = some row := by
  obtain ⟨hmem, hid⟩ := rowAt_some hrow
  rw [hf.calls] at hmem
  exact (rowAt_eq_some hn).mpr ⟨(mem_filter.mp hmem).1, hid⟩

/-- Compaction folds the rows it takes. -/
theorem of_compact (hk : (db.calls.map PeerCall.id).Nodup) (hn : (db.totals.map PeerTurnTotal.key).Nodup)
    (now : ℤ) : ∃ K, Folded K db (Peer.compact now db) := by
  let old := fun c : PeerCall => decide (c.ts < now - CALL_RETENTION_MS)
  -- A row is told from the others by its identifier.
  have hids : ∀ c ∈ db.calls, (db.calls.any fun x => x.id = c.id && !old x) = !old c := by
    intro c hc
    rw [Bool.eq_iff_iff, List.any_eq_true]
    constructor
    · rintro ⟨x, hx, hcond⟩
      rw [Bool.and_eq_true, decide_eq_true_eq] at hcond
      rw [← inj_on_of_nodup_map hk hx hc hcond.1]
      exact hcond.2
    · intro hnew
      exact ⟨c, hc, (by rw [hnew, decide_eq_true rfl]; rfl)⟩
  refine ⟨fun id => db.calls.any fun x => x.id = id && !old x, ?_, fun q => ?_⟩
  · exact (filter_congr hids).symm
  · rw [totals_compact hn, filter_congr fun c hc => congrArg (!·) (hids c hc)]
    simp only [Bool.not_not, old]

end Folded

/-! ### Two histories side by side -/

variable {uuid : ℕ → String} {limits : PeerBudgetLimits} {h h' : History}

/-- The second history has folded rows, and is otherwise the first. -/
structure Beside (h h' : History) : Prop where
  folded : ∃ K, Folded K h.budget.db h'.budget.db
  drawn : h'.budget.drawn = h.budget.drawn
  calls : h'.calls = h.calls
  decisions : h'.decisions = h.decisions

namespace Beside

/-- `finish` and `cancel` find the same row on both sides. -/
theorem row (hb : Beside h h') (hi : h.Inv uuid limits) {id : String} (ht : ¬h'.Compacted id) :
    rowAt PeerCall.id id h'.budget.db.calls = rowAt PeerCall.id id h.budget.db.calls := by
  obtain ⟨K, hf⟩ := hb.folded
  cases hrow : rowAt PeerCall.id id h'.budget.db.calls with
  | some row => exact (hf.row hi.rowIds hrow).symm
  | none =>
      symm
      rw [rowAt_eq_none]
      intro c hc hid
      refine ht ⟨?_, hrow⟩
      rw [hb.calls, ← hid]
      exact mem_map_of_mem (hi.rows.subset hc)

theorem edit (hb : Beside h h') {id : String} {f : PeerCall → PeerCall} (hs : SameCall f) {row : PeerCall}
    (hrow : rowAt PeerCall.id id h'.budget.db.calls = some row) :
    Beside
      { h with budget := { h.budget with db := h.budget.db.edit id f }, calls := editReserved id f h.calls }
      { h' with budget := { h'.budget with db := h'.budget.db.edit id f }, calls := editReserved id f h'.calls } := by
  obtain ⟨K, hf⟩ := hb.folded
  exact ⟨⟨K, hf.edit (hf.kept hrow) hs⟩, hb.drawn, congrArg (editReserved id f) hb.calls, hb.decisions⟩

theorem act (hb : Beside h h') (hi : h.Inv uuid limits) (hi' : h'.Inv uuid limits)
    (hu : Function.Injective uuid) {op : PeerOp} (ht : h'.Timely op) :
    Beside (h.act uuid limits op) (h'.act uuid limits op) := by
  obtain ⟨K, hf⟩ := hb.folded
  cases op with
  | restart now => exact ⟨⟨K, hf.compact hi.totals hi'.totals now⟩, hb.drawn, hb.calls, hb.decisions⟩
  | reserve who tokens first second =>
      rw [act_reserve hi hu, act_reserve hi' hu, hf.used]
      cases verdict limits who tokens h.budget.db.used with
      | error e => exact ⟨⟨K, hf⟩, hb.drawn, hb.calls, congrArg (· ++ _) hb.decisions⟩
      | ok n =>
          have hcompact := hf.compact hi.totals hi'.totals first
          cases n with
          | none => exact ⟨⟨K, hcompact⟩, hb.drawn, hb.calls, congrArg (· ++ _) hb.decisions⟩
          | some n =>
              have hnew : ∀ c ∈ (Peer.compact first h.budget.db).calls, c.id ≠ uuid h.budget.drawn :=
                fun c hc => hi.fresh hu (hi.rows.subset (mem_filter.mp hc).1)
              refine ⟨⟨fun id => K id || decide (id = uuid h.budget.drawn), ?_⟩, congrArg (· + 1) hb.drawn, ?_, ?_⟩
              · show Folded _ { Peer.compact first h.budget.db with calls := _ ++ [callOf who (uuid h.budget.drawn) n second] }
                  { Peer.compact first h'.budget.db with calls := _ ++ [callOf who (uuid h'.budget.drawn) n second] }
                rw [hb.drawn]
                exact @Folded.snoc K _ _ hcompact (callOf who (uuid h.budget.drawn) n second) hnew
              · show h'.calls ++ _ = h.calls ++ _
                rw [hb.calls, hb.drawn]
              · show h'.decisions ++ _ = h.decisions ++ _
                rw [hb.decisions, hb.drawn]
  | finish id tokens =>
      have hrow := hb.row hi ht
      rw [act_finish, act_finish, hrow]
      cases hs : settles (rowAt PeerCall.id id h.budget.db.calls) tokens with
      | none => exact hb
      | some n =>
          obtain ⟨row, hfound, -⟩ := settles_some hs
          exact hb.edit (sameCall_spend n) (hrow.trans hfound)
  | cancel id =>
      have hrow := hb.row hi ht
      rw [act_cancel, act_cancel, hrow]
      cases hfound : rowAt PeerCall.id id h.budget.db.calls with
      | none => exact hb
      | some row => exact hb.edit sameCall_drop (hrow.trans hfound)

/-- They stay side by side over a run. -/
theorem run (hu : Function.Injective uuid) {ops : List PeerOp} :
    ∀ {h h' : History}, Beside h h' → h.Inv uuid limits → h'.Inv uuid limits →
      Along (History.act uuid limits) History.Timely h' ops →
        Beside (ops.foldl (History.act uuid limits) h) (ops.foldl (History.act uuid limits) h') := by
  induction ops with
  | nil => exact fun hb _ _ _ => hb
  | cons op ops ih =>
      intro h h' hb hi hi' ht
      exact ih (hb.act hi hi' hu ht.1) (hi.act hu op) (hi'.act hu op) ht.2

end Beside

/-- A compaction in the middle of a history: what comes after it is answered
as it is without it. -/
theorem beside_compacted (hu : Function.Injective uuid) (before after : List PeerOp) (now : ℤ)
    (ht : Along (History.act uuid limits) History.Timely (History.after uuid limits (before ++ [.restart now]))
      after) :
    Beside (History.after uuid limits (before ++ after))
      (History.after uuid limits (before ++ .restart now :: after)) := by
  have hi := @inv_after uuid limits hu before
  have hi' := @inv_after uuid limits hu (before ++ [.restart now])
  unfold History.after at ht hi hi' ⊢
  rw [foldl_append] at ht hi'
  rw [foldl_append, foldl_append, foldl_cons]
  exact Beside.run hu ⟨Folded.of_compact hi.rowIds hi.totals now, rfl, rfl, rfl⟩ hi hi' ht

/-- In every history the tables hold what the calls hold that are not
cancelled, this stays within the limits by peer and by turn, and one more
compaction changes no answer of `reserve`, if `finish` and `cancel` then name
no call that is compacted. -/
theorem peer_budget (uuid : ℕ → String) (hu : Function.Injective uuid) (limits : PeerBudgetLimits) :
    (∀ ops : List PeerOp, let h := History.after uuid limits ops
      (∀ q, h.budget.db.used q = held q h.calls) ∧ ∀ l, limits.counts = some l →
          (∀ key, held (ofPeer key) h.calls ≤ (l.peerCalls, l.peerTokens)) ∧
            ∀ turn, held (ofTurn turn) h.calls ≤ (l.turnCalls, l.turnTokens)) ∧
      ∀ (before after : List PeerOp) (now : ℤ), Along (History.act uuid limits) History.Timely
            (History.after uuid limits (before ++ [.restart now])) after →
          (History.after uuid limits (before ++ .restart now :: after)).decisions =
            (History.after uuid limits (before ++ after)).decisions := by
  constructor
  · intro ops
    have hi := @inv_after uuid limits hu ops
    exact ⟨hi.accounts, hi.fits⟩
  · intro before after now ht
    exact (beside_compacted hu before after now ht).decisions

/-! ### A month later -/

instance instDecidableTimely (h : History) : ∀ op, Decidable (h.Timely op)
  | .restart _ => .isTrue trivial
  | .reserve .. => .isTrue trivial
  | .finish id _ => inferInstanceAs (Decidable ¬(id ∈ h.calls.map PeerCall.id ∧ rowAt PeerCall.id id h.budget.db.calls = none))
  | .cancel id => inferInstanceAs (Decidable ¬(id ∈ h.calls.map PeerCall.id ∧ rowAt PeerCall.id id h.budget.db.calls = none))

/-- Identifiers told apart by how many of their digits are `f`. -/
def sampleId (n : ℕ) : String :=
  String.ofList ("00000000-0000-4000-8000-".toList ++ (List.replicate n 'f' ++ List.replicate (12 - n) '0'))

theorem sampleId_injective : Function.Injective sampleId := by
  intro m n h
  have hcount := congrArg (List.count 'f') (String.ofList_injective h)
  have hhead : List.count 'f' "00000000-0000-4000-8000-".toList = 0 := by decide
  simpa [count_replicate, hhead] using hcount

def sampleLimits : PeerBudgetLimits := ⟨.int 2, .int 3, .int 100, .int 150⟩

def samplePeer : PeerBudgetIdentity := ⟨"person", "main", "session", "turn", "peer"⟩

/-- One call spends 20 tokens, one is cancelled, and one is never heard of again. -/
def sampleBefore : List PeerOp := [.reserve samplePeer (.int 40) 1000 1000, .finish (sampleId 0) (.int 20),
    .reserve samplePeer (.int 10) 1000 1000, .cancel (sampleId 1),
    .reserve samplePeer (.int 80) 1000 1000]

def monthLater : ℤ := 1000 + 31 * 24 * 60 * 60 * 1000

def sampleAfter : List PeerOp := [.reserve samplePeer (.int 0) 2000 2000,
    .reserve { samplePeer with peer := "other" } (.int 51) 2000 2000,
    .reserve { samplePeer with turn := "next" } (.int 100) 2000 2000, .finish (sampleId 3) (.int 7)]

theorem peer_budget_sample :
    held (ofTurn samplePeer.key.toTurnKey) (History.after sampleId sampleLimits sampleBefore).calls ≤ (3, 150) ∧
      (History.after sampleId sampleLimits (sampleBefore ++ .restart monthLater :: sampleAfter)).decisions =
        (History.after sampleId sampleLimits (sampleBefore ++ sampleAfter)).decisions := by
  have h := peer_budget sampleId sampleId_injective sampleLimits
  exact ⟨((h.1 sampleBefore).2 ⟨2, 3, 100, 150⟩ (by decide)).2 samplePeer.key.toTurnKey,
    h.2 sampleBefore sampleAfter monthLater (by decide +kernel)⟩

end Plur1bus.Budget.Peer
