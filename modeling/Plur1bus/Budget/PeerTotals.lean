import Plur1bus.Budget.Peer
import Plur1bus.Program.Runs
import Mathlib.Algebra.Order.Monoid.Prod
import Mathlib.Algebra.Order.Group.Nat

/-!
What the tables hold for a peer and for a turn is what the calls of the
history hold, whatever part of them has been compacted. From there the limits
follow call by call, and a history with one more compaction runs beside the
one without it: the rows of the one are some of the rows of the other, and its
totals are larger by the rest.
-/

namespace Plur1bus.Budget.Peer

open Program Program.Keyed List

/-! ### Sums -/

theorem held_append (q : PeerKey → Bool) (calls more : List PeerCall) :
    held q (calls ++ more) = held q calls + held q more := sumOf_append

/-- Some of the rows and the others. -/
theorem held_filter (q : PeerKey → Bool) (p : PeerCall → Bool) (calls : List PeerCall) :
    held q (calls.filter p) + held q (calls.filter fun c => !p c) = held q calls := by
  unfold held
  rw [sumOf_of_filter, sumOf_of_filter]
  exact (sumOf_split p).symm

theorem key_add {t new : PeerTurnTotal} (h : t.key = new.key) : (t.add new).key = new.key := h

theorem weight_add (t new : PeerTurnTotal) : (t.add new).weight = t.weight + new.weight := rfl

variable {now : ℤ} {db : PeerDb}

theorem totals_compact (hn : (db.totals.map PeerTurnTotal.key).Nodup) (q : PeerKey → Bool) :
    sumOf (fun t => q t.key) PeerTurnTotal.weight (compact now db).totals =
      sumOf (fun t => q t.key) PeerTurnTotal.weight db.totals +
        held q (db.calls.filter fun c => decide (c.ts < now - CALL_RETENTION_MS)) := by
  unfold compact held
  dsimp only
  rw [sumOf_upserts q hn (fun _ _ => key_add) weight_add, sumOf_made, sumOf_of_filter]
  show _ + sumOf (fun g : PeerKey × ℕ × ℕ => q g.1) Prod.snd _ = _
  rw [sumOf_groupSums, sumOf_of_filter]
  refine congrArg _ (sumOf_congr (fun c _ => ?_) fun _ _ _ => rfl)
  rw [Bool.and_assoc, Bool.and_comm c.live]

theorem nodup_compact (hn : (db.totals.map PeerTurnTotal.key).Nodup) :
    ((compact now db).totals.map PeerTurnTotal.key).Nodup :=
  nodup_keys_upserts hn fun _ _ => key_add

/-- Compaction moves rows into the totals and changes no sum. -/
theorem used_compact {now : ℤ} {db : PeerDb} (hn : (db.totals.map PeerTurnTotal.key).Nodup) :
    (compact now db).used = db.used := by
  funext q
  unfold PeerDb.used
  rw [totals_compact hn, ← held_filter q (fun c => decide (c.ts < now - CALL_RETENTION_MS)) db.calls]
  show held q (db.calls.filter _) + _ = _
  abel

/-! ### The decision -/

section Decision

theorem getD_map {β γ : Type} [Zero β] [Zero γ] (f : β → γ) (hf : f 0 = 0) (o : Option (String × β)) :
    (o.map fun r => f r.2).getD 0 = f ((o.map Prod.snd).getD 0) := by
  cases o with
  | none => exact hf.symm
  | some r => rfl

theorem sum_fst (rows : List (String × ℕ × ℕ)) : (rows.map (·.2.1)).sum = (rows.map Prod.snd).sum.1 := by
  induction rows with
  | nil => rfl
  | cons r rows ih => simp [ih]

theorem sum_snd (rows : List (String × ℕ × ℕ)) : (rows.map (·.2.2)).sum = (rows.map Prod.snd).sum.2 := by
  induction rows with
  | nil => rfl
  | cons r rows ih => simp [ih]

/-- The query for a turn adds up what the tables hold for its peers. -/
theorem sumOf_turnRows (turn : TurnKey) (db : PeerDb) (p : String → Bool) :
    sumOf (fun g => p g.1) Prod.snd (turnRows turn db) =
      db.used fun k => p k.peer && decide (k.toTurnKey = turn) := by
  unfold turnRows PeerDb.used held
  rw [sumOf_groupSums, sumOf_append, sumOf_groupSums, sumOf_of_filter, sumOf_made, sumOf_of_filter]
  refine congrArg₂ _ (sumOf_congr (fun c _ => ?_) fun _ _ _ => rfl) rfl
  rw [Bool.and_assoc]
  rfl

def ofPeer (key : PeerKey) (k : PeerKey) : Bool := k = key

def ofTurn (turn : TurnKey) (k : PeerKey) : Bool := k.toTurnKey = turn

theorem turnRows_peer (key : PeerKey) (db : PeerDb) :
    ((rowAt Prod.fst key.peer (turnRows key.toTurnKey db)).map Prod.snd).getD 0 = db.used (ofPeer key) := by
  have hrows : turnRows key.toTurnKey db = groupSums Prod.fst Prod.snd _ := rfl
  have hsum := sumOf_turnRows key.toTurnKey db fun p => p = key.peer
  rw [hrows, sumOf_groupSums fun p => decide (p = key.peer)] at hsum
  rw [hrows, rowAt_groupSums, hsum]
  congr 1
  funext k
  rw [ofPeer, ← Bool.decide_and]
  refine decide_eq_decide.mpr ⟨fun h => ?_, fun h => h ▸ ⟨rfl, rfl⟩⟩
  cases k
  cases key
  simp_all

theorem turnRows_turn (turn : TurnKey) (db : PeerDb) :
    ((turnRows turn db).map Prod.snd).sum = db.used (ofTurn turn) := by
  have h := sumOf_turnRows turn db fun _ => true
  show _ = db.used fun k => decide (k.toTurnKey = turn)
  simpa [sumOf] using h

/-- One of the limits stands in the way of a call with so many tokens. -/
def blocked (l : Ceilings) (tokens : ℕ) (key : PeerKey) (used : (PeerKey → Bool) → ℕ × ℕ) : Bool :=
  decide (l.peerCalls ≤ (used (ofPeer key)).1) || decide (l.turnCalls ≤ (used (ofTurn key.toTurnKey)).1) ||
    decide (l.peerTokens < (used (ofPeer key)).2 + tokens) ||
    decide (l.turnTokens < (used (ofTurn key.toTurnKey)).2 + tokens)

theorem full_turnRows (l : Ceilings) (tokens : ℕ) (who : PeerBudgetIdentity) (db : PeerDb) :
    full l tokens who (turnRows who.key.toTurnKey db) = blocked l tokens who.key db.used := by
  unfold full blocked
  dsimp only
  rw [sum_fst, sum_snd, turnRows_turn, ← turnRows_peer, getD_map Prod.fst rfl, getD_map Prod.snd rfl]
  rfl

theorem not_blocked {l : Ceilings} {tokens : ℕ} {key : PeerKey} {used : (PeerKey → Bool) → ℕ × ℕ} :
    blocked l tokens key used = false ↔ used (ofPeer key) + (1, tokens) ≤ (l.peerCalls, l.peerTokens) ∧
        used (ofTurn key.toTurnKey) + (1, tokens) ≤ (l.turnCalls, l.turnTokens) := by
  simp only [blocked, Bool.or_eq_false_iff, decide_eq_false_iff_not, Nat.not_le, Nat.not_lt,
    Prod.le_def, Prod.fst_add, Prod.snd_add]
  omega

end Decision

/-! ### Rows that are edited -/

section Edits

/-- An update leaves a row the call it is. -/
def SameCall (f : PeerCall → PeerCall) : Prop := ∀ c, (f c).id = c.id ∧ (f c).key = c.key

theorem sameCall_spend (tokens : ℕ) : SameCall (PeerCall.spend tokens) := fun _ => ⟨rfl, rfl⟩

theorem sameCall_drop : SameCall PeerCall.drop := fun _ => ⟨rfl, rfl⟩

variable {id : String} {f : PeerCall → PeerCall} {calls : List PeerCall}

theorem ids_edit (hf : SameCall f) : (editReserved id f calls).map PeerCall.id = calls.map PeerCall.id := by
  unfold editReserved
  rw [List.map_map]
  refine map_congr_left fun c _ => ?_
  show (if _ then _ else _ : PeerCall).id = _
  split
  · exact (hf c).1
  · rfl

theorem edit_absent (h : rowAt PeerCall.id id calls = none) : editReserved id f calls = calls := by
  refine (map_congr_left fun c hc => ?_).trans (map_id calls)
  rw [if_neg fun hid => rowAt_eq_none.mp h c hc hid.1]
  rfl

variable {c : PeerCall}

/-- A row that is not reserved stays as it is. -/
theorem edit_settled (hn : (calls.map PeerCall.id).Nodup) (hc : c ∈ calls) (hid : c.id = id)
    (hs : c.state ≠ .reserved) : editReserved id f calls = calls := by
  refine (map_congr_left fun x hx => ?_).trans (map_id calls)
  rw [if_neg, id_eq]
  rintro ⟨hxid, hxs⟩
  rw [inj_on_of_nodup_map hn hx hc (hxid.trans hid.symm)] at hxs
  exact hs hxs

/-- What a call counts for: nothing once it is cancelled. -/
def charge (c : PeerCall) : ℕ × ℕ := if c.live then c.weight else 0

theorem held_eq (q : PeerKey → Bool) (calls : List PeerCall) : held q calls = sumOf (fun c => q c.key) charge calls :=
  sumOf_and

/-- The update of a reserved row changes what is held by what it changes of the row. -/
theorem held_edit (hf : SameCall f) (hn : (calls.map PeerCall.id).Nodup) (hc : c ∈ calls)
    (hid : c.id = id) (hs : c.state = .reserved) (q : PeerKey → Bool) :
    held q (editReserved id f calls) + (if q c.key then charge c else 0) =
      held q calls + if q c.key then charge (f c) else 0 := by
  have hkey : ∀ x ∈ calls, q (if x.id = id ∧ x.state = .reserved then f x else x).key = q x.key := by
    intro x _
    split
    · rw [(hf x).2]
    · rfl
  rw [held_eq, held_eq, editReserved, sumOf_map hkey,
    sumOf_change (w := charge) hn hc fun x _ hx => (by rw [if_neg fun h => hx (h.1.trans hid.symm)]),
    if_pos (⟨hid, hs⟩ : c.id = id ∧ c.state = .reserved)]

end Edits

/-! ### Histories keep their accounts -/

variable {uuid : ℕ → String} {limits : PeerBudgetLimits} {h : History}

/-- The calls of a history stay within the limits. -/
def Fits (l : Ceilings) (calls : List PeerCall) : Prop :=
  (∀ key, held (ofPeer key) calls ≤ (l.peerCalls, l.peerTokens)) ∧
    ∀ turn, held (ofTurn turn) calls ≤ (l.turnCalls, l.turnTokens)

structure History.Inv (uuid : ℕ → String) (limits : PeerBudgetLimits) (h : History) : Prop where
  ids : (h.calls.map PeerCall.id).Nodup
  drawn : ∀ c ∈ h.calls, ∃ i < h.budget.drawn, uuid i = c.id
  rows : h.budget.db.calls.Sublist h.calls
  totals : (h.budget.db.totals.map PeerTurnTotal.key).Nodup
  full : ∀ c ∈ h.calls, c.state = .reserved → c.tokens = c.capacity
  accounts : ∀ q, h.budget.db.used q = held q h.calls
  fits : ∀ l, limits.counts = some l → Fits l h.calls

theorem inv_start : History.start.Inv uuid limits where
  ids := nodup_nil
  drawn := fun _ h => absurd h not_mem_nil
  rows := List.Sublist.refl _
  totals := nodup_nil
  full := fun _ h => absurd h not_mem_nil
  accounts := fun _ => rfl
  fits := fun _ _ => ⟨fun _ => ⟨Nat.zero_le _, Nat.zero_le _⟩, fun _ => ⟨Nat.zero_le _, Nat.zero_le _⟩⟩

namespace History.Inv

theorem rowIds (hi : h.Inv uuid limits) : (h.budget.db.calls.map PeerCall.id).Nodup :=
  List.Nodup.sublist (hi.rows.map _) hi.ids

theorem fresh (hi : h.Inv uuid limits) (hu : Function.Injective uuid) {c : PeerCall} (hc : c ∈ h.calls) :
    c.id ≠ uuid h.budget.drawn := by
  intro heq
  obtain ⟨i, hlt, hid⟩ := hi.drawn c hc
  exact absurd (hu (hid.trans heq)) (Nat.ne_of_lt hlt)

/-- A history is as good after its tables have been compacted. -/
theorem compacted (hi : h.Inv uuid limits) (now : ℤ) :
    History.Inv uuid limits { h with budget := { h.budget with db := compact now h.budget.db } } where
  ids := hi.ids
  drawn := hi.drawn
  rows := filter_sublist.trans hi.rows
  totals := nodup_compact hi.totals
  full := hi.full
  accounts := fun q => (by
    show (compact now h.budget.db).used q = _
    rw [used_compact hi.totals]
    exact hi.accounts q)
  fits := hi.fits

/-- What is asked and answered does not matter to the accounts. -/
theorem answered (hi : h.Inv uuid limits) (ds : List (Except PeerBudgetError PeerBudgetDecision)) :
    History.Inv uuid limits { h with decisions := ds } :=
  ⟨hi.ids, hi.drawn, hi.rows, hi.totals, hi.full, hi.accounts, hi.fits⟩

end History.Inv

/-! ### What each act does -/

/-- The row of a call as `reserve` writes it. -/
def callOf (who : PeerBudgetIdentity) (id : String) (tokens : ℕ) (ts : ℤ) : PeerCall :=
  { id, person := who.person, agent := who.agent, session := who.session, turn := who.turn,
    peer := who.peer, tokens, capacity := tokens, state := .reserved, ts }

/-- How `reserve` decides, by what is held: the tokens to reserve, or nothing. -/
def verdict (limits : PeerBudgetLimits) (who : PeerBudgetIdentity) (tokens : Number)
    (used : (PeerKey → Bool) → ℕ × ℕ) : Except PeerBudgetError (Option ℕ) :=
  match count tokens, limits.counts with
  | some n, some l =>
      if who.valid then .ok (if blocked l n who.key used then none else some n) else .error .invalid
  | _, _ => .error .invalid

variable {tokens : Number} {n : ℕ}

theorem verdict_admits {who : PeerBudgetIdentity} {used : (PeerKey → Bool) → ℕ × ℕ}
    (hv : verdict limits who tokens used = .ok (some n)) {l : Ceilings} (hl : limits.counts = some l) :
    blocked l n who.key used = false := by
  unfold verdict at hv
  rw [hl] at hv
  cases hc : count tokens with
  | none => rw [hc] at hv; cases hv
  | some m => grind

/-- The tables and the draws after a call was allowed. -/
def History.allowed (uuid : ℕ → String) (h : History) (who : PeerBudgetIdentity) (n : ℕ) (first second : ℤ) :
    PeerCallBudget :=
  let db := compact first h.budget.db
  { db := { db with calls := db.calls ++ [callOf who (uuid h.budget.drawn) n second] }
    drawn := h.budget.drawn + 1 }

/-- `reserve` answers by what is held, and no identifier it draws is in use. -/
theorem reserve_eq (hi : h.Inv uuid limits) (hu : Function.Injective uuid) (who : PeerBudgetIdentity)
    (tokens : Number) (first second : ℤ) :
    reserve uuid limits who tokens first second h.budget =
      match verdict limits who tokens h.budget.db.used with
      | .error e => (.error e, h.budget)
      | .ok none => (.ok .refuse, { h.budget with db := compact first h.budget.db })
      | .ok (some n) => (.ok (.allow (uuid h.budget.drawn)), h.allowed uuid who n first second) := by
  unfold reserve verdict
  cases count tokens with
  | none => rfl
  | some n =>
      cases limits.counts with
      | none => rfl
      | some l =>
          by_cases hw : who.valid = true
          · have hfresh : rowAt PeerCall.id (uuid h.budget.drawn) (compact first h.budget.db).calls = none :=
              rowAt_eq_none.mpr fun c hc => hi.fresh hu (hi.rows.subset (mem_filter.mp hc).1)
            have hfull : full l n who (turnRows who.key.toTurnKey (compact first h.budget.db)) =
                blocked l n who.key h.budget.db.used := by
              rw [full_turnRows, used_compact hi.totals]
            dsimp only
            rw [if_pos hw, if_pos hw, transaction, admitCall]
            dsimp only
            rw [hfull, hfresh]
            cases blocked l n who.key h.budget.db.used with
            | true => rfl
            | false => rfl
          · dsimp only
            rw [if_neg hw, if_neg hw]

theorem act_reserve (hi : h.Inv uuid limits) (hu : Function.Injective uuid) (who : PeerBudgetIdentity)
    (tokens : Number) (first second : ℤ) :
    h.act uuid limits (.reserve who tokens first second) =
      match verdict limits who tokens h.budget.db.used with
      | .error e => { h with decisions := h.decisions ++ [.error e] }
      | .ok none =>
          { h with budget := { h.budget with db := compact first h.budget.db }
                   decisions := h.decisions ++ [.ok .refuse] }
      | .ok (some n) =>
          { budget := h.allowed uuid who n first second
            calls := h.calls ++ [callOf who (uuid h.budget.drawn) n second]
            decisions := h.decisions ++ [.ok (.allow (uuid h.budget.drawn))] } := by
  unfold History.act
  dsimp only
  rw [reserve_eq hi hu]
  cases verdict limits who tokens h.budget.db.used with
  | error e =>
      dsimp only [newCall]
      rw [append_nil]
  | ok admitted =>
      cases admitted with
      | none =>
          dsimp only [newCall]
          rw [append_nil]
      | some n =>
          -- The new row is the only one with its identifier.
          have hrow : rowAt PeerCall.id (uuid h.budget.drawn) (h.allowed uuid who n first second).db.calls =
              some (callOf who (uuid h.budget.drawn) n second) := by
            have hrest : rowAt PeerCall.id (uuid h.budget.drawn) (compact first h.budget.db).calls = none :=
              rowAt_eq_none.mpr fun c hc => hi.fresh hu (hi.rows.subset (mem_filter.mp hc).1)
            unfold rowAt at hrest ⊢
            rw [History.allowed, List.find?_append, hrest]
            simp [callOf]
          dsimp only [newCall]
          rw [hrow]
          rfl

/-- What `finish` writes for a row: a number of tokens, or nothing. -/
def settles (row : Option PeerCall) (tokens : Number) : Option ℕ :=
  match count tokens, row with
  | some n, some row =>
      if row.capacity < n ∨ row.state = .cancelled ∨ (row.state = .spent ∧ n ≠ row.tokens) then none else some n
  | _, _ => none

theorem settles_some {row : Option PeerCall} (hs : settles row tokens = some n) :
    ∃ c, row = some c ∧ count tokens = some n ∧ n ≤ c.capacity := by
  unfold settles at hs
  cases hc : count tokens with
  | none => rw [hc] at hs; cases hs
  | some m => grind

theorem finish_eq (id : String) (tokens : Number) (b : PeerCallBudget) : finish id tokens b =
      match settles (rowAt PeerCall.id id b.db.calls) tokens with
      | none => (.error .invalid, b)
      | some n => (.ok (), { b with db := b.db.edit id (PeerCall.spend n) }) := by
  unfold finish settles transaction
  cases count tokens with
  | none => rfl
  | some n =>
      cases hrow : rowAt PeerCall.id id b.db.calls with
      | none =>
          dsimp only
          rw [hrow]
      | some c =>
          dsimp only
          rw [hrow]
          by_cases hbad : c.capacity < n ∨ c.state = .cancelled ∨ (c.state = .spent ∧ n ≠ c.tokens)
          · simp only [if_pos hbad]
          · simp only [if_neg hbad]

theorem act_finish (id : String) (tokens : Number) : h.act uuid limits (.finish id tokens) =
      match settles (rowAt PeerCall.id id h.budget.db.calls) tokens with
      | none => h
      | some n =>
          { h with budget := { h.budget with db := h.budget.db.edit id (PeerCall.spend n) }
                   calls := editReserved id (PeerCall.spend n) h.calls } := by
  unfold History.act
  dsimp only
  rw [finish_eq]
  cases hs : settles (rowAt PeerCall.id id h.budget.db.calls) tokens with
  | none => rfl
  | some n =>
      obtain ⟨c, hrow, hn, -⟩ := settles_some hs
      rw [hn]
      dsimp only
      rw [editCalls, hrow]
      rfl

theorem act_cancel (id : String) : h.act uuid limits (.cancel id) =
      match rowAt PeerCall.id id h.budget.db.calls with
      | none => h
      | some _ =>
          { h with budget := { h.budget with db := h.budget.db.edit id PeerCall.drop }
                   calls := editReserved id PeerCall.drop h.calls } := by
  unfold History.act cancel editCalls
  dsimp only
  cases hrow : rowAt PeerCall.id id h.budget.db.calls with
  | none =>
      rw [PeerDb.edit, edit_absent hrow]
      rfl
  | some c => rfl

/-! ### Each act keeps the accounts -/

theorem held_callOf (q : PeerKey → Bool) (who : PeerBudgetIdentity) (id : String) (n : ℕ) (ts : ℤ) :
    held q [callOf who id n ts] = if q who.key then (1, n) else 0 := by
  rw [held_eq, sumOf_cons, sumOf_nil, add_zero]
  rfl

namespace History.Inv

variable {who : PeerBudgetIdentity} {tokens : Number} {n : ℕ}

theorem fits_admit (hi : h.Inv uuid limits) (hv : verdict limits who tokens h.budget.db.used = .ok (some n))
    (id : String) (ts : ℤ) {l : Ceilings} (hl : limits.counts = some l) :
    Fits l (h.calls ++ [callOf who id n ts]) := by
  obtain ⟨hpeer, hturn⟩ := hi.fits l hl
  obtain ⟨hroomPeer, hroomTurn⟩ := not_blocked.mp (verdict_admits hv hl)
  rw [hi.accounts] at hroomPeer hroomTurn
  constructor
  · intro key
    rw [held_append, held_callOf]
    by_cases hk : who.key = key
    · rw [ofPeer, decide_eq_true hk, if_pos rfl, ← hk]
      exact hroomPeer
    · rw [ofPeer, decide_eq_false hk, if_neg Bool.false_ne_true, add_zero]
      exact hpeer key
  · intro turn
    rw [held_append, held_callOf]
    by_cases hk : who.key.toTurnKey = turn
    · rw [ofTurn, decide_eq_true hk, if_pos rfl, ← hk]
      exact hroomTurn
    · rw [ofTurn, decide_eq_false hk, if_neg Bool.false_ne_true, add_zero]
      exact hturn turn

theorem admitted (hi : h.Inv uuid limits) (hu : Function.Injective uuid)
    (hv : verdict limits who tokens h.budget.db.used = .ok (some n)) (first second : ℤ)
    (ds : List (Except PeerBudgetError PeerBudgetDecision)) :
    History.Inv uuid limits
      { budget := h.allowed uuid who n first second
        calls := h.calls ++ [callOf who (uuid h.budget.drawn) n second]
        decisions := ds } where
  ids := (by
    rw [map_append, nodup_append]
    refine ⟨hi.ids, nodup_singleton _, ?_⟩
    intro id hid id' hid' heq
    obtain ⟨c, hc, rfl⟩ := mem_map.mp hid
    exact hi.fresh hu hc (heq.trans (mem_singleton.mp hid')))
  drawn := (by
    intro c hc
    obtain hc | hc := mem_append.mp hc
    · obtain ⟨i, hlt, hid⟩ := hi.drawn c hc
      exact ⟨i, Nat.lt_succ_of_lt hlt, hid⟩
    · exact ⟨h.budget.drawn, Nat.lt_succ_self _, (by rw [mem_singleton.mp hc]; rfl)⟩)
  rows := List.Sublist.append (filter_sublist.trans hi.rows) (List.Sublist.refl _)
  totals := nodup_compact hi.totals
  full := (by
    intro c hc hs
    obtain hc | hc := mem_append.mp hc
    · exact hi.full c hc hs
    · rw [mem_singleton.mp hc]
      rfl)
  accounts := (by
    intro q
    have hsum := congrFun (@used_compact first _ hi.totals) q
    rw [hi.accounts] at hsum
    rw [held_append, ← hsum]
    show held q (_ ++ [_]) + _ = held q _ + _ + _
    rw [held_append]
    abel)
  fits := fun _ hl => hi.fits_admit hv _ _ hl

/-- An update that leaves a call fewer tokens, or nothing. -/
theorem edited (hi : h.Inv uuid limits) {id : String} {f : PeerCall → PeerCall} {row : PeerCall}
    (hf : SameCall f) (hrow : rowAt PeerCall.id id h.budget.db.calls = some row)
    (hless : row.state = .reserved → charge (f row) ≤ charge row) (hdone : ∀ c, (f c).state ≠ .reserved) :
    History.Inv uuid limits
      { h with budget := { h.budget with db := h.budget.db.edit id f }, calls := editReserved id f h.calls } := by
  obtain ⟨hmem, hid⟩ := rowAt_some hrow
  have hbook := hi.rows.subset hmem
  by_cases hs : row.state = .reserved
  · -- The row and its call are the same, and change by the same.
    have hcalls := held_edit hf hi.ids hbook hid hs
    have hrows := held_edit hf hi.rowIds hmem hid hs
    have hle : ∀ q, held q (editReserved id f h.calls) ≤ held q h.calls := by
      intro q
      have hq := hcalls q
      by_cases hk : q row.key = true
      · rw [if_pos hk, if_pos hk] at hq
        exact le_of_add_le_add_right (hq.le.trans (add_le_add_right (hless hs) _))
      · rw [if_neg hk, if_neg hk, add_zero, add_zero] at hq
        exact hq.le
    refine
      { ids := ?_, drawn := ?_, rows := hi.rows.map _, totals := hi.totals, full := ?_, accounts := ?_, fits := ?_ }
    · rw [ids_edit hf]
      exact hi.ids
    · intro c hc
      obtain ⟨x, hx, rfl⟩ := mem_map.mp hc
      obtain ⟨i, hlt, hdraw⟩ := hi.drawn x hx
      refine ⟨i, hlt, hdraw.trans ?_⟩
      split
      · exact (hf x).1.symm
      · rfl
    · intro c hc
      obtain ⟨x, hx, rfl⟩ := mem_map.mp hc
      split
      · exact fun hres => absurd hres (hdone x)
      · exact hi.full x hx
    · intro q
      have hacc := hi.accounts q
      refine add_right_cancel (b := if q row.key then charge row else 0) ?_
      rw [hcalls q, ← hacc]
      show held q (editReserved id f h.budget.db.calls) + _ + _ = held q h.budget.db.calls + _ + _
      rw [add_right_comm, hrows q, add_right_comm]
      rfl
    · intro l hl
      obtain ⟨hpeer, hturn⟩ := hi.fits l hl
      exact ⟨fun key => (hle _).trans (hpeer key), fun turn => (hle _).trans (hturn turn)⟩
  · have hcalls : editReserved id f h.calls = h.calls := edit_settled hi.ids hbook hid hs
    have hrows : h.budget.db.edit id f = h.budget.db := by
      rw [PeerDb.edit, edit_settled hi.rowIds hmem hid hs]
    rw [hcalls, hrows]
    exact hi

theorem act (hi : h.Inv uuid limits) (hu : Function.Injective uuid) (op : PeerOp) :
    (h.act uuid limits op).Inv uuid limits := by
  cases op with
  | restart now => exact hi.compacted now
  | reserve who tokens first second =>
      rw [act_reserve hi hu]
      cases hv : verdict limits who tokens h.budget.db.used with
      | error e => exact hi.answered _
      | ok n =>
          cases n with
          | none => exact (hi.compacted first).answered _
          | some n => exact hi.admitted hu hv first second _
  | finish id tokens =>
      rw [act_finish]
      cases hs : settles (rowAt PeerCall.id id h.budget.db.calls) tokens with
      | none => exact hi
      | some n =>
          obtain ⟨c, hrow, -, hle⟩ := settles_some hs
          refine hi.edited (sameCall_spend n) hrow (fun hres => ?_) fun _ h => (by cases h)
          have hfull := hi.full c (hi.rows.subset (rowAt_some hrow).1) hres
          have hn : n ≤ c.tokens := hle.trans_eq hfull.symm
          rw [charge, charge, PeerCall.live, PeerCall.live, hres]
          exact ⟨Nat.le_refl _, hn⟩
  | cancel id =>
      rw [act_cancel]
      cases hrow : rowAt PeerCall.id id h.budget.db.calls with
      | none => exact hi
      | some c => exact hi.edited sameCall_drop hrow (fun _ => ⟨Nat.zero_le _, Nat.zero_le _⟩) fun _ h => (by cases h)

end History.Inv

/-- Every history keeps its accounts. -/
theorem inv_after (hu : Function.Injective uuid) (ops : List PeerOp) :
    (History.after uuid limits ops).Inv uuid limits := by
  have hrun : ∀ h : History, h.Inv uuid limits → (ops.foldl (History.act uuid limits) h).Inv uuid limits := by
    induction ops with
    | nil => exact fun h hi => hi
    | cons op ops ih => exact fun h hi => ih _ (hi.act hu op)
  exact hrun _ inv_start

end Plur1bus.Budget.Peer
