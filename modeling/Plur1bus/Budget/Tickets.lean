import Plur1bus.Budget.Retry
import Plur1bus.Program.Sums
import Mathlib.Algebra.Order.BigOperators.Group.List

/-!
What the two aggregates of a turn have to do with its tickets. The invariant
says of every open turn that its class tokens and its total are sums over its
tickets, a ticket counting for its reservation until a call settles it and for
that call's tokens from then on. What a ticket was settled with stands in the
log of calls only, so the invariant is one of the budget and the log together.
-/

namespace Plur1bus.Budget

open Program Keyed List Function

variable {limits : RetryLimits} {s : RetryBudget} {log : List (RetryAct × RetryAnswer)}

/-! ### The log -/

variable {ev : RetryAct × RetryAnswer} {k : ℕ}

theorem actualTokens_snoc : actualTokens (log ++ [ev]) k = (actualTokens log k).or (settledWith k ev) := by
  unfold actualTokens
  rw [List.findSome?_append]
  cases h : settledWith k ev <;> simp [h]

/-- A call that settles no ticket. -/
def Quiet (ev : RetryAct × RetryAnswer) : Prop := ∀ k, settledWith k ev = none

theorem actualTokens_quiet (h : Quiet ev) (k : ℕ) : actualTokens (log ++ [ev]) k = actualTokens log k := by
  rw [actualTokens_snoc, h k, Option.or_none]

theorem counted_quiet (h : Quiet ev) : counted (log ++ [ev]) = counted log := by
  funext e
  rw [counted, actualTokens_quiet h]
  rfl

/-- How many calls settled a ticket. -/
def settlements (log : List (RetryAct × RetryAnswer)) (k : ℕ) : ℕ :=
  log.countP (fun ev => (settledWith k ev).isSome)

theorem settlements_snoc :
    settlements (log ++ [ev]) k = settlements log k + if (settledWith k ev).isSome then 1 else 0 := by
  unfold settlements
  rw [countP_append, countP_singleton]

theorem settlements_eq_zero : settlements log k = 0 ↔ actualTokens log k = none := by
  unfold settlements actualTokens
  rw [countP_eq_zero, List.findSome?_eq_none_iff]
  simp

/-! ### What a call can do -/

variable {n : Option ℤ}

theorem safeCount_bounds {m : ℤ} (h : safeCount n = some m) : 0 ≤ m ∧ m ≤ MAX_SAFE_INTEGER := by
  obtain ⟨-, hm⟩ := Option.filter_eq_some_iff.mp h
  simp only [isSafeInteger, Bool.and_eq_true, decide_eq_true_eq] at hm
  exact ⟨hm.2, hm.1.2⟩

theorem consume_cases (limits : RetryLimits) (turnId name : String) (n : Option ℤ) (s : RetryBudget) :
    (∃ e, RetryBudget.consume limits turnId name n s = (.error e, s)) ∨
      ∃ c estimated, safeCount n = some estimated ∧ c.name = name ∧
        (RetryBudget.usageOr (s.turnOr turnId) c).attempts < (limits.policy c).maxAttempts ∧
        estimated ≤ (limits.policy c).maxTokens - (RetryBudget.usageOr (s.turnOr turnId) c).tokens ∧
        estimated ≤ limits.maxTurnTokens - (s.turnOr turnId).total ∧
        RetryBudget.consume limits turnId name n s = (.ok (s.nextTicket + 1), s.reserve turnId c estimated) := by
  unfold RetryBudget.consume
  cases hn : safeCount n with
  | none => exact .inl ⟨_, rfl⟩
  | some estimated =>
      by_cases hid : turnId = ""
      · exact .inl ⟨_, if_pos hid⟩
      simp only [if_neg hid]
      cases hc : RetryClass.all.find? (fun c => c.name = name) with
      | none => exact .inl ⟨_, rfl⟩
      | some c => grind

/-- An answer of `settle` that settles nothing. -/
def Unsettled (r : Except RetryError Bool) : Prop := r ≠ .ok true ∧ ∀ c why, r ≠ .error (.exceeded c why)

/-- An answer of `settle` after which the tokens are counted. -/
def Settled (r : Except RetryError Bool) : Prop := r = .ok true ∨ ∃ c why, r = .error (.exceeded c why)

variable {r : Except RetryError Bool}

theorem quiet_of_unsettled (h : Unsettled r) : Quiet (.settle k n, .settled r) := by
  intro k'
  unfold settledWith
  split
  · rename_i heq
    cases heq
    exact absurd rfl h.1
  · rename_i heq
    cases heq
    exact absurd rfl (h.2 _ _)
  · rfl

theorem settledWith_of_settled {k' : ℕ} (h : Settled r) :
    settledWith k' (.settle k n, .settled r) = if k = k' then n else none := by
  obtain rfl | ⟨c, why, rfl⟩ := h
  · rfl
  · rfl

theorem settle_cases (limits : RetryLimits) (k : ℕ) (n : Option ℤ) (s : RetryBudget) :
    (∃ r, Unsettled r ∧ RetryBudget.settle limits k n s = (r, s)) ∨
      ∃ entry turn usage actual r, n = some actual ∧ 0 ≤ actual ∧ entry ∈ s.tickets ∧ entry.id = k ∧
        entry.settled = false ∧ s.turns entry.turnId = some turn ∧
        turn.classes entry.failureClass = some usage ∧
        isSafeInteger (turn.total + (actual - entry.reserved)) = true ∧ Settled r ∧
        RetryBudget.settle limits k n s = (r, s.adopt entry turn usage (actual - entry.reserved)) := by
  unfold RetryBudget.settle
  have hrange : ∀ message, Unsettled (.error (.range message)) := fun message =>
    ⟨fun h => (by cases h), fun c why h => (by cases h)⟩
  cases hn : safeCount n with
  | none => exact .inl ⟨_, hrange _, rfl⟩
  | some actual =>
      obtain ⟨hvalue, -⟩ := Option.filter_eq_some_iff.mp hn
      cases hfind : s.tickets.find? (fun e => e.id = k) with
      | none => exact .inl ⟨_, hrange _, rfl⟩
      | some entry =>
          have hmem := mem_of_find?_eq_some hfind
          have hfound := List.find?_some hfind
          have hid : entry.id = k := of_decide_eq_true hfound
          by_cases hsettled : entry.settled = true
          · exact .inl ⟨.ok false, ⟨fun h => (by cases h), fun c why h => (by cases h)⟩, if_pos hsettled⟩
          simp only [if_neg hsettled]
          have hundefined : Unsettled (.error .undefinedTurn) :=
            ⟨fun h => (by cases h), fun c why h => (by cases h)⟩
          cases hturn : s.turns entry.turnId with
          | none => exact .inl ⟨_, hundefined, rfl⟩
          | some turn =>
              cases husage : turn.classes entry.failureClass with
              | none => exact .inl ⟨.error .undefinedTurn, hundefined, by simp only [husage]⟩
              | some usage =>
                  simp only [husage]
                  split
                  · exact .inl ⟨_, hrange _, rfl⟩
                  · rename_i hsafe
                    simp only [Bool.or_eq_true, not_or, Bool.not_eq_true', Bool.not_eq_false] at hsafe
                    have hopen : entry.settled = false := by simpa using hsettled
                    have hnonneg := (safeCount_bounds hn).1
                    split
                    · exact .inr ⟨entry, turn, usage, actual, _, hvalue, hnonneg, hmem, hid, hopen, hturn, husage,
                        hsafe.1, .inr ⟨_, _, rfl⟩, rfl⟩
                    · exact .inr ⟨entry, turn, usage, actual, _, hvalue, hnonneg, hmem, hid, hopen, hturn, husage,
                        hsafe.1, .inl rfl, rfl⟩

/-! ### The invariant -/

/-- The tickets of a turn. -/
def ofTurn (t : String) (e : Ticket) : Bool := e.turnId = t

/-- The tickets of a failure class in a turn. -/
def ofClass (t : String) (c : RetryClass) (e : Ticket) : Bool := e.turnId = t && e.failureClass = c

variable {t : String}

theorem ofClass_iff {c : RetryClass} {e : Ticket} :
    ofClass t c e = true ↔ e.turnId = t ∧ e.failureClass = c := by
  simp [ofClass]

/-- What the tickets say of a turn. -/
structure Balanced (limits : RetryLimits) (log : List (RetryAct × RetryAnswer)) (tickets : List Ticket)
    (t : String) (turn : Turn) : Prop where
  tokens : ∀ c, (RetryBudget.usageOr turn c).tokens = sumOf (ofClass t c) (counted log) tickets
  total : turn.total = sumOf (ofTurn t) (counted log) tickets
  attempts : ∀ c, (RetryBudget.usageOr turn c).attempts ≤ (limits.policy c).maxAttempts
  safe : turn.total ≤ MAX_SAFE_INTEGER

structure Accounted (limits : RetryLimits) (s : RetryBudget) (log : List (RetryAct × RetryAnswer)) : Prop where
  nodup : (s.tickets.map Ticket.id).Nodup
  ids : ∀ e ∈ s.tickets, e.id ≤ s.nextTicket
  unseen : ∀ k, s.nextTicket < k → actualTokens log k = none
  settled : ∀ e ∈ s.tickets, e.settled = (actualTokens log e.id).isSome
  once : ∀ k, settlements log k ≤ 1
  nonneg : ∀ e ∈ s.tickets, 0 ≤ counted log e
  held : ∀ e ∈ s.tickets, ∃ turn usage, s.turns e.turnId = some turn ∧ turn.classes e.failureClass = some usage
  balanced : ∀ t turn, s.turns t = some turn → Balanced limits log s.tickets t turn

theorem Accounted.start (limits : RetryLimits) : Accounted limits {} [] where
  nodup := nodup_nil
  ids := fun _ he => absurd he not_mem_nil
  unseen := fun _ _ => rfl
  settled := fun _ he => absurd he not_mem_nil
  once := fun _ => Nat.zero_le _
  nonneg := fun _ he => absurd he not_mem_nil
  held := fun _ he => absurd he not_mem_nil
  balanced := fun t turn ht => by cases ht

/-- A call that changes nothing and settles nothing. -/
theorem Accounted.quiet (h : Accounted limits s log) (hq : Quiet ev) :
    Accounted limits s (log ++ [ev]) where
  nodup := h.nodup
  ids := h.ids
  unseen := fun k hk => by rw [actualTokens_quiet hq]; exact h.unseen k hk
  settled := fun e he => by rw [actualTokens_quiet hq]; exact h.settled e he
  once := fun k => by rw [settlements_snoc, hq k]; exact h.once k
  nonneg := by rw [counted_quiet hq]; exact h.nonneg
  held := h.held
  balanced := fun t turn ht => by
    obtain ⟨htokens, htotal, hattempts, hsafe⟩ := h.balanced t turn ht
    refine ⟨?_, ?_, hattempts, hsafe⟩
    · rw [counted_quiet hq]; exact htokens
    · rw [counted_quiet hq]; exact htotal

/-- An open turn, and one that is not there yet, are balanced. -/
theorem Accounted.balanced_turnOr (h : Accounted limits s log) (t : String) :
    Balanced limits log s.tickets t (s.turnOr t) := by
  unfold RetryBudget.turnOr
  cases ht : s.turns t with
  | some turn => exact h.balanced t turn ht
  | none =>
      -- No ticket belongs to a turn that is not open.
      have hnone : ∀ e ∈ s.tickets, ofTurn t e = false := by
        intro e he
        obtain ⟨turn, _, hturn, _⟩ := h.held e he
        refine decide_eq_false fun heq => ?_
        rw [heq, ht] at hturn
        cases hturn
      have hclass : ∀ c, ∀ e ∈ s.tickets, ofClass t c e = false := fun c e he => by
        have := hnone e he
        simp only [ofTurn] at this
        simp [ofClass, this]
      refine ⟨fun c => ?_, ?_, fun c => Nat.zero_le _, by decide⟩
      · rw [sumOf_eq_zero (hclass c)]
        rfl
      · rw [sumOf_eq_zero hnone]
        rfl

variable {turn : Turn} {usage : Usage}

/-- A turn with other numbers for one of its classes. -/
theorem usageOr_update {c c' : RetryClass} {total : ℤ} :
    RetryBudget.usageOr ⟨total, Function.update turn.classes c (some usage)⟩ c' =
      if c' = c then usage else RetryBudget.usageOr turn c' := by
  unfold RetryBudget.usageOr
  by_cases hc : c' = c
  · subst hc
    simp
  · simp [hc]

theorem Accounted.reserve {c : RetryClass} {estimated : ℤ} (h : Accounted limits s log) (hq : Quiet ev)
    (hnonneg : 0 ≤ estimated)
    (hattempts : (RetryBudget.usageOr (s.turnOr t) c).attempts < (limits.policy c).maxAttempts)
    (hturn : estimated ≤ limits.maxTurnTokens - (s.turnOr t).total) :
    Accounted limits (s.reserve t c estimated) (log ++ [ev]) := by
  have hnew : actualTokens log (s.nextTicket + 1) = none := h.unseen _ (Nat.lt_succ_self _)
  have hcounted : counted log ⟨s.nextTicket + 1, t, c, estimated, false⟩ = estimated := by
    show (actualTokens log (s.nextTicket + 1)).getD estimated = estimated
    rw [hnew]
    rfl
  refine Accounted.quiet ?_ hq
  constructor
  case nodup =>
    show (List.map Ticket.id (s.tickets ++ [_])).Nodup
    rw [map_append, map_singleton]
    refine List.Nodup.append h.nodup (nodup_singleton _) ?_
    intro k hk hk'
    obtain ⟨e, he, rfl⟩ := mem_map.mp hk
    have hle := h.ids e he
    rw [mem_singleton.mp hk'] at hle
    exact absurd hle (Nat.not_succ_le_self _)
  case ids =>
    intro e he
    obtain he | he := mem_append.mp he
    · exact Nat.le_succ_of_le (h.ids e he)
    · rw [mem_singleton.mp he]
      exact Nat.le_refl _
  case unseen => exact fun k hk => h.unseen k (Nat.lt_of_succ_lt hk)
  case settled =>
    intro e he
    obtain he | he := mem_append.mp he
    · exact h.settled e he
    · rw [mem_singleton.mp he, hnew]
      rfl
  case once => exact h.once
  case nonneg =>
    intro e he
    obtain he | he := mem_append.mp he
    · exact h.nonneg e he
    · rw [mem_singleton.mp he, hcounted]
      exact hnonneg
  case held =>
    intro e he
    show ∃ turn usage, Function.update s.turns t _ e.turnId = some turn ∧ _
    by_cases hid : e.turnId = t
    · rw [hid, update_self]
      by_cases hclass : e.failureClass = c
      · exact ⟨_, _, rfl, by rw [hclass]; exact update_self ..⟩
      · obtain he | he := mem_append.mp he
        · obtain ⟨turn, usage, hopen, husage⟩ := h.held e he
          have hsame : s.turnOr t = turn := by rw [RetryBudget.turnOr, ← hid, hopen]; rfl
          exact ⟨_, usage, rfl, (update_of_ne hclass ..).trans (by rw [hsame]; exact husage)⟩
        · exact absurd (by rw [mem_singleton.mp he]) hclass
    · obtain he | he := mem_append.mp he
      · obtain ⟨turn, usage, hopen, husage⟩ := h.held e he
        exact ⟨turn, usage, by rw [update_of_ne hid]; exact hopen, husage⟩
      · exact absurd (by rw [mem_singleton.mp he]) hid
  case balanced =>
    intro t' turn' hopen
    have hsnoc : ∀ p : Ticket → Bool, sumOf p (counted log) (s.reserve t c estimated).tickets =
        sumOf p (counted log) s.tickets + if p ⟨s.nextTicket + 1, t, c, estimated, false⟩ then estimated else 0 := by
      intro p
      show sumOf p (counted log) (s.tickets ++ [_]) = _
      rw [sumOf_snoc, hcounted]
    by_cases hid : t' = t
    · subst hid
      obtain ⟨htokens, htotal, hall, hsafe⟩ := h.balanced_turnOr t'
      rw [show (s.reserve t' c estimated).turns t' = some _ from update_self ..] at hopen
      cases hopen
      refine ⟨fun c' => ?_, ?_, fun c' => ?_, ?_⟩
      · rw [usageOr_update, hsnoc, ← htokens c']
        by_cases hc : c' = c
        · subst hc
          simp [ofClass]
        · simp [ofClass, hc, Ne.symm hc]
      · rw [hsnoc, ← htotal]
        simp [ofTurn]
      · rw [usageOr_update]
        split
        · rename_i hc
          subst hc
          exact hattempts
        · exact hall c'
      · have := limits.turn_safe.2
        show (s.turnOr t').total + estimated ≤ _
        omega
    · have hold : s.turns t' = some turn' := (update_of_ne hid ..).symm.trans hopen
      obtain ⟨htokens, htotal, hall, hsafe⟩ := h.balanced t' turn' hold
      refine ⟨fun c' => ?_, ?_, hall, hsafe⟩
      · rw [hsnoc, htokens c']
        simp [ofClass, Ne.symm hid]
      · rw [hsnoc, htotal]
        simp [ofTurn, Ne.symm hid]

theorem Accounted.adopt {entry : Ticket} {actual : ℤ} (h : Accounted limits s log)
    (hnonneg : 0 ≤ actual) (hentry : entry ∈ s.tickets) (hopen : entry.settled = false)
    (hturn : s.turns entry.turnId = some turn) (husage : turn.classes entry.failureClass = some usage)
    (hsafe : turn.total + (actual - entry.reserved) ≤ MAX_SAFE_INTEGER)
    (hev : ∀ k, settledWith k ev = if entry.id = k then some actual else none) :
    Accounted limits (s.adopt entry turn usage (actual - entry.reserved)) (log ++ [ev]) := by
  have hbefore : actualTokens log entry.id = none := by
    have := h.settled entry hentry
    rw [hopen] at this
    simpa using this.symm
  have hself : actualTokens (log ++ [ev]) entry.id = some actual := by
    rw [actualTokens_snoc, hbefore, hev, if_pos rfl]
    rfl
  have hother : ∀ k, k ≠ entry.id → actualTokens (log ++ [ev]) k = actualTokens log k := by
    intro k hk
    rw [actualTokens_snoc, hev, if_neg (Ne.symm hk), Option.or_none]
  have hreserved : counted log entry = entry.reserved := by
    rw [counted, hbefore]
    rfl
  have hcounted : counted (log ++ [ev]) entry = actual := by
    rw [counted, hself]
    rfl
  let mark : Ticket → Ticket := fun e => if e.id = entry.id then { e with settled := true } else e
  have hid : ∀ e, (mark e).id = e.id ∧ (mark e).turnId = e.turnId ∧ (mark e).failureClass = e.failureClass ∧
      (mark e).reserved = e.reserved := by
    intro e
    by_cases hkey : e.id = entry.id
    · rw [show mark e = { e with settled := true } from if_pos hkey]
      exact ⟨rfl, rfl, rfl, rfl⟩
    · rw [show mark e = e from if_neg hkey]
      exact ⟨rfl, rfl, rfl, rfl⟩
  have hids : (s.tickets.map mark).map Ticket.id = s.tickets.map Ticket.id := by
    rw [List.map_map]
    exact map_congr_left fun e _ => (hid e).1
  -- A sum over tickets grows by the difference if it counts this one.
  have hsum : ∀ p : Ticket → Bool, (∀ e, p (mark e) = p e) →
      sumOf p (counted (log ++ [ev])) (s.tickets.map mark) =
        sumOf p (counted log) s.tickets + if p entry then actual - entry.reserved else 0 := by
    intro p hp
    have hmap : sumOf p (counted (log ++ [ev])) (s.tickets.map mark) = sumOf p (counted (log ++ [ev])) s.tickets := by
      rw [sumOf_map fun e _ => hp e]
      refine sumOf_congr (fun _ _ => rfl) fun e _ _ => ?_
      rw [counted, counted, (hid e).1, (hid e).2.2.2]
    have hchange : sumOf p (counted (log ++ [ev])) s.tickets + (if p entry then counted log entry else 0) =
        sumOf p (counted log) s.tickets + if p entry then counted (log ++ [ev]) entry else 0 :=
      sumOf_change h.nodup hentry fun e _ hne => by rw [counted, counted, hother e.id hne]
    rw [hreserved, hcounted] at hchange
    rw [hmap]
    split at hchange
    · rename_i hpe
      rw [if_pos hpe]
      omega
    · rename_i hpe
      rw [if_neg hpe]
      omega
  constructor
  case nodup =>
    show ((s.tickets.map mark).map Ticket.id).Nodup
    rw [hids]
    exact h.nodup
  case ids =>
    intro e he
    obtain ⟨e', he', rfl⟩ := mem_map.mp he
    show (mark e').id ≤ _
    rw [(hid e').1]
    exact h.ids e' he'
  case unseen =>
    intro k hk
    have hne : k ≠ entry.id := by
      have := h.ids entry hentry
      have hk' : s.nextTicket < k := hk
      omega
    rw [hother k hne]
    exact h.unseen k hk
  case settled =>
    intro e he
    obtain ⟨e', he', rfl⟩ := mem_map.mp he
    show (mark e').settled = (actualTokens _ (mark e').id).isSome
    rw [(hid e').1]
    by_cases hkey : e'.id = entry.id
    · rw [hkey, hself]
      show (if _ then _ else _ : Ticket).settled = true
      rw [if_pos hkey]
    · rw [hother _ hkey, ← h.settled e' he']
      show (if _ then _ else _ : Ticket).settled = _
      rw [if_neg hkey]
  case once =>
    intro k
    rw [settlements_snoc, hev]
    by_cases hkey : entry.id = k
    · have hzero := settlements_eq_zero.mpr (hkey ▸ hbefore)
      rw [hzero, if_pos hkey]
      exact Nat.le_refl 1
    · rw [if_neg hkey]
      exact h.once k
  case nonneg =>
    intro e he
    obtain ⟨e', he', rfl⟩ := mem_map.mp he
    show 0 ≤ (actualTokens _ (mark e').id).getD (mark e').reserved
    rw [(hid e').1, (hid e').2.2.2]
    by_cases hkey : e'.id = entry.id
    · rw [hkey, hself]
      exact hnonneg
    · rw [hother _ hkey]
      exact h.nonneg e' he'
  case held =>
    intro e he
    obtain ⟨e', he', rfl⟩ := mem_map.mp he
    obtain ⟨turn', usage', hturn', husage'⟩ := h.held e' he'
    show ∃ turn₂ usage₂, Function.update s.turns entry.turnId _ (mark e').turnId = some turn₂ ∧
      turn₂.classes (mark e').failureClass = some usage₂
    rw [(hid e').2.1, (hid e').2.2.1]
    by_cases hkey : e'.turnId = entry.turnId
    · grind
    · exact ⟨turn', usage', by rw [update_of_ne hkey]; exact hturn', husage'⟩
  case balanced =>
    intro t' turn' hopen'
    have hclassSum := fun c => hsum (ofClass t' c) (fun e => by
      rw [ofClass, ofClass, (hid e).2.1, (hid e).2.2.1])
    have hturnSum := hsum (ofTurn t') (fun e => by rw [ofTurn, ofTurn, (hid e).2.1])
    by_cases hkey : t' = entry.turnId
    · subst hkey
      obtain ⟨htokens, htotal, hall, -⟩ := h.balanced _ turn hturn
      rw [show (s.adopt entry turn usage _).turns entry.turnId = some _ from update_self ..] at hopen'
      cases hopen'
      have hprev : RetryBudget.usageOr turn entry.failureClass = usage := by
        rw [RetryBudget.usageOr, husage]
        rfl
      refine ⟨fun c => ?_, ?_, fun c => ?_, hsafe⟩
      · show (RetryBudget.usageOr _ c).tokens = sumOf _ _ (s.tickets.map mark)
        rw [usageOr_update, hclassSum c, ← htokens c]
        by_cases hc : c = entry.failureClass
        · subst hc
          simp [ofClass, hprev]
        · simp [ofClass, hc, Ne.symm hc]
      · show turn.total + _ = sumOf _ _ (s.tickets.map mark)
        rw [hturnSum, ← htotal]
        simp [ofTurn]
      · rw [usageOr_update]
        split
        · rename_i hc
          have := hall entry.failureClass
          rw [hprev] at this
          rw [hc]
          exact this
        · exact hall c
    · have hold : s.turns t' = some turn' := (update_of_ne hkey ..).symm.trans hopen'
      obtain ⟨htokens, htotal, hall, hsafe'⟩ := h.balanced t' turn' hold
      refine ⟨fun c => ?_, ?_, hall, hsafe'⟩
      · show _ = sumOf _ _ (s.tickets.map mark)
        rw [hclassSum c, htokens c]
        simp [ofClass, Ne.symm hkey]
      · show _ = sumOf _ _ (s.tickets.map mark)
        rw [hturnSum, htotal]
        simp [ofTurn, Ne.symm hkey]

theorem Accounted.endTurn (h : Accounted limits s log) : Accounted limits (s.endTurn t) log := by
  have hkept : ∀ e ∈ (s.endTurn t).tickets, e ∈ s.tickets ∧ e.turnId ≠ t := by
    intro e he
    obtain ⟨he, hne⟩ := mem_filter.mp he
    exact ⟨he, of_decide_eq_true hne⟩
  constructor
  case nodup => exact h.nodup.sublist (List.Sublist.map _ filter_sublist)
  case ids => exact fun e he => h.ids e (hkept e he).1
  case unseen => exact h.unseen
  case settled => exact fun e he => h.settled e (hkept e he).1
  case once => exact h.once
  case nonneg => exact fun e he => h.nonneg e (hkept e he).1
  case held =>
    intro e he
    obtain ⟨turn, usage, hturn, husage⟩ := h.held e (hkept e he).1
    exact ⟨turn, usage, (update_of_ne (hkept e he).2 ..).trans hturn, husage⟩
  case balanced =>
    intro t' turn' hopen
    have hne : t' ≠ t := by
      rintro rfl
      rw [show (s.endTurn t').turns t' = none from update_self ..] at hopen
      cases hopen
    have hold : s.turns t' = some turn' := (update_of_ne hne ..).symm.trans hopen
    obtain ⟨htokens, htotal, hall, hsafe⟩ := h.balanced t' turn' hold
    refine ⟨fun c => ?_, ?_, hall, hsafe⟩
    · rw [htokens c]
      refine (sumOf_filter fun e _ he => ?_).symm
      simp [(ofClass_iff.mp he).1, hne]
    · rw [htotal]
      refine (sumOf_filter fun e _ he => ?_).symm
      have : e.turnId = t' := of_decide_eq_true he
      simp [this, hne]

end Plur1bus.Budget
