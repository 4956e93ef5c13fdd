import Plur1bus.Session.Compaction
import Mathlib.Algebra.Order.Floor.Ring
import Mathlib.Algebra.Order.Field.Rat
import Mathlib.Algebra.BigOperators.Group.List.Basic
import Mathlib.Tactic.Linarith

/-!
The bound on the context of a model call. Cut texts keep to their size, and a
view that was brought down is within the hard limit. Its count is the sum of
the counts of what it holds, except where the newest message was left alone
although it was measured: there the code goes by the estimate.
-/

namespace Plur1bus.Session

open List Option

open Program (Units)

/-! ### Cut texts -/

theorem estimateTokens_take (text : Units) (maxTokens : ℕ) :
    estimateTokens (text.take (maxTokens * 4)) ≤ maxTokens := by
  have := length_take_le (maxTokens * 4) text
  rw [estimateTokens]
  omega

theorem truncateWithPointer_estimate (text : Units) (maxTokens : ℕ) (pointer : String) :
    estimateTokens (truncateWithPointer text maxTokens pointer).text ≤ maxTokens := by
  rw [truncateWithPointer]
  split
  · assumption
  · exact estimateTokens_take _ _

theorem fitTail_estimate (text : Units) (maxTokens : ℕ) :
    estimateTokens (fitTail text maxTokens) ≤ maxTokens := by
  rw [fitTail]
  split
  · assumption
  · dsimp only
    split
    · assumption
    · exact estimateTokens_take _ _

namespace Compactor

variable {c : Compactor} {s : Store} {sessionId : String}

/-! ### Counts -/

/-- The estimate scaled for the model, which is what is counted without a
measurement. -/
def scaled (c : Compactor) (s : Store) (sessionId : String) (text : Units) : ℕ :=
  ⌈(estimateTokens text : ℚ) * s.tokenFactor (c.modelOf sessionId)⌉₊

theorem count_none (text : Units) : c.count s sessionId text = c.scaled s sessionId text := rfl

theorem tokenFactor_pos (s : Store) (model : String) : 0 < s.tokenFactor model := by
  rw [Store.tokenFactor]
  cases s.tokenCalibration model with
  | none => exact one_pos
  | some q => exact q.2

/-- A text of the room for the last message is within the hard limit. -/
theorem scaled_le_hardLimit {text : Units} (h : estimateTokens text ≤ c.lastRoom s sessionId) :
    c.scaled s sessionId text ≤ c.hardLimit sessionId := by
  have hpos := tokenFactor_pos s (c.modelOf sessionId)
  have hroom : (estimateTokens text : ℚ) ≤
      (c.hardLimit sessionId : ℚ) / s.tokenFactor (c.modelOf sessionId) := by
    have hfloor : (c.lastRoom s sessionId : ℚ) ≤
        (c.hardLimit sessionId : ℚ) / s.tokenFactor (c.modelOf sessionId) :=
      Nat.floor_le (div_nonneg (Nat.cast_nonneg _) hpos.le)
    exact (Nat.cast_le.mpr h).trans hfloor
  refine Nat.ceil_le.mpr ?_
  exact (le_div_iff₀ hpos).mp hroom

/-- A valid measurement for this text is not what the estimate says. -/
def Misjudged (c : Compactor) (s : Store) (sessionId : String) (id : String) (text : Units) : Prop :=
  ∃ tokens, s.measured id (c.modelOf sessionId) text = some tokens ∧
    (0 ≤ tokens ∧ tokens ≤ MAX_SAFE_INTEGER) ∧ tokens.toNat ≠ c.scaled s sessionId text

theorem count_eq_scaled_iff (id : String) (text : Units) :
    c.count s sessionId text (some id) = c.scaled s sessionId text ↔ ¬c.Misjudged s sessionId id text := by
  rw [count, bind_some, Misjudged]
  cases s.measured id (c.modelOf sessionId) text with
  | none => exact iff_of_true rfl (fun ⟨_, h, _⟩ => (by cases h))
  | some tokens =>
    rw [meterCount]
    split
    · rename_i hvalid
      constructor
      · rintro heq ⟨tokens', h, -, hne⟩
        cases h
        exact hne heq
      · intro hno
        by_contra hne
        exact hno ⟨tokens, rfl, hvalid, hne⟩
    · rename_i hinvalid
      refine iff_of_true rfl ?_
      rintro ⟨tokens', h, hvalid, -⟩
      cases h
      exact hinvalid hvalid

/-! ### Leaving out messages -/

theorem tokensOf_cons (c : Compactor) (m : ViewMessage) {s : Store} {sessionId : String}
    (summaries : List SummaryRecord) (messages : List ViewMessage) :
    c.tokensOf s sessionId summaries (m :: messages) =
      c.count s sessionId m.text (some m.id) + c.tokensOf s sessionId summaries messages := by
  rw [tokensOf, tokensOf, map_cons, sum_cons]
  omega

theorem tokensOf_getLast_le (c : Compactor) (s : Store) (sessionId : String)
    (summaries : List SummaryRecord) {messages : List ViewMessage} {newest : ViewMessage}
    (h : messages.getLast? = some newest) :
    c.tokensOf s sessionId summaries [newest] ≤ c.tokensOf s sessionId summaries messages := by
  obtain ⟨before, rfl⟩ := List.getLast?_eq_some_iff.mp h
  clear h
  induction before with
  | nil => exact Nat.le_refl _
  | cons m before ih =>
    rw [cons_append, tokensOf_cons c m]
    exact ih.trans (Nat.le_add_left _ _)

/-- The loop keeps the count right and the newest message in the view, and ends
with a view that fits or with one message. -/
theorem dropOldest_spec (limit : ℤ) (summaries : List SummaryRecord) (messages : List ViewMessage)
    (tokens : ℤ) (clipped : ℕ) (h : tokens = c.tokensOf s sessionId summaries messages) :
    let r := c.dropOldest s sessionId limit messages tokens clipped
    r.2.1 = c.tokensOf s sessionId summaries r.1 ∧ r.1.getLast? = messages.getLast? ∧
      (r.2.1 ≤ limit ∨ r.1.length ≤ 1) := by
  induction messages generalizing tokens clipped with
  | nil => exact ⟨h, rfl, Or.inr (Nat.zero_le _)⟩
  | cons m messages ih =>
    cases messages with
    | nil => exact ⟨h, rfl, Or.inr (Nat.le_refl _)⟩
    | cons next rest =>
      dsimp only
      rw [dropOldest]
      split
      · rw [List.getLast?_cons_cons]
        refine ih _ _ ?_
        rw [h, tokensOf_cons]
        push_cast
        omega
      · rename_i hfits
        exact ⟨h, rfl, Or.inl (Int.not_lt.mp hfits)⟩

/-! ### The last step -/

/-- The newest message is left alone, and was measured for the text it is left
with. -/
def Slips (c : Compactor) (s : Store) (sessionId : String) (v : ContextView) : Prop :=
  ∃ newest, v.messages.getLast? = some newest ∧
    c.hardLimit sessionId < c.tokensOf s sessionId v.summaries [newest] ∧
    c.Misjudged s sessionId newest.id (fitTail newest.text (c.lastRoom s sessionId))

/-- The count of a view is the sum of the counts of what it holds. -/
def Summed (c : Compactor) (s : Store) (sessionId : String) (v : ContextView) : Prop :=
  v.tokens = c.tokensOf s sessionId v.summaries v.messages

theorem collapse_le (v : ContextView) : (c.collapse s sessionId v).tokens ≤ c.hardLimit sessionId := by
  rw [collapse]
  cases v.messages.getLast? with
  | none => exact Int.natCast_nonneg _
  | some newest =>
    refine Int.ofNat_le.mpr ?_
    rw [map_some, toList_some, map_singleton, sum_singleton, count_none]
    exact scaled_le_hardLimit (fitTail_estimate _ _)

theorem summed_collapse_iff (v : ContextView) : c.Summed s sessionId (c.collapse s sessionId v) ↔
      ∀ newest, v.messages.getLast? = some newest →
        ¬c.Misjudged s sessionId newest.id (fitTail newest.text (c.lastRoom s sessionId)) := by
  rw [Summed, collapse]
  cases v.messages.getLast? with
  | none => exact iff_of_true rfl (fun _ h => (by cases h))
  | some newest =>
    rw [map_some, toList_some, map_singleton, sum_singleton, count_none, tokensOf_cons]
    have hnil : c.tokensOf s sessionId [] [] = 0 := rfl
    rw [hnil, Int.ofNat_inj, eq_comm]
    refine (count_eq_scaled_iff newest.id (fitTail newest.text (c.lastRoom s sessionId))).trans ?_
    constructor
    · rintro h newest' heq
      rw [← Option.some.inj heq]
      exact h
    · exact fun h => h newest rfl

theorem fit_spec (v : ContextView) (hv : c.Summed s sessionId v) :
    (c.fit s sessionId v).tokens ≤ c.hardLimit sessionId ∧
      (c.Summed s sessionId (c.fit s sessionId v) ↔ ¬c.Slips s sessionId v) := by
  obtain ⟨hsum, hlast, hend⟩ :=
    dropOldest_spec (c.hardLimit sessionId) v.summaries v.messages v.tokens v.clipped hv
  rw [fit]
  dsimp only
  generalize c.dropOldest s sessionId (c.hardLimit sessionId) v.messages v.tokens v.clipped = dropped
    at hsum hlast hend
  split
  · rename_i hover
    refine ⟨collapse_le _, (summed_collapse_iff _).trans ?_⟩
    dsimp only
    rw [hlast]
    constructor
    · rintro h ⟨newest, hnewest, -, hmis⟩
      exact h newest hnewest hmis
    · intro h newest hnewest hmis
      refine h ⟨newest, hnewest, ?_, hmis⟩
      -- one message is left, so the count is that of the summaries and this one
      have hone : dropped.1 = [newest] := by
        obtain ⟨before, hbefore⟩ := List.getLast?_eq_some_iff.mp (hlast.trans hnewest)
        have hle := hend.resolve_left (Int.not_le.mpr hover)
        rw [hbefore, length_append, length_singleton] at hle
        rw [hbefore, length_eq_zero_iff.mp (by omega : before.length = 0), nil_append]
      rw [hone] at hsum
      rw [hsum] at hover
      exact Int.ofNat_lt.mp hover
  · rename_i hfits
    refine ⟨Int.not_lt.mp hfits, iff_of_true hsum ?_⟩
    rintro ⟨newest, hnewest, hover, -⟩
    have hle := tokensOf_getLast_le c s sessionId v.summaries (hlast.trans hnewest)
    rw [hsum] at hfits
    have := Int.not_lt.mp hfits
    omega

/-! ### The call -/

theorem summed_view (s : Store) (sessionId : String) : c.Summed s sessionId (c.view s sessionId) := rfl

/-- The store that the view after a swap is a view of. -/
def afterSwap (c : Compactor) (s : Store) (sessionId : String) : Store :=
  c.resumed (c.swap s sessionId (c.view s sessionId)).2

/-- The view as it is brought down after a swap. -/
def fitted (c : Compactor) (s : Store) (sessionId : String) : ContextView :=
  c.fit (c.afterSwap s sessionId) sessionId (c.view (c.afterSwap s sessionId) sessionId)

theorem prepare_of_fits (h : (c.view s sessionId).tokens ≤ c.hardLimit sessionId) :
    c.prepare s sessionId = (c.view s sessionId, s) :=
  if_pos h

theorem prepare_of_over (h : ¬(c.view s sessionId).tokens ≤ c.hardLimit sessionId) :
    (c.prepare s sessionId).2 = c.afterSwap s sessionId ∧
      (c.prepare s sessionId).1.summaries = (c.fitted s sessionId).summaries ∧
      (c.prepare s sessionId).1.messages = (c.fitted s sessionId).messages ∧
      (c.prepare s sessionId).1.tokens = (c.fitted s sessionId).tokens := by
  rw [prepare, if_neg h]
  exact ⟨rfl, rfl, rfl, rfl⟩

theorem fitted_spec (c : Compactor) (s : Store) (sessionId : String) :
    (c.fitted s sessionId).tokens ≤ c.hardLimit sessionId ∧
      (c.Summed (c.afterSwap s sessionId) sessionId (c.fitted s sessionId) ↔
        ¬c.Slips (c.afterSwap s sessionId) sessionId (c.view (c.afterSwap s sessionId) sessionId)) :=
  fit_spec _ (summed_view _ sessionId)

/-- The bound itself holds in every case. -/
theorem prepare_le (c : Compactor) (s : Store) (sessionId : String) :
    (c.prepare s sessionId).1.tokens ≤ c.hardLimit sessionId := by
  by_cases h : (c.view s sessionId).tokens ≤ c.hardLimit sessionId
  · rw [prepare_of_fits h]
    exact h
  · rw [(prepare_of_over h).2.2.2]
    exact (fitted_spec c s sessionId).1

/-- The context is within the bound, and cut texts keep to their size. The count
is that of what the view holds exactly unless a swap was needed and then the
newest message had to stand alone, left with a text that it was measured for. -/
theorem prepare_summed_iff (c : Compactor) (s : Store) (sessionId : String) : let r := c.prepare s sessionId
    ((c.Summed r.2 sessionId r.1 ∧ r.1.tokens ≤ ⌊((c.configFor sessionId).windowTokens : ℚ) *
        (c.configFor sessionId).hardRatio⌋₊) ∧
      (∀ text maxTokens pointer,
        estimateTokens (truncateWithPointer text maxTokens pointer).text ≤ maxTokens) ∧
      ∀ text maxTokens, estimateTokens (fitTail text maxTokens) ≤ maxTokens) ↔
    ¬(c.hardLimit sessionId < (c.view s sessionId).tokens ∧
      c.Slips (c.afterSwap s sessionId) sessionId (c.view (c.afterSwap s sessionId) sessionId)) := by
  intro r
  have hbound : r.1.tokens ≤ ⌊((c.configFor sessionId).windowTokens : ℚ) *
      (c.configFor sessionId).hardRatio⌋₊ := prepare_le c s sessionId
  rw [and_iff_left hbound, and_iff_left ⟨truncateWithPointer_estimate, fitTail_estimate⟩]
  by_cases h : (c.view s sessionId).tokens ≤ c.hardLimit sessionId
  · have hr : r = (c.view s sessionId, s) := prepare_of_fits h
    rw [hr]
    refine iff_of_true (summed_view s sessionId) ?_
    rintro ⟨hover, -⟩
    exact absurd h (Int.not_le.mpr hover)
  · obtain ⟨hstore, hsummaries, hmessages, htokens⟩ := prepare_of_over h
    have hsummed : c.Summed r.2 sessionId r.1 ↔
        c.Summed (c.afterSwap s sessionId) sessionId (c.fitted s sessionId) := by
      rw [Summed, Summed, hstore, hsummaries, hmessages, htokens]
    rw [hsummed, (fitted_spec c s sessionId).2, and_iff_right (Int.not_le.mp h)]

/-! ### A measured newest message -/

section Measured

def sampleConfig : CompactionConfig where
  windowTokens := 1000
  softRatio := 13 / 20
  hardRatio := 22 / 25
  summaryMaxTokens := 150
  maxMessageTokens := 100
  windowTokens_pos := by decide
  softRatio_pos := by norm_num
  soft_lt_hard := by norm_num
  hardRatio_lt_one := by norm_num

/-- One reply of two words, measured at five thousand tokens of the model. -/
def measuredReply : Store where
  db := { messages := [⟨"msg-1", "s", some "turn-1", 1, .assistant, "new answer", 3, 0⟩] }
  messageUsage := [⟨"msg-1", "m", 5000⟩]
  tokenCalibration := fun _ => none

def sampleCompactor : Compactor where
  cfg := sampleConfig
  models := fun _ => some ("m", none)
  env := ⟨fun p k => p ++ toString k, fun _ => 0, fun _ => 0, fun _ => "", fun _ => ⟨0, 0, false⟩⟩
  pruned := fun _ _ => []
  pendingText := fun _ => []
  beforeSwap := none
  resumed := id

/-- The reply is shown whole and counted at three tokens, though it was measured
at more than the bound. -/
theorem measured_reply_counted_by_estimate : let r := sampleCompactor.prepare measuredReply "s"
    r.1.messages.map ViewMessage.text = [Program.units "new answer"] ∧ r.1.tokens = 3 ∧
      sampleCompactor.tokensOf r.2 "s" r.1.summaries r.1.messages = 5000 ∧
      sampleCompactor.hardLimit "s" = 880 := by
  decide +kernel

end Measured


end Compactor

end Plur1bus.Session
