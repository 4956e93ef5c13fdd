import Plur1bus.Policy.Decide

/-!
What an allow means. The evaluator answers `allow` on two paths only: the class
of the call is `allowed` after the floors, or a grant of the source applies.
Everything else in this file reads the two paths back as conditions on the
call, the context and the grant.
-/

namespace Plur1bus.Policy

open List

/-! ### The path of a grant -/

/-- The checks of `grantApplies`, by name. -/
structure GrantHolds (canon : String → String) (g : Grant) (d : CapabilityDef) (call : Call)
    (ctx : Context) (flags : CallFlags) (effect : Effect) (batch suspends : Bool)
    (now maxGrantDays : ℤ) : Prop where
  notRevoked : g.revoked = false
  capability : canon g.capability = d.id.name
  person : g.person = ctx.person
  job : jobMismatch g ctx = false
  agent : foreignAgent g ctx = false
  scope : scopeRank g.scope ≤ scopeRank (maxScopeFor d { flags with batch := batch })
  created : g.createdAt ≤ now
  notExpired : now < grantExpiry g maxGrantDays
  lastUsed : ∀ t ∈ g.lastUsedAt, t ≤ now
  surface : requiredSurface d g.scope flags ≤ g.surface
  taint : suspends = true → g.scope = .once
  project : g.projectId.isSome = true → g.projectId = ctx.projectId
  scopeMatches : scopeMatches g d call ctx flags effect batch = true

variable {canon : String → String} {g : Grant} {d : CapabilityDef} {call : Call} {ctx : Context}
  {flags : CallFlags} {effect : Effect} {batch : Bool} {maxGrantDays : ℤ}

theorem grantApplies_iff {suspends : Bool} {now : ℤ} :
    grantApplies canon g d call ctx flags effect batch suspends now maxGrantDays = true ↔
      GrantHolds canon g d call ctx flags effect batch suspends now maxGrantDays := by
  -- every early return answers `false`, so the chain is one conjunction
  simp only [grantApplies, Bool.if_false_left, Bool.and_eq_true, Bool.or_eq_true, Bool.not_eq_true',
    decide_eq_false_iff_not, not_or, Bool.not_eq_true, bne_iff_ne, ne_eq, Decidable.not_not, not_lt,
    ge_iff_le, not_le, gt_iff_lt, Option.any_eq_true, not_exists, not_and]
  constructor
  · rintro ⟨⟨⟨h1, h2⟩, h3⟩, h4, h5, h6, ⟨h7, h8⟩, h9, h10, h11, h12, h13⟩
    exact ⟨h1, h2, h3, h4, h5, h6, h7, h8, by simpa using h9, h10, h11, h12, h13⟩
  · intro h
    exact ⟨⟨⟨h.notRevoked, h.capability⟩, h.person⟩, h.job, h.agent, h.scope,
      ⟨h.created, h.notExpired⟩, by simpa using h.lastUsed, h.surface, h.taint, h.project,
      h.scopeMatches⟩

/-- A standing grant never carries a batch, a privileged call or money. -/
theorem standingMatches_calm (h : standingMatches g d call flags effect batch = true) :
    batch = false ∧ flags.privileged = false ∧ effect ≠ .money := by
  grind [standingMatches]

theorem scopeMatches_standing (hs : g.scope ≠ .once)
    (h : scopeMatches g d call ctx flags effect batch = true) :
    standingMatches g d call flags effect batch = true := by
  grind [scopeMatches, standingMatches]

variable {deps : Deps}

/-- The grant a decision was made with, its checks spelled out. -/
theorem applyingGrant_some (h : applyingGrant canon call ctx deps d = some g) :
    ∃ now, deps.now = some now ∧ g ∈ candidateGrants ctx deps.grants d.id.name ∧ validGrant g = true ∧
      GrantHolds canon g d call ctx call.flags (effectOf call d)
        (isBatch call.flags call.targets) (taintSuspends ctx d (effectOf call d)) now
        (deps.grants.maxGrantDays.getD 90) := by
  simp only [applyingGrant, Option.bind_eq_some_iff] at h
  obtain ⟨now, hnow, hfind⟩ := h
  have hchecks := List.find?_some hfind
  simp only [Bool.and_eq_true] at hchecks
  exact ⟨now, hnow, mem_of_find?_eq_some hfind, hchecks.1, grantApplies_iff.mp hchecks.2⟩

variable {capability : String}

theorem mem_candidateGrants {grants : GrantSource} (h : g ∈ candidateGrants ctx grants capability) :
    (g ∈ grants.list ⟨ctx.person, ctx.subject.agentId, capability⟩ ∧ g.agent = ctx.subject.agentId) ∨
      (ctx.subject.kind = .subagent ∧ ∃ handoff, ctx.handoff = some handoff ∧
        (∃ id ∈ handoff.approvalsHeld, grants.get id = some g) ∧ g.delegable = true ∧
        g.taskId = some handoff.taskId) := by
  simp only [candidateGrants, mem_append] at h
  rcases h with h | h
  · exact .inl ⟨h, (grants.list_query _ g h).2.1⟩
  · right
    split at h
    · rename_i handoff hkind hhandoff
      simp only [mem_filter, mem_filterMap, Bool.and_eq_true, beq_iff_eq] at h
      exact ⟨hkind, handoff, hhandoff, h.1, h.2.1.1, h.2.1.2⟩
    · simp at h

/-! ### The path of the class -/

/-- An effect that leaves the machine, or spends, is on a floor. -/
theorem isFloored_of_rank (h : effectRank .localDestructive ≤ effectRank effect) :
    isFloored flags effect batch = true := by
  cases effect <;> simp [effectRank] at h <;> simp [isFloored]

theorem effectRank_intrinsic_le (call : Call) (d : CapabilityDef) :
    effectRank d.intrinsicEffect ≤ effectRank (effectOf call d) := by
  unfold effectOf
  split
  · exact le_rfl
  · split
    · rw [effectRank_maxEffect]
      exact le_max_right _ _
    · exact effectRank_le_money _

/-- Whatever the taint rule suspends is on a floor: the capability is
taint-sensitive, so its own effect is external, or the effect itself is. -/
theorem isFloored_of_taintSuspends (hd : d = TABLE d.id)
    (h : taintSuspends ctx d (effectOf call d) = true) :
    isFloored flags (effectOf call d) batch = true := by
  apply isFloored_of_rank
  simp only [taintSuspends, Bool.and_eq_true, Bool.or_eq_true, beq_iff_eq] at h
  rcases h.2 with (hsens | heff) | heff
  · have hint : effectRank .external ≤ effectRank d.intrinsicEffect := by
      rw [hd] at hsens ⊢
      exact TABLE_taintSensitive _ hsens
    calc
      effectRank .localDestructive ≤ effectRank .external := by decide
      _ ≤ effectRank d.intrinsicEffect := hint
      _ ≤ effectRank (effectOf call d) := effectRank_intrinsic_le call d
  · rw [heff]; decide
  · rw [heff]; decide

theorem not_floored_of_allowed (h : classFor canon ctx d flags effect batch = .allowed) :
    isFloored flags effect batch = false := by
  by_contra hfloor
  rw [Bool.not_eq_false] at hfloor
  simp [classFor, hfloor] at h

variable {grantId : Option String} {due : Bool}

/-- The two ways the evaluator answers `allow`. -/
theorem evaluate_eq_allow (hd : d = TABLE d.id) {via : Via} :
    evaluate canon call ctx deps d = .allow via grantId due ↔
      (classFor canon ctx d call.flags (effectOf call d) (isBatch call.flags call.targets) =
          .allowed ∧ via = (overriddenClass canon ctx d call.flags).2 ∧ grantId = none ∧
          due = false) ∨
      (classFor canon ctx d call.flags (effectOf call d) (isBatch call.flags call.targets) ≠
          .allowed ∧ via = .grant ∧ ∃ g, applyingGrant canon call ctx deps d = some g ∧
          grantId = some g.id ∧ due = deps.now.any (grantReviewDue g)) := by
  unfold evaluate
  by_cases hcls : classFor canon ctx d call.flags (effectOf call d)
      (isBatch call.flags call.targets) = .allowed
  · have hsusp : taintSuspends ctx d (effectOf call d) = false := by
      by_contra hs
      rw [Bool.not_eq_false] at hs
      have hf : isFloored call.flags (effectOf call d) (isBatch call.flags call.targets) = true :=
        isFloored_of_taintSuspends hd hs
      rw [not_floored_of_allowed hcls] at hf
      cases hf
    simp only [hcls, hsusp, if_true, Bool.and_false, Bool.false_eq_true, if_false,
      Decision.allow.injEq, true_and, ne_eq, not_true_eq_false, false_and, or_false]
    constructor
    · rintro ⟨rfl, rfl, rfl⟩
      exact ⟨rfl, rfl, rfl⟩
    · rintro ⟨rfl, rfl, rfl⟩
      exact ⟨rfl, rfl, rfl⟩
  · simp only [hcls, if_false, false_and, ne_eq, not_false_eq_true, true_and, false_or]
    cases hg : applyingGrant canon call ctx deps d with
    | none =>
        simp only [askOrRefuse, ask, reduceCtorEq, false_and, exists_false, and_false, iff_false]
        split
        · simp
        · split <;> simp
    | some g =>
        simp only [Decision.allow.injEq, Option.some.injEq, exists_eq_left']
        constructor
        · rintro ⟨rfl, rfl, rfl⟩
          exact ⟨rfl, rfl, rfl⟩
        · rintro ⟨rfl, rfl, rfl⟩
          exact ⟨rfl, rfl, rfl⟩

theorem decide_eq_allow {via : Via} : decide canon call ctx deps = .allow via grantId due ↔
      malformed ctx = none ∧ ∃ d, capabilityOf (canon call.capability) = some d ∧
        refusal canon call ctx d = none ∧
        evaluate canon call ctx deps d = .allow via grantId due := by
  unfold decide
  cases malformed ctx with
  | some bad => simp
  | none =>
      cases hcap : capabilityOf (canon call.capability) with
      | none => simp
      | some d =>
          cases href : refusal canon call ctx d with
          | none => simp [href]
          | some r =>
              have hdeny : ∃ reason rule, r = .deny reason rule := by
                unfold refusal at href
                grind
              obtain ⟨reason, rule, rfl⟩ := hdeny
              simp [href]

/-! ### What passed before the class -/

/-- No entry of a readable `tools.deny` globs one of the names. -/
def DeniesNone (canon : String → String) (names : List String) (list : List (Option String)) : Prop :=
  ∀ e ∈ list, ∃ entry, e = some entry ∧ canon entry ≠ "" ∧ ∀ n ∈ names, globHit (canon entry) n = false

theorem matchesEntries_miss {names : List String} {list : List (Option String)} {hit : Bool} :
    matchesEntries canon names list hit = .miss ↔ hit = false ∧ DeniesNone canon names list := by
  induction list generalizing hit with
  | nil => cases hit <;> simp [matchesEntries, DeniesNone]
  | cons e rest ih =>
      cases e with
      | none => simp [matchesEntries, DeniesNone]
      | some entry =>
          by_cases hempty : canon entry = ""
          · simp [matchesEntries, DeniesNone, hempty]
          · simp only [matchesEntries, String.isEmpty_iff, hempty, if_false, ih,
              Bool.or_eq_false_iff, any_eq_false, Bool.not_eq_true]
            simp only [DeniesNone, mem_cons, forall_eq_or_imp, Option.some.injEq,
              exists_eq_left', hempty, ne_eq, not_false_eq_true, true_and]
            exact and_assoc

/-- The subject limits and the lists a call got past. -/
structure NotRefused (canon : String → String) (call : Call) (ctx : Context) (d : CapabilityDef) :
    Prop where
  denyList : call.flags.denyListHit = false
  notNever : d.base.inside ≠ .never
  secretSlot : d.id = .secretsUse → call.flags.secretSlotDeclared = true
  toolsDeny : ∀ l ∈ ctx.toolsDeny, ∃ entries, l = .entries entries ∧
    DeniesNone canon [canon call.tool, d.id.name] entries
  notPeer : ctx.subject.kind ≠ .a2aPeer
  tokenScopes : ∀ l ∈ ctx.tokenScopes, ∃ c ∈ l, canon c = d.id.name
  handoffScope : ctx.subject.kind = .subagent → ∃ h ∈ ctx.handoff, ∃ c ∈ h.scope, canon c = d.id.name

theorem matchesDeny_miss {l : DenyList} : matchesDeny canon l call capability = .miss ↔
      ∃ entries, l = .entries entries ∧ DeniesNone canon [canon call.tool, capability] entries := by
  cases l with
  | notArray => simp [matchesDeny]
  | entries list => simp [matchesDeny, matchesEntries_miss]

theorem ite_some_eq_none {α : Type} {c : Prop} [Decidable c] {a : α} {o : Option α} :
    (if c then some a else o) = none ↔ ¬c ∧ o = none := by
  by_cases h : c <;> simp [h]

theorem refusal_eq_none : refusal canon call ctx d = none ↔ NotRefused canon call ctx d := by
  have hdeny : (¬ctx.toolsDeny.any (fun l => matchesDeny canon l call d.id.name == .invalid) ∧
      ¬ctx.toolsDeny.any (fun l => matchesDeny canon l call d.id.name == .hit)) ↔
      ∀ l ∈ ctx.toolsDeny, ∃ entries, l = .entries entries ∧
        DeniesNone canon [canon call.tool, d.id.name] entries := by
    cases ctx.toolsDeny with
    | none => simp
    | some l =>
        simp only [Option.any_some, beq_iff_eq, Option.mem_def, Option.some.injEq, forall_eq',
          ← matchesDeny_miss]
        cases matchesDeny canon l call d.id.name <;> simp
  have htoken : ¬ctx.tokenScopes.any (fun l => !l.any (fun c => canon c == d.id.name)) ↔
      ∀ l ∈ ctx.tokenScopes, ∃ c ∈ l, canon c = d.id.name := by
    cases ctx.tokenScopes <;> simp
  have hhandoff : ctx.handoff.any (fun h => h.scope.any (fun c => canon c == d.id.name)) ↔
      ∃ h ∈ ctx.handoff, ∃ c ∈ h.scope, canon c = d.id.name := by
    cases ctx.handoff <;> simp
  simp only [refusal, ite_some_eq_none, and_true, htoken, Bool.and_eq_true, Bool.not_eq_true',
    ← Bool.not_eq_true, hhandoff]
  constructor
  · rintro ⟨h1, h2, h3, h4, h5, h6, h7, h8⟩
    refine ⟨by simpa using h1, by simpa using h2, by simpa using h3, hdeny.mp ⟨h4, h5⟩,
      by simpa using h6, h7, by simpa using h8⟩
  · intro h
    have h45 := hdeny.mpr h.toolsDeny
    refine ⟨by simpa using h.denyList, by simpa using h.notNever, by simpa using h.secretSlot,
      h45.1, h45.2, by simpa using h.notPeer, h.tokenScopes, by simpa using h.handoffScope⟩

/-! ### The guarantees -/

/-- The turn is tainted, has read private data, and the call could carry it
out. -/
def TaintBound (call : Call) (ctx : Context) (d : CapabilityDef) : Prop :=
  ctx.tainted = true ∧ ctx.readPrivate = true ∧
    (effectOf call d = .external ∨ effectOf call d = .networkA2a ∨ d.taintSensitive = true)

theorem TaintBound.suspends (h : TaintBound call ctx d) : taintSuspends ctx d (effectOf call d) = true := by
  obtain ⟨ht, hr, heff⟩ := h
  simp only [taintSuspends, ht, hr, Bool.and_true, Bool.true_and, Bool.or_eq_true, beq_iff_eq]
  tauto

/-- A source that holds exactly one grant, listed only to a query it answers. -/
def singleGrant (g : Grant) : GrantSource where
  list q := if q = ⟨g.person, g.agent, g.capability⟩ then [g] else []
  get id := if id = g.id then some g else none
  list_query := by
    intro q g' hg'
    split at hg'
    · rename_i hq
      simp only [mem_singleton] at hg'
      subst hq hg'
      exact ⟨rfl, rfl, rfl⟩
    · simp at hg'

def ownerContext : Context where
  person := "christian"
  subject := ⟨.agent, "bernd"⟩
  surface := 3

end Plur1bus.Policy
