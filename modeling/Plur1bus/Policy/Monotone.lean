import Plur1bus.Policy.Allow

/-!
The evaluator only ever narrows. `Tighter` collects the changes that make a
call more dangerous or its context narrower; each may be made alone or with the
others. The theorem is proved in the contrapositive: an allow after the change
was an allow before it, because each of the two ways to an allow (an allowed
class, a grant that applies) survives taking the change back.
-/

namespace Plur1bus.Policy

open List

/-! ### The changes -/

/-- Danger flags may be set, mitigations cleared. -/
structure CallFlags.Riskier (f f' : CallFlags) : Prop where
  outsideRoots : f.outsideRoots = true → f'.outsideRoots = true
  denyListHit : f.denyListHit = true → f'.denyListHit = true
  privileged : f.privileged = true → f'.privileged = true
  irreversible : f.irreversible = true → f'.irreversible = true
  batch : f.batch = true → f'.batch = true
  publishPublic : f.publishPublic = true → f'.publishPublic = true
  systemTree : f.systemTree = true → f'.systemTree = true
  shellAllowlisted : f'.shellAllowlisted = true → f.shellAllowlisted = true
  sandboxed : f'.sandboxed = true → f.sandboxed = true
  secretSlotDeclared : f'.secretSlotDeclared = true → f.secretSlotDeclared = true

/-- The rank a declared effect claims; outside the vocabulary it is money. -/
def declaredRank : Option String → ℕ
  | none => 0
  | some s =>
      match isEffect s with
      | some e => effectRank e
      | none => effectRank .money

/-- The declared effect is kept, or replaced by one of at least its rank. -/
def EffectRaised (e e' : Option String) : Prop :=
  e' = e ∨ (e'.isSome = true ∧ declaredRank e ≤ declaredRank e')

/-- Entries are added to `tools.deny`. -/
def DenyExtended (l l' : Option DenyList) : Prop := l' = l ∨ (l = none ∧ l'.isSome = true) ∨
    ∃ es es', l = some (.entries es) ∧ l' = some (.entries es') ∧ es ⊆ es'

/-- Entries are removed from the token scopes, or a list is added. -/
def ScopesNarrowed (l l' : Option (List String)) : Prop :=
  l' = l ∨ (l = none ∧ l'.isSome = true) ∨ ∃ cs cs', l = some cs ∧ l' = some cs' ∧ cs' ⊆ cs

/-- Entries are removed from the hand-off's scope or from the approvals it
holds. -/
def HandoffNarrowed (h h' : Option Handoff) : Prop :=
  (h = none ∧ h' = none) ∨ ∃ k k', h = some k ∧ h' = some k' ∧ k'.taskId = k.taskId ∧
    k'.scope ⊆ k.scope ∧ k'.approvalsHeld ⊆ k.approvalsHeld

/-- `allowed` overrides are removed or moved to `approval`. -/
inductive OverridesTightened : List (String × Override) → List (String × Override) → Prop
  | nil : OverridesTightened [] []
  | keep (e : String × Override) {o o' : List (String × Override)} (h : OverridesTightened o o') :
      OverridesTightened (e :: o) (e :: o')
  | remove (k : String) {o o' : List (String × Override)} (h : OverridesTightened o o') :
      OverridesTightened ((k, .allowed) :: o) o'
  | move (k : String) {o o' : List (String × Override)} (h : OverridesTightened o o') :
      OverridesTightened ((k, .allowed) :: o) ((k, .approval) :: o')

/-- Grants are removed from the source. -/
structure GrantSource.Fewer (s s' : GrantSource) : Prop where
  maxGrantDays : s'.maxGrantDays = s.maxGrantDays
  list : ∀ q, s'.list q ⊆ s.list q
  get : ∀ id g, s'.get id = some g → s.get id = some g

structure Call.Riskier (c c' : Call) : Prop where
  capability : c'.capability = c.capability
  tool : c'.tool = c.tool
  effect : EffectRaised c.effect c'.effect
  flags : c.flags.Riskier c'.flags
  targets : c'.targets = c.targets
  access : c'.access = c.access
  actionHash : c'.actionHash = c.actionHash

structure Context.Narrower (x x' : Context) : Prop where
  person : x'.person = x.person
  subject : x'.subject = x.subject
  sessionId : x'.sessionId = x.sessionId
  taskId : x'.taskId = x.taskId
  projectId : x'.projectId = x.projectId
  headless : x'.headless = x.headless
  toolsDeny : DenyExtended x.toolsDeny x'.toolsDeny
  overrides : OverridesTightened x.overrides x'.overrides
  tainted : x.tainted = true → x'.tainted = true
  readPrivate : x.readPrivate = true → x'.readPrivate = true
  handoff : HandoffNarrowed x.handoff x'.handoff
  tokenScopes : ScopesNarrowed x.tokenScopes x'.tokenScopes

/-- Any combination of the changes, at the same clock reading. -/
structure Tighter (call : Call) (ctx : Context) (deps : Deps) (call' : Call) (ctx' : Context)
    (deps' : Deps) : Prop where
  call : call.Riskier call'
  ctx : ctx.Narrower ctx'
  grants : deps.grants.Fewer deps'.grants
  now : deps'.now = deps.now

/-! ### Effects and floors -/

theorem effectRank_effectOf (call : Call) (d : CapabilityDef) :
    effectRank (effectOf call d) = max (declaredRank call.effect) (effectRank d.intrinsicEffect) := by
  unfold effectOf declaredRank
  cases call.effect with
  | none => simp
  | some s =>
      cases hs : isEffect s with
      | none =>
          simp only [hs]
          exact (max_eq_left (effectRank_le_money _)).symm
      | some e => simp only [hs, effectRank_maxEffect]

variable {call call' : Call}

theorem effectRank_effectOf_mono (h : call.Riskier call') (d : CapabilityDef) :
    effectRank (effectOf call d) ≤ effectRank (effectOf call' d) := by
  rw [effectRank_effectOf, effectRank_effectOf]
  rcases h.effect with heq | ⟨-, hrank⟩
  · rw [heq]
  · omega

theorem isFloored_iff {flags : CallFlags} {effect : Effect} {batch : Bool} :
    isFloored flags effect batch = true ↔
      flags.privileged = true ∨ flags.irreversible = true ∨ batch = true ∨
        effectRank .localDestructive ≤ effectRank effect ∨
        (flags.outsideRoots = true ∧ effectRank .localWrite ≤ effectRank effect) := by
  cases effect <;> simp [isFloored, effectRank, or_assoc]

theorem isBatch_mono (h : call.Riskier call') (hb : isBatch call.flags call.targets = true) :
    isBatch call'.flags call'.targets = true := by
  simp only [isBatch, Bool.or_eq_true, h.targets] at hb ⊢
  exact hb.imp_left h.flags.batch

theorem isFloored_mono (h : call.Riskier call') (d : CapabilityDef)
    (hf : isFloored call.flags (effectOf call d) (isBatch call.flags call.targets) = true) :
    isFloored call'.flags (effectOf call' d) (isBatch call'.flags call'.targets) = true := by
  have hrank := effectRank_effectOf_mono h d
  rw [isFloored_iff] at hf ⊢
  rcases hf with hf | hf | hf | hf | ⟨hout, hf⟩
  · exact .inl (h.flags.privileged hf)
  · exact .inr (.inl (h.flags.irreversible hf))
  · exact .inr (.inr (.inl (isBatch_mono h hf)))
  · exact .inr (.inr (.inr (.inl (hf.trans hrank))))
  · exact .inr (.inr (.inr (.inr ⟨h.flags.outsideRoots hout, hf.trans hrank⟩)))

/-! ### The class -/

/-- The shell command that is allowed because it is on the read-only list. -/
def shellExempt (d : CapabilityDef) (f : CallFlags) : Bool :=
  d.id == .shellExec && f.shellAllowlisted && !f.outsideRoots && !f.privileged

variable {d : CapabilityDef}

theorem shellExempt_anti {f f' : CallFlags} (h : f.Riskier f') (he : shellExempt d f' = true) :
    shellExempt d f = true := by
  simp only [shellExempt, Bool.and_eq_true, Bool.not_eq_true', ← Bool.not_eq_true] at he ⊢
  exact ⟨⟨⟨he.1.1.1, h.shellAllowlisted he.1.1.2⟩, fun ho => he.1.2 (h.outsideRoots ho)⟩,
    fun hp => he.2 (h.privileged hp)⟩

theorem baseClass_strictness_mono (hd : d = TABLE d.id) {f f' : CallFlags} (h : f.Riskier f') :
    classStrictness (baseClass d f) ≤ classStrictness (baseClass d f') := by
  have hout : classStrictness d.base.inside ≤ classStrictness d.base.outside := by
    rw [hd]
    exact TABLE_outside_stricter d.id
  change classStrictness (if shellExempt d f then _ else _) ≤
    classStrictness (if shellExempt d f' then _ else _)
  by_cases he : shellExempt d f = true
  · rw [if_pos he]
    exact Nat.zero_le _
  · rw [if_neg he, if_neg (fun he' => he (shellExempt_anti h he'))]
    cases hf : f.outsideRoots
    · split
      · rename_i hcontra
        cases hcontra
      · split
        · exact hout
        · exact le_rfl
    · rw [h.outsideRoots hf]

theorem eq_allowed_of_strictness {c c' : PolicyClass} (h : classStrictness c ≤ classStrictness c')
    (hc : c' = .allowed) : c = .allowed := by
  subst hc
  cases c <;> simp [classStrictness] at h ⊢

variable {canon : String → String}

theorem any_approval_mono {id : String} {o o' : List (String × Override)} (h : OverridesTightened o o')
    (ha : o.any (fun e => canon e.1 == id && e.2 == .approval) = true) :
    o'.any (fun e => canon e.1 == id && e.2 == .approval) = true := by
  induction h with
  | nil => exact ha
  | keep e _ ih =>
      simp only [any_cons, Bool.or_eq_true] at ha ⊢
      exact ha.imp_right ih
  | remove k _ ih => grind
  | move k _ ih => grind

theorem any_allowed_anti {id : String} {o o' : List (String × Override)} (h : OverridesTightened o o')
    (ha : o'.any (fun e => canon e.1 == id && e.2 == .allowed) = true) :
    o.any (fun e => canon e.1 == id && e.2 == .allowed) = true := by
  induction h with
  | nil => exact ha
  | keep e _ ih =>
      simp only [any_cons, Bool.or_eq_true] at ha ⊢
      exact ha.imp_right ih
  | remove k _ ih =>
      simp only [any_cons, Bool.or_eq_true]
      exact .inr (ih ha)
  | move k _ ih => grind

/-- An override left after the change was there before it, and one that was
`approval` still is. -/
theorem overrideFor_mono (canon : String → String) (id : String)
    {o o' : List (String × Override)} (h : OverridesTightened o o') :
    overrideFor canon o' id = some .approval ∨ (overrideFor canon o id ≠ some .approval ∧
        (overrideFor canon o' id = some .allowed → overrideFor canon o id = some .allowed)) := by
  unfold overrideFor
  by_cases ha' : o'.any (fun e => canon e.1 == id && e.2 == .approval) = true
  · exact .inl (by rw [if_pos ha'])
  · right
    have ha : ¬o.any (fun e => canon e.1 == id && e.2 == .approval) = true :=
      fun ha => ha' (any_approval_mono h ha)
    rw [if_neg ha, if_neg ha']
    constructor
    · split <;> simp
    · intro hall
      split at hall
      · rename_i hany
        rw [if_pos (any_allowed_anti h hany)]
      · cases hall

variable {ctx ctx' : Context}

theorem overriddenClass_allowed_anti (hx : ctx.Narrower ctx') (hd : d = TABLE d.id) {f f' : CallFlags}
    (hf : f.Riskier f') (h : (overriddenClass canon ctx' d f').1 = .allowed) :
    (overriddenClass canon ctx d f).1 = .allowed := by
  have hbase := baseClass_strictness_mono hd hf
  have hov := overrideFor_mono canon d.id.name hx.overrides
  unfold overriddenClass at h ⊢
  cases hlow : d.lowerable
  · simp only [hlow, Bool.false_eq_true, if_false] at h ⊢
    exact eq_allowed_of_strictness hbase h
  · simp only [hlow, if_true] at h ⊢
    rcases hov with happ | ⟨hnot, hall⟩
    · simp [happ] at h
    · -- the class before is at most the class after, which the same override lowers
      have hclass : baseClass d f = .allowed ∨ (baseClass d f = .approval ∧ f.outsideRoots = false ∧
            overrideFor canon ctx.overrides d.id.name = some .allowed) := by
        cases ho' : overrideFor canon ctx'.overrides d.id.name with
        | none =>
            simp only [ho'] at h
            exact .inl (eq_allowed_of_strictness hbase h)
        | some ov =>
            cases ov with
            | approval => simp [ho'] at h
            | allowed =>
                simp only [ho'] at h
                split at h
                · rename_i hcond
                  simp only [Bool.and_eq_true, beq_iff_eq, Bool.not_eq_true'] at hcond
                  rw [hcond.1] at hbase
                  cases hb : baseClass d f with
                  | allowed => exact .inl rfl
                  | never =>
                      rw [hb] at hbase
                      simp [classStrictness] at hbase
                  | approval =>
                      refine .inr ⟨rfl, ?_, hall ho'⟩
                      by_contra hout
                      rw [hf.outsideRoots (by simpa using hout)] at hcond
                      simp at hcond
                · exact .inl (eq_allowed_of_strictness hbase h)
      rcases hclass with hb | ⟨hb, hout, ho⟩
      · cases ho : overrideFor canon ctx.overrides d.id.name with
        | none => simpa using hb
        | some ov =>
            cases ov with
            | approval => exact absurd ho hnot
            | allowed => simp [hb]
      · simp [ho, hb, hout]

theorem classFor_allowed_anti (hc : call.Riskier call') (hx : ctx.Narrower ctx') (hd : d = TABLE d.id)
    (h : classFor canon ctx' d call'.flags (effectOf call' d)
      (isBatch call'.flags call'.targets) = .allowed) :
    classFor canon ctx d call.flags (effectOf call d) (isBatch call.flags call.targets) = .allowed := by
  have hfloor' := not_floored_of_allowed h
  have hfloor : isFloored call.flags (effectOf call d) (isBatch call.flags call.targets) = false := by
    by_contra hf
    rw [isFloored_mono hc d (by simpa using hf)] at hfloor'
    cases hfloor'
  simp only [classFor, hfloor', hfloor, Bool.false_eq_true, if_false] at h ⊢
  exact overriddenClass_allowed_anti hx hd hc.flags h

/-! ### Grants -/

theorem scopeRank_capScope (m s : GrantScope) :
    scopeRank (capScope m s) = min (scopeRank m) (scopeRank s) := by
  unfold capScope
  split <;> omega

/-- A bound that is lowered more often, and from no higher up, ends no higher. -/
theorem scopeRank_capIf_mono {m m' : GrantScope} {c c' : Bool} (s : GrantScope)
    (h : scopeRank m' ≤ scopeRank m) (hc : c = true → c' = true) :
    scopeRank (if c' then capScope m' s else m') ≤ scopeRank (if c then capScope m s else m) := by
  cases c
  · cases c' <;> simp [scopeRank_capScope, h]
  · simp only [hc rfl, if_true, scopeRank_capScope]
    omega

theorem scopeRank_maxScopeFor_anti {f f' : CallFlags} (h : f.Riskier f') :
    scopeRank (maxScopeFor d f') ≤ scopeRank (maxScopeFor d f) := by
  unfold maxScopeFor
  apply scopeRank_capIf_mono _ _ h.publishPublic
  apply scopeRank_capIf_mono _ _ h.systemTree
  apply scopeRank_capIf_mono _ le_rfl
  simpa [isBatch] using h.batch

theorem ite_succ_mono {c c' : Bool} {a b : ℕ} (hc : c = true → c' = true) (h : a ≤ b) :
    (if c then a + 1 else a) ≤ (if c' then b + 1 else b) := by
  cases c
  · cases c' <;> simp <;> omega
  · simp [hc rfl, h]

theorem riskScore_mono {f f' : CallFlags} (h : f.Riskier f') :
    min (riskScore d f) 3 ≤ min (riskScore d f') 3 := by
  unfold riskScore
  by_cases htop' : (f'.publishPublic || f'.systemTree) = true
  · rw [if_pos htop']
    omega
  · have htop : ¬(f.publishPublic || f.systemTree) = true := by
      simp only [Bool.or_eq_true] at htop' ⊢
      exact fun ht => htop' (ht.imp h.publishPublic h.systemTree)
    rw [if_neg htop, if_neg htop']
    refine le_min (le_trans (min_le_left _ _) ?_) (min_le_right _ _)
    apply ite_succ_mono h.privileged
    apply ite_succ_mono h.irreversible
    apply ite_succ_mono _ le_rfl
    simp only [Bool.and_eq_true]
    exact fun hc => ⟨h.outsideRoots hc.1, hc.2⟩

theorem ite_top_mono {c c' : Bool} {a b : SurfaceTrust} (hc : c = true → c' = true) (h : a ≤ b) :
    (if c then 3 else a) ≤ (if c' then 3 else b) := by
  cases c
  · cases c'
    · exact h
    · exact Fin.le_last _
  · simp [hc rfl]

theorem requiredSurface_mono {scope : GrantScope} {f f' : CallFlags} (h : f.Riskier f') :
    requiredSurface d scope f ≤ requiredSurface d scope f' := by
  unfold requiredSurface
  apply ite_top_mono
  · simp only [Bool.or_eq_true]
    exact Or.imp h.publishPublic h.systemTree
  apply ite_top_mono id
  apply ite_top_mono
  · simp only [Bool.and_eq_true]
    exact fun hc => ⟨⟨hc.1.1, h.outsideRoots hc.1.2⟩, hc.2⟩
  have hrisk := surfaceByRisk_mono (riskScore_mono (d := d) h)
  exact sup_le_sup le_rfl hrisk

variable {g : Grant}

theorem standingMatches_anti (hc : call.Riskier call')
    (h : standingMatches g d call' call'.flags (effectOf call' d)
      (isBatch call'.flags call'.targets) = true) :
    standingMatches g d call call.flags (effectOf call d) (isBatch call.flags call.targets) = true := by
  obtain ⟨hb', hp', hm'⟩ := standingMatches_calm h
  have hb : isBatch call.flags call.targets = false := by
    by_contra hb
    rw [isBatch_mono hc (by simpa using hb)] at hb'
    cases hb'
  have hp : call.flags.privileged = false := by
    by_contra hp
    rw [hc.flags.privileged (by simpa using hp)] at hp'
    cases hp'
  have hm : effectOf call d ≠ .money := by
    intro hm
    apply hm'
    apply eq_money_of_effectRank
    rw [← hm]
    exact effectRank_effectOf_mono hc d
  have hbox : call.flags.sandboxed = false → call'.flags.sandboxed = false := by
    simpa only [← Bool.not_eq_true, not_imp_not] using hc.flags.sandboxed
  have hout : call'.flags.outsideRoots = false → call.flags.outsideRoots = false := by
    simpa only [← Bool.not_eq_true, not_imp_not] using hc.flags.outsideRoots
  simp only [standingMatches, Bool.if_false_left, Bool.and_eq_true, Bool.not_eq_true',
    decide_eq_false_iff_not, Bool.not_eq_true, Bool.or_eq_false_iff, beq_eq_false_iff_ne, hp', hb,
    hp, hm, hc.targets, hc.access, true_and, ne_eq, not_false_eq_true] at h ⊢
  refine ⟨h.1, fun hno => h.2.2.1 ⟨⟨hno.1.1, hbox hno.1.2⟩, hno.2⟩, ?_⟩
  have hlast := h.2.2.2
  cases hmatch : g.match with
  | action => simp [hmatch] at hlast
  | capability =>
      simp only [hmatch, Bool.not_eq_true'] at hlast ⊢
      exact hout hlast
  | path p access recursive => simpa [hmatch] using hlast

theorem scopeMatches_anti (hc : call.Riskier call') (hx : ctx.Narrower ctx')
    (h : scopeMatches g d call' ctx' call'.flags (effectOf call' d)
      (isBatch call'.flags call'.targets) = true) :
    scopeMatches g d call ctx call.flags (effectOf call d) (isBatch call.flags call.targets) = true := by
  have htask : grantTask g ctx' = grantTask g ctx := by
    unfold grantTask
    rw [hx.subject, hx.taskId]
    rcases hx.handoff with ⟨hn, hn'⟩ | ⟨k, k', hk, hk', htask, -⟩
    · rw [hn, hn']
    · rw [hk, hk', Option.map_some, Option.map_some, htask]
  unfold scopeMatches at h ⊢
  cases hscope : g.scope with
  | once => simpa [hscope, hc.actionHash] using h
  | task =>
      simp only [hscope, Bool.and_eq_true, htask] at h ⊢
      exact ⟨h.1, standingMatches_anti hc h.2⟩
  | session =>
      simp only [hscope, Bool.and_eq_true, hx.sessionId] at h ⊢
      exact ⟨h.1, standingMatches_anti hc h.2⟩
  | always =>
      simp only [hscope] at h ⊢
      exact standingMatches_anti hc h

/-- Raising an external effect to money lifts the taint suspension, but money
takes no standing grant either. -/
theorem once_of_taintSuspends {now maxGrantDays : ℤ} (hc : call.Riskier call') (hx : ctx.Narrower ctx')
    (h : GrantHolds canon g d call' ctx' call'.flags (effectOf call' d)
      (isBatch call'.flags call'.targets) (taintSuspends ctx' d (effectOf call' d)) now maxGrantDays)
    (hs : taintSuspends ctx d (effectOf call d) = true) : g.scope = .once := by
  by_contra hscope
  have hmoney := (standingMatches_calm (scopeMatches_standing hscope h.scopeMatches)).2.2
  apply hscope
  apply h.taint
  have hrank := effectRank_effectOf_mono hc d
  simp only [taintSuspends, Bool.and_eq_true, Bool.or_eq_true, beq_iff_eq] at hs ⊢
  refine ⟨⟨hx.tainted hs.1.1, hx.readPrivate hs.1.2⟩, ?_⟩
  rcases hs.2 with (hsens | heff) | heff
  · exact .inl (.inl hsens)
  all_goals
    rw [heff] at hrank
    cases he : effectOf call' d with
    | external => exact .inl (.inr rfl)
    | networkA2a => exact .inr rfl
    | money => exact absurd he hmoney
    | _ =>
        rw [he] at hrank
        simp [effectRank] at hrank

theorem foreignAgent_anti (hx : ctx.Narrower ctx') (h : foreignAgent g ctx' = false) :
    foreignAgent g ctx = false := by
  simp only [foreignAgent, hx.subject, Bool.and_eq_false_iff, bne_eq_false_iff_eq,
    Bool.not_eq_false', Bool.and_eq_true] at h ⊢
  refine h.imp_right fun hheld => ⟨hheld.1, ?_⟩
  rcases hx.handoff with ⟨-, hn'⟩ | ⟨k, k', hk, hk', -, -, hsub⟩
  · rw [hn'] at hheld
    simp at hheld
  · grind

theorem GrantHolds.anti {now maxGrantDays : ℤ} (hc : call.Riskier call') (hx : ctx.Narrower ctx')
    (h : GrantHolds canon g d call' ctx' call'.flags (effectOf call' d)
      (isBatch call'.flags call'.targets) (taintSuspends ctx' d (effectOf call' d)) now
      maxGrantDays) :
    GrantHolds canon g d call ctx call.flags (effectOf call d) (isBatch call.flags call.targets)
      (taintSuspends ctx d (effectOf call d)) now maxGrantDays where
  notRevoked := h.notRevoked
  capability := h.capability
  person := by rw [← hx.person]; exact h.person
  job := by
    have := h.job
    simpa only [jobMismatch, hx.headless] using this
  agent := foreignAgent_anti hx h.agent
  scope := by
    refine h.scope.trans (scopeRank_maxScopeFor_anti ?_)
    exact { hc.flags with batch := isBatch_mono hc }
  created := h.created
  notExpired := h.notExpired
  lastUsed := h.lastUsed
  surface := (requiredSurface_mono hc.flags).trans h.surface
  taint := once_of_taintSuspends hc hx h
  project := by rw [← hx.projectId]; exact h.project
  scopeMatches := scopeMatches_anti hc hx h.scopeMatches

theorem candidateGrants_anti {s s' : GrantSource} {capability : String} (hx : ctx.Narrower ctx')
    (hs : s.Fewer s') : candidateGrants ctx' s' capability ⊆ candidateGrants ctx s capability := by
  intro g hg
  simp only [candidateGrants, mem_append, hx.person, hx.subject] at hg ⊢
  rcases hg with hg | hg
  · exact .inl (hs.list _ hg)
  · right
    rcases hx.handoff with ⟨-, hn'⟩ | ⟨k, k', hk, hk', htask, -, hsub⟩
    · rw [hn'] at hg
      simp at hg
    · rw [hk'] at hg
      rw [hk]
      split at hg
      · rename_i h' hkind hh'
        obtain rfl : k' = h' := Option.some.inj hh'
        rw [hkind]
        simp only [mem_filter, mem_filterMap, htask] at hg ⊢
        obtain ⟨⟨id, hid, hget⟩, hchecks⟩ := hg
        exact ⟨⟨id, hsub hid, hs.get id g hget⟩, hchecks⟩
      · simp at hg

theorem applyingGrant_anti {deps deps' : Deps} (ht : Tighter call ctx deps call' ctx' deps')
    (h : (applyingGrant canon call' ctx' deps' d).isSome = true) :
    (applyingGrant canon call ctx deps d).isSome = true := by
  obtain ⟨g, hg⟩ := Option.isSome_iff_exists.mp h
  obtain ⟨now, hnow, hmem, hvalid, hholds⟩ := applyingGrant_some hg
  rw [ht.now] at hnow
  rw [ht.grants.maxGrantDays] at hholds
  simp only [applyingGrant, hnow, Option.bind_some, List.find?_isSome, Bool.and_eq_true]
  exact ⟨g, candidateGrants_anti ht.ctx ht.grants hmem, hvalid,
    grantApplies_iff.mpr (hholds.anti ht.call ht.ctx)⟩

/-! ### Refusals -/

theorem NotRefused.anti (hc : call.Riskier call') (hx : ctx.Narrower ctx')
    (h : NotRefused canon call' ctx' d) : NotRefused canon call ctx d where
  denyList := by
    by_contra hd
    have := hc.flags.denyListHit (by simpa using hd)
    rw [h.denyList] at this
    cases this
  notNever := h.notNever
  secretSlot := fun hid => hc.flags.secretSlotDeclared (h.secretSlot hid)
  toolsDeny := by
    intro l hl
    rcases hx.toolsDeny with heq | ⟨hn, -⟩ | ⟨es, es', hes, hes', hsub⟩
    · have := h.toolsDeny l (by rwa [heq])
      rwa [hc.tool] at this
    · rw [hn] at hl
      cases hl
    · obtain ⟨entries, hent, hnone⟩ := h.toolsDeny _ hes'
      obtain rfl := DenyList.entries.inj hent
      rw [hes] at hl
      cases hl
      rw [hc.tool] at hnone
      exact ⟨es, rfl, fun e he => hnone e (hsub he)⟩
  notPeer := by rw [← hx.subject]; exact h.notPeer
  tokenScopes := by
    intro l hl
    rcases hx.tokenScopes with heq | ⟨hn, -⟩ | ⟨cs, cs', hcs, hcs', hsub⟩
    · exact h.tokenScopes l (by rwa [heq])
    · rw [hn] at hl
      cases hl
    · obtain ⟨c, hc, hcanon⟩ := h.tokenScopes cs' hcs'
      rw [hcs] at hl
      cases hl
      exact ⟨c, hsub hc, hcanon⟩
  handoffScope := by
    intro hkind
    rw [← hx.subject] at hkind
    obtain ⟨k₁, hk₁, c, hc, hcanon⟩ := h.handoffScope hkind
    rcases hx.handoff with ⟨-, hn'⟩ | ⟨k, k', hk, hk', -, hsub, -⟩
    · rw [hn'] at hk₁
      cases hk₁
    · rw [hk'] at hk₁
      cases hk₁
      exact ⟨k, hk, c, hsub hc, hcanon⟩

theorem malformed_anti (hx : ctx.Narrower ctx') (h : malformed ctx' = none) : malformed ctx = none := by
  have hhandoff : ctx'.handoff.any (fun k => !nonEmpty k.taskId) =
      ctx.handoff.any (fun k => !nonEmpty k.taskId) := by
    rcases hx.handoff with ⟨hn, hn'⟩ | ⟨k, k', hk, hk', htask, -⟩
    · rw [hn, hn']
    · simp [hk, hk', htask]
  unfold malformed at h ⊢
  rw [hx.person, hx.subject, hx.headless, hhandoff] at h
  exact h

theorem decide_not_allow_of_tighter (canon : String → String) {call call' : Call}
    {ctx ctx' : Context} {deps deps' : Deps} (ht : Tighter call ctx deps call' ctx' deps')
    (h : (decide canon call ctx deps).isAllow = false) :
    (decide canon call' ctx' deps').isAllow = false := by
  by_contra hallow
  cases hdec : decide canon call' ctx' deps' with
  | ask request park why => simp [hdec, Decision.isAllow] at hallow
  | deny reason rule => simp [hdec, Decision.isAllow] at hallow
  | allow via grantId due =>
      obtain ⟨hmal, d, hcap, href, heval⟩ := decide_eq_allow.mp hdec
      have hd : d = TABLE d.id := (capabilityOf_eq_some hcap).1
      rw [ht.call.capability] at hcap
      have href₀ := refusal_eq_none.mpr ((refusal_eq_none.mp href).anti ht.call ht.ctx)
      have hmal₀ := malformed_anti ht.ctx hmal
      have hback : ∃ v i r, evaluate canon call ctx deps d = .allow v i r := by
        by_cases hcls : classFor canon ctx d call.flags (effectOf call d)
            (isBatch call.flags call.targets) = .allowed
        · exact ⟨_, _, _, (evaluate_eq_allow hd).mpr (.inl ⟨hcls, rfl, rfl, rfl⟩)⟩
        · rcases (evaluate_eq_allow hd).mp heval with ⟨hcls', -⟩ | ⟨-, -, g, hg, -⟩
          · exact absurd (classFor_allowed_anti ht.call ht.ctx hd hcls') hcls
          · have hsome := applyingGrant_anti ht (Option.isSome_iff_exists.mpr ⟨g, hg⟩)
            obtain ⟨g₀, hg₀⟩ := Option.isSome_iff_exists.mp hsome
            exact ⟨_, _, _, (evaluate_eq_allow hd).mpr (.inr ⟨hcls, rfl, g₀, hg₀, rfl, rfl⟩)⟩
      obtain ⟨v, i, r, heval₀⟩ := hback
      rw [decide_eq_allow.mpr ⟨hmal₀, d, hcap, href₀, heval₀⟩] at h
      cases h

/-- A sandboxed shell command in a turn that held a hand-off list and an
override. -/
def shellCall : Call where
  capability := "shell.exec"
  tool := "shell.run"
  effect := some "local-write"
  flags := { outsideRoots := false, denyListHit := false, sandboxed := true }
  actionHash := "h1"

def lowSurfaceGrant : Grant where
  id := "g2"
  capability := "shell.exec"
  person := "christian"
  agent := "bernd"
  scope := .always
  «match» := .capability
  createdAt := 0
  surface := 1

theorem decide_not_allow_of_tighter_shell :
    Tighter shellCall ownerContext ⟨singleGrant lowSurfaceGrant, some 1⟩
        { shellCall with
          effect := some "ship it"
          flags := { shellCall.flags with privileged := true, sandboxed := false } }
        { ownerContext with tokenScopes := some ["shell.exec"], taint := some ⟨true, true⟩ }
        ⟨singleGrant lowSurfaceGrant, some 1⟩ ∧
      (decide id
        { shellCall with
          effect := some "ship it"
          flags := { shellCall.flags with privileged := true, sandboxed := false } }
        { ownerContext with tokenScopes := some ["shell.exec"], taint := some ⟨true, true⟩ }
        ⟨singleGrant lowSurfaceGrant, some 1⟩).isAllow = false := by
  have ht : Tighter shellCall ownerContext ⟨singleGrant lowSurfaceGrant, some 1⟩
      { shellCall with
        effect := some "ship it"
        flags := { shellCall.flags with privileged := true, sandboxed := false } }
      { ownerContext with tokenScopes := some ["shell.exec"], taint := some ⟨true, true⟩ }
      ⟨singleGrant lowSurfaceGrant, some 1⟩ := by
    refine ⟨⟨rfl, rfl, .inr ⟨rfl, by decide⟩, ?_, rfl, rfl, rfl⟩,
      ⟨rfl, rfl, rfl, rfl, rfl, rfl, .inl rfl, .nil, ?_, ?_, .inl ⟨rfl, rfl⟩, .inr (.inl ⟨rfl, rfl⟩)⟩,
      ⟨rfl, fun _ => List.Subset.refl _, fun _ _ h => h⟩, rfl⟩
    · constructor <;> decide
    · decide
    · decide
  exact ⟨ht, decide_not_allow_of_tighter id ht (by decide)⟩

end Plur1bus.Policy
