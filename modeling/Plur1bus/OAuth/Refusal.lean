import Plur1bus.OAuth.Runs

/-!
What a refused refresh costs. A refresh looks at the token, at the client and at the grant before
it marks the token as used, and at the requested scopes only afterwards; the access token is created
last. So a refusal changes nothing unless it is for the scopes or by the token service, and then the
token that was presented is spent: the next refresh with it is taken for a reuse, and the family is
revoked.
-/

namespace Plur1bus.OAuth

namespace State

/-- The call `i` takes `n` steps, and no other call takes one; step `k` reads `env k`. -/
def ahead (i : ℕ) : ℕ → (ℕ → Env) → State → State
  | 0, _, s => s
  | n + 1, env, s => ahead i n (fun k => env (k + 1)) (s.step i (env 0))

/-- A refresh that is alone: it takes at most eight steps. -/
def alone (s : State) (p : RefreshParams) (env : ℕ → Env) : State :=
  ahead s.calls.length 8 env (s.refresh p)

/-- The scopes that a refresh asks for. -/
def asked (grant : Grant) : Option String → List String
  | none => grant.scopes
  | some text => if text = "" then grant.scopes else splitScopes text

end State

/-- The grants, the tokens, and the refreshes that are under way are the same. -/
structure SameStore (s t : State) : Prop where
  grants : t.grants = s.grants
  refreshTokens : t.refreshTokens = s.refreshTokens
  tokens : t.tokens = s.tokens
  activeRefreshes : t.activeRefreshes = s.activeRefreshes

/-- If the refresh ends with an error that is not a detected reuse, then nothing has changed. -/
def Costless (s : State) (p : RefreshParams) (env : ℕ → Env) : Prop :=
  ∀ error description, (s.alone p env).calls[s.calls.length]? = some (.done (.refused error description)) →
    SameStore s (s.alone p env)

/-- The refresh passes every check that is made before the token is marked. -/
structure Marks (s : State) (p : RefreshParams) (now : ℤ) (h : ℕ) (rt : RefreshRecord) (grant : Grant) : Prop where
  idle : p.token ∉ s.activeRefreshes
  found : s.lookup p.token = some (h, rt)
  current : now ≤ rt.expiresAt
  client : rt.terms.clientId = p.clientId
  unused : rt.used = false
  granted : s.grants rt.family = some grant
  live : grant.revokedAt = none

/-- A scope that is asked for is not granted, or not one of the audience, or no access token is
created. -/
def RefusedLate (grant : Grant) (scope : Option String) (created : Bool) : Prop :=
  (∃ x ∈ State.asked grant scope, x ∉ grant.scopes ∨ x ∉ PROTOCOL_SCOPES grant.terms.audience) ∨ created = false

/-! ### Steps of a call that is alone -/

variable {s t : State} {p : RefreshParams} {env : ℕ → Env} {i : ℕ}

variable {h : ℕ} {rt : RefreshRecord}

theorem lookup_drawn {token : Secret} (hl : s.lookup token = some (h, rt)) :
    token = .drawn h ∧ s.refreshTokens h = some rt := by
  cases token with
  | other text => cases hl
  | drawn l =>
    change (s.refreshTokens l).map (fun rt => (l, rt)) = some (h, rt) at hl
    obtain ⟨r, hr, hpair⟩ := Option.map_eq_some_iff.mp hl
    cases hpair
    exact ⟨rfl, hr⟩

variable {ph : Phase}

theorem step_eq (hi : s.calls[i]? = some ph) (env : Env) : s.step i env = s.stepPhase i env ph := by
  unfold State.step
  rw [hi]

theorem ahead_start (t : State) (ph : Phase) (env : ℕ → Env) (n : ℕ) :
    State.ahead t.calls.length (n + 1) env (t.start ph) =
      State.ahead t.calls.length n (fun k => env (k + 1)) ((t.start ph).stepPhase t.calls.length (env 0) ph) := by
  show State.ahead t.calls.length n _ ((t.start ph).step t.calls.length (env 0)) = _
  rw [step_eq (start_self t ph)]

theorem ahead_done {out : Outcome} (h : s.calls[i]? = some (.done out)) (n : ℕ) (env : ℕ → Env) :
    State.ahead i n env s = s := by
  induction n generalizing env with
  | zero => rfl
  | succ n ih =>
    show State.ahead i n _ (s.step i (env 0)) = s
    rw [step_eq h]
    exact ih _

/-- A call that ends with an error gives back the token, and that is all. -/
theorem ahead_refused (t : State) (token : Secret) (error description : String) (n : ℕ) (env : ℕ → Env) :
    State.ahead t.calls.length (n + 1) env (t.start (.release token (.refused error description))) =
      ({ t with activeRefreshes := t.activeRefreshes.filter (· ≠ token) } : State).start
        (.done (.refused error description)) := by
  rw [ahead_start]
  have hstep : (t.start (.release token (.refused error description))).stepPhase t.calls.length (env 0)
      (.release token (.refused error description)) =
      ({ t with activeRefreshes := t.activeRefreshes.filter (· ≠ token) } : State).start
        (.done (.refused error description)) :=
    start_put ({ t with activeRefreshes := t.activeRefreshes.filter (· ≠ token) } : State) _ _
  rw [hstep]
  exact ahead_done (start_self ({ t with activeRefreshes := t.activeRefreshes.filter (· ≠ token) } : State) _) n _

theorem refuse_start (t : State) (ph : Phase) (token : Secret) (error description : String) :
    (t.start ph).refuse t.calls.length token error description =
      t.start (.release token (.refused error description)) := start_put t ph _

/-! ### Calls that no longer end with an error -/

/-- The call has issued an access token, or has found a reuse. -/
def Phase.settled : Phase → Bool
  | .revokeOld x _ | .saveNext x _ | .update x _ _ | .finishRefresh x _ => !x.source.isCode
  | .revoking _ _ (.revoked _) => true
  | .done (.issued _) | .done (.revoked _) => true
  | _ => false

theorem settled_step (hi : s.calls[i]? = some ph) (hs : ph.settled = true) (env : Env) :
    ∃ ph', (s.step i env).calls[i]? = some ph' ∧ ph'.settled = true := by
  have hput : ∀ (u : State) (q : Phase), u.calls = s.calls → (u.put i q).calls[i]? = some q := by
    intro u q hu
    have hu' : u.calls[i]? = some ph := by
      rw [hu]
      exact hi
    exact put_self hu'
  rw [step_eq hi]
  cases ph with
  | revokeOld x g =>
    cases hact : g.activeTokenId with
    | none =>
      simp only [State.stepPhase, hact]
      exact ⟨_, hput _ _ rfl, hs⟩
    | some a =>
      simp only [State.stepPhase, hact]
      exact ⟨_, hput _ _ rfl, hs⟩
  | saveNext x g => exact ⟨_, hput _ _ rfl, hs⟩
  | update x g now => exact ⟨_, hput _ _ rfl, hs⟩
  | finishRefresh x g =>
    cases hx : x.source with
    | code c a b d =>
      change (!x.source.isCode) = true at hs
      rw [hx] at hs
      cases hs
    | token h c =>
      simp only [State.stepPhase, hx]
      exact ⟨_, hput _ _ rfl, rfl⟩
  | revoking ops rel out =>
    cases out with
    | revoked f =>
      cases ops with
      | nil => exact ⟨_, hput _ _ rfl, rfl⟩
      | cons op ops =>
        cases op with
        | family f => exact ⟨_, hput _ _ rfl, rfl⟩
        | activeOf f =>
          cases hg : s.grants f with
          | none =>
            simp only [State.stepPhase, State.stepRevoking, hg]
            exact ⟨_, hput _ _ rfl, rfl⟩
          | some g =>
            simp only [State.stepPhase, State.stepRevoking, hg]
            exact ⟨_, hput _ _ rfl, rfl⟩
        | token u a => exact ⟨_, hput _ _ rfl, rfl⟩
        | stamp f => exact ⟨_, hput _ _ rfl, rfl⟩
    | _ => cases hs
  | done out => exact ⟨_, hi, hs⟩
  | _ => cases hs

theorem settled_ahead (hi : s.calls[i]? = some ph) (hs : ph.settled = true) (n : ℕ) (env : ℕ → Env) :
    ∃ ph', (State.ahead i n env s).calls[i]? = some ph' ∧ ph'.settled = true := by
  induction n generalizing s ph env with
  | zero => exact ⟨ph, hi, hs⟩
  | succ n ih =>
    obtain ⟨ph', hi', hs'⟩ := settled_step hi hs (env 0)
    exact ih hi' hs' _

theorem settled_not_refused (hi : s.calls[i]? = some ph) (hs : ph.settled = true) (n : ℕ)
    (env : ℕ → Env) (error description : String) :
    (State.ahead i n env s).calls[i]? ≠ some (.done (.refused error description)) := by
  intro hno
  obtain ⟨ph', hi', hs'⟩ := settled_ahead hi hs n env
  rw [hi'] at hno
  cases hno
  cases hs'

/-! ### The scopes -/

theorem refreshScopes_eq (grant : Grant) (scope : Option String) :
    (State.refreshScopes grant scope = .ok (State.asked grant scope) ∧
      ∀ x ∈ State.asked grant scope, x ∈ grant.scopes) ∨
    ∃ x ∈ State.asked grant scope, x ∉ grant.scopes ∧ State.refreshScopes grant scope = .error x := by
  cases scope with
  | none => exact .inl ⟨rfl, fun x hx => hx⟩
  | some text =>
    by_cases htext : text = ""
    · have hasked : State.asked grant (some text) = grant.scopes := if_pos htext
      have hall : State.refreshScopes grant (some text) = .ok grant.scopes := if_pos htext
      rw [hasked]
      exact .inl ⟨hall, fun x hx => hx⟩
    · have hasked : State.asked grant (some text) = splitScopes text := if_neg htext
      unfold State.refreshScopes
      rw [hasked]
      simp only [if_neg htext]
      cases hx : (splitScopes text).find? fun s => !grant.scopes.contains s with
      | none =>
        refine .inl ⟨rfl, fun x hx' => ?_⟩
        have hno := List.find?_eq_none.mp hx x hx'
        simpa using hno
      | some x =>
        have hno := List.find?_some hx
        exact .inr ⟨x, List.mem_of_find?_eq_some hx, by simpa using hno, rfl⟩

theorem tokenScopes_eq (audience : Audience) (scopes : List String) :
    ((∃ rbac, tokenScopesForGrant audience scopes = .ok rbac) ∧ ∀ x ∈ scopes, x ∈ PROTOCOL_SCOPES audience) ∨
    (∃ x ∈ scopes, x ∉ PROTOCOL_SCOPES audience) ∧
      ∃ description, tokenScopesForGrant audience scopes = .error description := by
  unfold tokenScopesForGrant validateAudienceScopes
  cases hx : scopes.find? fun s => !(PROTOCOL_SCOPES audience).contains s with
  | none =>
    refine .inl ⟨⟨_, rfl⟩, fun x hx' => ?_⟩
    have hno := List.find?_eq_none.mp hx x hx'
    simpa using hno
  | some x =>
    have hno := List.find?_some hx
    exact .inr ⟨⟨x, List.mem_of_find?_eq_some hx, by simpa using hno⟩, _, rfl⟩

/-! ### A refresh up to the mark -/

/-- The service while the refresh is under way. -/
def opened (s : State) (p : RefreshParams) : State := { s with activeRefreshes := s.activeRefreshes ++ [p.token] }

/-- The service when the refresh has given its token back. -/
def closed (s : State) (token : Secret) : State := { s with activeRefreshes := s.activeRefreshes.filter (· ≠ token) }

def marked (s : State) (h : ℕ) (rt : RefreshRecord) : State :=
  { s with refreshTokens := Function.update s.refreshTokens h (some { rt with used := true }) }

theorem sameStore_closed (hidle : p.token ∉ s.activeRefreshes) (ph : Phase) :
    SameStore s ((closed (opened s p) p.token).start ph) := by
  refine ⟨rfl, rfl, rfl, ?_⟩
  show (s.activeRefreshes ++ [p.token]).filter (· ≠ p.token) = s.activeRefreshes
  rw [List.filter_append, List.filter_eq_self.mpr]
  · simp
  · grind

/-- The refresh is refused with nothing marked, or it never ends with an error. -/
def EndsEarly (s : State) (p : RefreshParams) (t : State) : Prop :=
  (∃ error description, t = (closed (opened s p) p.token).start (.done (.refused error description))) ∨
    ∀ error description, t.calls[s.calls.length]? ≠ some (.done (.refused error description))

theorem endsEarly_refuse (n : ℕ) (env : ℕ → Env) (ph : Phase) (error description : String) :
    EndsEarly s p (State.ahead s.calls.length (n + 1) env
      (((opened s p).start ph).refuse s.calls.length p.token error description)) := by
  refine .inl ⟨error, description, ?_⟩
  have hrefuse := refuse_start (opened s p) ph p.token error description
  change ((opened s p).start ph).refuse s.calls.length p.token error description = _ at hrefuse
  rw [hrefuse]
  exact ahead_refused (opened s p) p.token error description n env

theorem endsEarly_settled {t : State} {ph' : Phase} (htc : t.calls = s.calls) (hs : ph'.settled = true)
    (n : ℕ) (env : ℕ → Env) :
    EndsEarly s p (State.ahead s.calls.length n env ((t.start ph).put s.calls.length ph')) := by
  refine .inr fun error description => ?_
  rw [← htc, start_put]
  exact settled_not_refused (start_self t ph') hs n env error description

theorem alone_step (hidle : p.token ∉ s.activeRefreshes) (env : ℕ → Env) : s.alone p env =
    State.ahead s.calls.length 7 (fun k => env (k + 1))
      (((opened s p).start (.getRefresh p)).stepGetRefresh s.calls.length (env 0) p) := by
  have hrefresh : s.refresh p = (opened s p).start (.getRefresh p) := if_neg hidle
  unfold State.alone
  rw [hrefresh]
  exact ahead_start (opened s p) (.getRefresh p) env 7

theorem alone_grant (hidle : p.token ∉ s.activeRefreshes) (hfound : s.lookup p.token = some (h, rt))
    (hcurrent : (env 0).now ≤ rt.expiresAt) (hclient : rt.terms.clientId = p.clientId) : s.alone p env =
      State.ahead s.calls.length 6 (fun k => env (k + 2))
        (((opened s p).start (.getGrant p h rt)).stepGetGrant s.calls.length p h rt) := by
  have hstep : ((opened s p).start (.getRefresh p)).stepGetRefresh s.calls.length (env 0) p =
      (opened s p).start (.getGrant p h rt) := by
    have hl : ((opened s p).start (.getRefresh p)).lookup p.token = some (h, rt) := hfound
    unfold State.stepGetRefresh
    simp only [hl]
    rw [if_neg (Int.not_lt.mpr hcurrent), if_neg (not_not_intro hclient)]
    exact start_put (opened s p) _ _
  rw [alone_step hidle, hstep]
  exact ahead_start (opened s p) (.getGrant p h rt) (fun k => env (k + 1)) 6

theorem endsEarly (hidle : p.token ∉ s.activeRefreshes)
    (hno : ∀ h rt grant, ¬Marks s p (env 0).now h rt grant) : EndsEarly s p (s.alone p env) := by
  cases hfound : s.lookup p.token with
  | none =>
    rw [alone_step hidle]
    have hl : ((opened s p).start (.getRefresh p)).lookup p.token = none := hfound
    unfold State.stepGetRefresh
    simp only [hl]
    exact endsEarly_refuse 6 _ _ _ _
  | some found =>
    obtain ⟨h, rt⟩ := found
    have hl : ((opened s p).start (.getRefresh p)).lookup p.token = some (h, rt) := hfound
    by_cases hcurrent : (env 0).now ≤ rt.expiresAt
    · by_cases hclient : rt.terms.clientId = p.clientId
      · rw [alone_grant hidle hfound hcurrent hclient]
        -- The grant is read whether or not the token is used.
        cases hunused : rt.used with
        | true =>
          cases hgrant : s.grants rt.family with
          | none =>
            have hg : ((opened s p).start (.getGrant p h rt)).grants rt.family = none := hgrant
            unfold State.stepGetGrant
            simp only [hunused, hg]
            exact endsEarly_settled (by rfl) (by rfl) 6 _
          | some grant =>
            have hg : ((opened s p).start (.getGrant p h rt)).grants rt.family = some grant := hgrant
            unfold State.stepGetGrant
            simp only [hunused, hg]
            exact endsEarly_settled (by rfl) (by rfl) 6 _
        | false =>
          cases hgrant : s.grants rt.family with
          | none =>
            have hg : ((opened s p).start (.getGrant p h rt)).grants rt.family = none := hgrant
            unfold State.stepGetGrant
            simp only [hunused, hg]
            exact endsEarly_refuse 5 _ _ _ _
          | some grant =>
            have hg : ((opened s p).start (.getGrant p h rt)).grants rt.family = some grant := hgrant
            unfold State.stepGetGrant
            simp only [hunused, hg]
            cases hlive : grant.revokedAt with
            | none => exact absurd ⟨hidle, hfound, hcurrent, hclient, hunused, hgrant, hlive⟩ (hno h rt grant)
            | some at' => exact endsEarly_refuse 5 _ _ _ _
      · rw [alone_step hidle]
        unfold State.stepGetRefresh
        simp only [hl]
        rw [if_neg (Int.not_lt.mpr hcurrent), if_pos hclient]
        exact endsEarly_refuse 6 _ _ _ _
    · rw [alone_step hidle]
      unfold State.stepGetRefresh
      simp only [hl]
      rw [if_pos (Int.not_le.mp hcurrent)]
      exact endsEarly_refuse 6 _ _ _ _

/-! ### From the mark on -/

variable {grant : Grant}

theorem alone_mark (hm : Marks s p (env 0).now h rt grant) :
    s.alone p env = State.ahead s.calls.length 5 (fun k => env (k + 3))
      (((opened s p).start (.mark p h rt grant)).stepMark s.calls.length p h rt grant) := by
  have hstep : ((opened s p).start (.getGrant p h rt)).stepGetGrant s.calls.length p h rt =
      (opened s p).start (.mark p h rt grant) := by
    have hg : ((opened s p).start (.getGrant p h rt)).grants rt.family = some grant := hm.granted
    unfold State.stepGetGrant
    simp only [hm.unused, hg, hm.live]
    exact start_put (opened s p) _ _
  rw [alone_grant hm.idle hm.found hm.current hm.client, hstep]
  exact ahead_start (opened s p) (.mark p h rt grant) (fun k => env (k + 2)) 5

/-- The token is not used, so the mark succeeds. -/
theorem markUsed_opened (hm : Marks s p (env 0).now h rt grant) :
    ((opened s p).start (.mark p h rt grant)).markUsed h =
      ((marked (opened s p) h rt).start (.mark p h rt grant), true) := by
  have hr : ((opened s p).start (.mark p h rt grant)).refreshTokens h = some rt := (lookup_drawn hm.found).2
  unfold State.markUsed
  simp only [hr, hm.unused]
  rfl

/-- What a refresh is about to issue. -/
def minting (p : RefreshParams) (h : ℕ) (rt : RefreshRecord) (grant : Grant) (rbac : List String) : Issue :=
  ⟨.token h p.clientId, rt.family, grant.terms, State.asked grant p.scope, rbac⟩

variable {rbac : List String}

theorem alone_minting (hm : Marks s p (env 0).now h rt grant)
    (hscopes : State.refreshScopes grant p.scope = .ok (State.asked grant p.scope))
    (hrbac : tokenScopesForGrant grant.terms.audience (State.asked grant p.scope) = .ok rbac) :
    s.alone p env = State.ahead s.calls.length 4 (fun k => env (k + 4))
      (((marked (opened s p) h rt).start (.mint (minting p h rt grant rbac) grant)).stepPhase s.calls.length (env 3)
        (.mint (minting p h rt grant rbac) grant)) := by
  have hstep : ((opened s p).start (.mark p h rt grant)).stepMark s.calls.length p h rt grant =
      (marked (opened s p) h rt).start (.mint (minting p h rt grant rbac) grant) := by
    unfold State.stepMark
    simp only [markUsed_opened hm, hscopes, hrbac]
    exact start_put (marked (opened s p) h rt) _ _
  rw [alone_mark hm, hstep]
  exact ahead_start (marked (opened s p) h rt) (.mint (minting p h rt grant rbac) grant) (fun k => env (k + 3)) 4

theorem minting_refused {p : RefreshParams} {e : Env} (hcreated : e.ok = false) :
    s.stepPhase i e (.mint (minting p h rt grant rbac) grant) =
      s.refuse i (.drawn h) "tokens" "no access token" := by
  show (if e.ok = true then _ else _) = _
  rw [hcreated, if_neg (by decide)]
  rfl

def created (s : State) (i : ℕ) (x : Issue) (now : ℤ) : State :=
  { s with tokens := Function.update s.tokens i (some (State.accessToken x now)) }

theorem minting_created (t : State) (x : Issue) (grant : Grant) {e : Env} (hcreated : e.ok = true) :
    (t.start (.mint x grant)).stepPhase t.calls.length e (.mint x grant) =
      (created t t.calls.length x e.now).start (.revokeOld x grant) := by
  show (if e.ok = true then _ else _) = _
  rw [if_pos hcreated]
  exact start_put (created t t.calls.length x e.now) _ _

/-- Refused for its scopes, or by the token service: the token stays marked. -/
theorem alone_refused (hm : Marks s p (env 0).now h rt grant)
    (hlate : RefusedLate grant p.scope (env 3).ok) : ∃ error description, s.alone p env =
      (closed (marked (opened s p) h rt) p.token).start (.done (.refused error description)) := by
  have hrefuse : ∀ (ph : Phase) (error description : String) (n : ℕ) (env' : ℕ → Env),
      State.ahead s.calls.length (n + 1) env'
        (((marked (opened s p) h rt).start ph).refuse s.calls.length p.token error description) =
      (closed (marked (opened s p) h rt) p.token).start (.done (.refused error description)) := by
    intro ph error description n env'
    have hstart := refuse_start (marked (opened s p) h rt) ph p.token error description
    change ((marked (opened s p) h rt).start ph).refuse s.calls.length p.token error description = _ at hstart
    rw [hstart]
    exact ahead_refused (marked (opened s p) h rt) p.token error description n env'
  obtain ⟨hscopes, hgranted⟩ | ⟨x, -, -, hscopes⟩ := refreshScopes_eq grant p.scope
  · obtain ⟨⟨rbac, hrbac⟩, hpermitted⟩ | ⟨-, description, hrbac⟩ :=
      tokenScopes_eq grant.terms.audience (State.asked grant p.scope)
    · obtain ⟨x, hx, hno⟩ | hcreated := hlate
      · simp_all
      · refine ⟨"tokens", "no access token", ?_⟩
        rw [alone_minting hm hscopes hrbac, minting_refused hcreated, ← (lookup_drawn hm.found).1]
        exact hrefuse _ _ _ 3 _
    · rw [alone_mark hm]
      unfold State.stepMark
      simp only [markUsed_opened hm, hscopes, hrbac]
      exact ⟨_, _, hrefuse _ _ _ 4 _⟩
  · rw [alone_mark hm]
    unfold State.stepMark
    simp only [markUsed_opened hm, hscopes]
    exact ⟨_, _, hrefuse _ _ _ 4 _⟩

/-- Nothing is left to refuse. -/
theorem alone_settled (hm : Marks s p (env 0).now h rt grant)
    (hlate : ¬RefusedLate grant p.scope (env 3).ok) (error description : String) :
    (s.alone p env).calls[s.calls.length]? ≠ some (.done (.refused error description)) := by
  obtain ⟨hscopes, -⟩ | ⟨x, hx, hno, -⟩ := refreshScopes_eq grant p.scope
  · obtain ⟨⟨rbac, hrbac⟩, -⟩ | ⟨⟨x, hx, hno⟩, -⟩ :=
      tokenScopes_eq grant.terms.audience (State.asked grant p.scope)
    · have hcreated : (env 3).ok = true := by
        cases hok : (env 3).ok with
        | true => rfl
        | false => exact absurd (.inr hok) hlate
      have hstep := minting_created (marked (opened s p) h rt) (minting p h rt grant rbac) grant hcreated
      change State.stepPhase _ s.calls.length _ _ = _ at hstep
      rw [alone_minting hm hscopes hrbac, hstep]
      have hself := start_self (created (marked (opened s p) h rt) s.calls.length (minting p h rt grant rbac) (env 3).now)
        (.revokeOld (minting p h rt grant rbac) grant)
      exact settled_not_refused hself (by rfl) 4 _ _ _
    · exact absurd (.inl ⟨x, hx, .inr hno⟩) hlate
  · exact absurd (.inl ⟨x, hx, .inl hno⟩) hlate

/-! ### Which refusals cost nothing -/

/-- A refresh of a token that another refresh holds changes nothing, or it is a detected reuse. -/
theorem costless_busy (hbusy : p.token ∈ s.activeRefreshes) : Costless s p env := by
  intro error description hend
  have hrefresh : s.refresh p = s.start (.concurrent p) := if_pos hbusy
  have halone : s.alone p env = State.ahead s.calls.length 7 (fun k => env (k + 1))
      ((s.start (.concurrent p)).stepPhase s.calls.length (env 0) (.concurrent p)) := by
    unfold State.alone
    rw [hrefresh]
    exact ahead_start s (.concurrent p) env 7
  cases hfound : s.lookup p.token with
  | none =>
    have hl : (s.start (.concurrent p)).lookup p.token = none := hfound
    simp only [State.stepPhase, hl, start_put] at halone
    rw [halone, ahead_done (start_self s _)]
    exact ⟨rfl, rfl, rfl, rfl⟩
  | some found =>
    have hl : (s.start (.concurrent p)).lookup p.token = some found := hfound
    simp only [State.stepPhase, hl, start_put] at halone
    rw [halone] at hend
    exact absurd hend (settled_not_refused (start_self s _) (by rfl) 7 _ _ _)

/-- A refused refresh costs nothing unless the token is marked first: unless it passes the checks of
the token, of the client and of the grant, and then asks for a scope that it cannot have or gets no
access token. -/
theorem refusal_iff (s : State) (p : RefreshParams) (env : ℕ → Env) : Costless s p env ↔
    ¬∃ h rt grant, Marks s p (env 0).now h rt grant ∧ RefusedLate grant p.scope (env 3).ok := by
  constructor
  · rintro hcost ⟨h, rt, grant, hm, hlate⟩
    obtain ⟨error, description, hend⟩ := alone_refused hm hlate
    have hsame := hcost error description (by rw [hend]; exact start_self _ _)
    have hspent : (s.alone p env).refreshTokens h = some { rt with used := true } := by
      rw [hend]
      exact Function.update_self h _ s.refreshTokens
    rw [hsame.refreshTokens, (lookup_drawn hm.found).2] at hspent
    have hused : rt.used = true := congrArg RefreshRecord.used (Option.some.inj hspent)
    rw [hm.unused] at hused
    cases hused
  · intro hno
    by_cases hidle : p.token ∈ s.activeRefreshes
    · exact costless_busy hidle
    · intro error description hend
      by_cases hmarks : ∃ h rt grant, Marks s p (env 0).now h rt grant
      · obtain ⟨h, rt, grant, hm⟩ := hmarks
        have hlate : ¬RefusedLate grant p.scope (env 3).ok := fun hlate => hno ⟨h, rt, grant, hm, hlate⟩
        exact absurd hend (alone_settled hm hlate error description)
      · obtain ⟨e, d, hearly⟩ | hnever := endsEarly hidle fun h rt grant hm => hmarks ⟨h, rt, grant, hm⟩
        · rw [hearly]
          exact sameStore_closed hidle _
        · exact absurd hend (hnever error description)

/-! ### A scope that was not granted -/

private def reader : Terms := ⟨"u", "c", "a", none, .mcp, none⟩

/-- A grant to read, with a refresh token that is not used. -/
def readable : State where
  grants := fun f => if f = 0 then some ⟨reader, ["mcp.read"], none, 0, 0, none⟩ else none
  refreshTokens := fun h => if h = 0 then some ⟨0, reader, ["mcp.read"], 0, 1000, false⟩ else none

/-- A refresh that asks to write. -/
def widened : State := readable.alone ⟨.drawn 0, "c", some "mcp.write"⟩ fun _ => ⟨1, true⟩

/-- The refusal marks the token, and the refresh that asks for no more than was granted is then
taken for a reuse. -/
theorem refusal_spends : (¬∀ (s : State) (p : RefreshParams) (env : ℕ → Env), Costless s p env) ∧
    (widened.alone ⟨.drawn 0, "c", none⟩ fun _ => ⟨2, true⟩).calls[1]? = some (.done (.revoked 0)) := by
  refine ⟨?_, by decide⟩
  intro hall
  have hend : widened.calls[0]? =
      some (.done (.refused "invalid_scope" "requested scope 'mcp.write' exceeds granted scopes")) := by
    decide
  have hsame := hall readable ⟨.drawn 0, "c", some "mcp.write"⟩ (fun _ => ⟨1, true⟩) _ _ hend
  have hmarked : (widened.refreshTokens 0).map (·.used) = some true := by decide
  have htokens : widened.refreshTokens = readable.refreshTokens := hsame.refreshTokens
  rw [htokens] at hmarked
  exact absurd hmarked (by decide)

end Plur1bus.OAuth
