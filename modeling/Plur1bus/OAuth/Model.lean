import Plur1bus.Language

/-!
The OAuth service. Every call is a sequence of steps: an access to the store or to the tokens,
with what the code does on its own until the next one. Calls take their steps in any order, and a
step reads the clock as it likes.

What a call draws at random is known by the number of the call: the code that a call creates, the
access token and the refresh token that it issues, and the grant and the family that an exchange
starts. So no two draws are alike. A refresh token that was drawn is presented only after it was
handed out; any other text that is presented is a `Secret.other`. A token's hash stands for the
token.
-/

namespace Plur1bus.OAuth

inductive Audience
  | mcp
  | a2a
  deriving DecidableEq, Repr

def PROTOCOL_SCOPES : Audience → List String
  | .mcp => ["mcp.read", "mcp.write", "agent.use", "agent.manage", "memory.read", "memory.write"]
  | .a2a => ["a2a.task", "agent.use"]

def Audience.name : Audience → String
  | .mcp => "mcp"
  | .a2a => "a2a"

def validateAudienceScopes (audience : Audience) (requestedScopes : List String) : Except String (List String) :=
  match requestedScopes.find? fun s => !(PROTOCOL_SCOPES audience).contains s with
  | some s => .error ("scope '" ++ s ++ "' is not permitted for " ++ audience.name)
  | none => .ok requestedScopes

/-- The RBAC actions that a protocol scope stands for. -/
def actionsOf (scope : String) : List String :=
  if scope = "a2a.task" then ["agent.use", "agent.read"]
  else if scope = "memory.read" then ["memory.workspace.read", "memory.user.read", "memory.agent-private.read"]
  else if scope = "memory.write" then ["memory.workspace.write", "memory.user.write", "memory.agent-private.write"]
  else [scope]

def tokenScopesForGrant (audience : Audience) (scopes : List String) : Except String (List String) :=
  (validateAudienceScopes audience scopes).map fun scopes => scopes.flatMap actionsOf

/-- `scope.split(/\s+/).filter(Boolean)`. -/
def splitScopes (scope : String) : List String :=
  ((scope.toList.splitOnP isWhite).filter (· ≠ [])).map String.ofList

def AUTH_CODE_TTL_MS : ℤ := 10 * 60000
def ACCESS_TOKEN_TTL_MS : ℤ := 3600000
def REFRESH_TOKEN_TTL_MS : ℤ := 30 * 86400000

/-- Whom and what a code, a grant and a refresh token are for. -/
structure Terms where
  userId : String
  clientId : String
  agentId : String
  projectId : Option String
  audience : Audience
  resource : Option String
  deriving DecidableEq, Repr

structure CodeRecord where
  terms : Terms
  redirectUri : String
  codeChallenge : String
  scopes : List String
  createdAt : ℤ
  expiresAt : ℤ
  deriving DecidableEq, Repr

/-- The record of a grant; a family has one grant. -/
structure Grant where
  terms : Terms
  scopes : List String
  activeTokenId : Option ℕ
  createdAt : ℤ
  lastUsedAt : ℤ
  revokedAt : Option ℤ
  deriving DecidableEq, Repr

structure RefreshRecord where
  family : ℕ
  terms : Terms
  scopes : List String
  createdAt : ℤ
  expiresAt : ℤ
  used : Bool
  deriving DecidableEq, Repr

structure AccessToken where
  userId : String
  name : String
  scopes : List String
  audience : Audience
  agentId : String
  projectId : Option String
  expiresAt : ℤ
  revokedAt : Option ℤ
  deriving DecidableEq, Repr

structure Consumed where
  family : ℕ
  userId : String
  accessTokenId : ℕ
  expiresAt : ℤ
  deriving DecidableEq, Repr

/-- A refresh token, or a code, as it is presented. -/
inductive Secret
  | drawn (n : ℕ)
  | other (text : String)
  deriving DecidableEq, Repr

/-- What is presented to `revoke`: with the prefix of a refresh token, with that of another token,
or without. -/
inductive Bearer
  | refresh (secret : Secret)
  | access (secret : Secret)
  | other (text : String)
  deriving DecidableEq, Repr

/-- What a response was given for. -/
inductive Source
  | code (c : ℕ) (clientId redirectUri codeVerifier : String)
  | token (h : ℕ) (clientId : String)
  deriving DecidableEq, Repr

/-- What a call is about to issue, and what it has answered. -/
structure Issue where
  source : Source
  family : ℕ
  terms : Terms
  scopes : List String
  rbac : List String
  deriving DecidableEq, Repr

structure RefreshParams where
  token : Secret
  clientId : String
  scope : Option String
  deriving DecidableEq, Repr

/-- One access of a revocation. -/
inductive RevokeOp
  | family (f : ℕ)
  /-- Read the grant, and revoke its active token. -/
  | activeOf (f : ℕ)
  | token (userId : String) (t : ℕ)
  | stamp (f : ℕ)
  deriving DecidableEq, Repr

inductive Outcome
  | code (record : CodeRecord)
  | issued (x : Issue)
  | refused (error description : String)
  /-- The family was revoked: the call returned, or threw that a code or a token was used again. -/
  | revoked (f : ℕ)
  | found (b : Bool)
  | notRevoked
  deriving DecidableEq, Repr

inductive Phase
  -- exchangeAuthorizationCode
  | create (x : Issue) (codeExpires : ℤ)
  | saveGrant (x : Issue) (codeExpires now : ℤ)
  | saveFirst (x : Issue) (codeExpires now : ℤ)
  | finishExchange (x : Issue) (codeExpires : ℤ)
  -- refresh
  | getRefresh (p : RefreshParams)
  | getGrant (p : RefreshParams) (h : ℕ) (rt : RefreshRecord)
  | mark (p : RefreshParams) (h : ℕ) (rt : RefreshRecord) (grant : Grant)
  | mint (x : Issue) (grant : Grant)
  | revokeOld (x : Issue) (grant : Grant)
  | saveNext (x : Issue) (grant : Grant)
  | update (x : Issue) (grant : Grant) (now : ℤ)
  | finishRefresh (x : Issue) (grant : Grant)
  | concurrent (p : RefreshParams)
  -- revokeGrant, revokeActiveToken, revoke
  | lookupGrant (userId : String) (f : ℕ)
  | lookupActive (userId : String) (t : ℕ)
  | revokeFirst (b : Bearer)
  | authenticate (b : Bearer)
  | listGrants (b : Bearer) (t : ℕ)
  | revokeLast (b : Bearer)
  /-- The accesses that remain; `release` is the token to take from the active refreshes. -/
  | revoking (ops : List RevokeOp) (release : Option Secret) (out : Outcome)
  | release (token : Secret) (out : Outcome)
  | done (out : Outcome)
  deriving DecidableEq, Repr

structure State where
  codes : ℕ → Option CodeRecord := fun _ => none
  consumed : List (ℕ × Consumed) := []
  activeRefreshes : List Secret := []
  grants : ℕ → Option Grant := fun _ => none
  refreshTokens : ℕ → Option RefreshRecord := fun _ => none
  tokens : ℕ → Option AccessToken := fun _ => none
  calls : List Phase := []

/-- What a step reads: the clock, and whether the access succeeds. -/
structure Env where
  now : ℤ
  ok : Bool

namespace State

def put (s : State) (i : ℕ) (phase : Phase) : State := { s with calls := s.calls.set i phase }

def start (s : State) (phase : Phase) : State := { s with calls := s.calls ++ [phase] }

/-! ### The store and the tokens -/

def revokeFamily (s : State) (f : ℕ) (now : ℤ) : State := { s with
    refreshTokens := fun h => (s.refreshTokens h).filter fun rt => rt.family ≠ f
    grants := Function.update s.grants f ((s.grants f).map fun g => { g with revokedAt := g.revokedAt.or (some now) }) }

/-- `updateGrant(f, { revokedAt })`. -/
def stampGrant (s : State) (f : ℕ) (now : ℤ) : State :=
  { s with grants := Function.update s.grants f ((s.grants f).map fun g => { g with revokedAt := some now }) }

/-- `tokens.revoke`. -/
def revokeToken (s : State) (userId : String) (t : ℕ) (now : ℤ) : State :=
  { s with tokens := Function.update s.tokens t ((s.tokens t).map fun a =>
      if a.userId = userId ∧ a.revokedAt = none then { a with revokedAt := some now } else a) }

/-- What `tokens.create` stores. -/
def accessToken (x : Issue) (now : ℤ) : AccessToken where
  userId := x.terms.userId
  name := "oauth:" ++ x.terms.clientId
  scopes := x.rbac.eraseDups
  audience := x.terms.audience
  agentId := trim x.terms.agentId
  projectId := x.terms.projectId.map trim
  expiresAt := now + ACCESS_TOKEN_TTL_MS
  revokedAt := none

def refreshRecord (x : Issue) (now : ℤ) : RefreshRecord where
  family := x.family
  terms := x.terms
  scopes := x.scopes
  createdAt := now
  expiresAt := now + REFRESH_TOKEN_TTL_MS
  used := false

/-- `markRefreshTokenUsed`, with what it answers. -/
def markUsed (s : State) (h : ℕ) : State × Bool :=
  match s.refreshTokens h with
  | none => (s, false)
  | some rt =>
    if rt.used then (s, false)
    else ({ s with refreshTokens := Function.update s.refreshTokens h (some { rt with used := true }) }, true)

def lookup (s : State) : Secret → Option (ℕ × RefreshRecord)
  | .drawn h => (s.refreshTokens h).map fun rt => (h, rt)
  | .other _ => none

/-! ### The steps -/

def reuse : List RevokeOp → Grant → List RevokeOp
  | ops, grant => ops ++ (grant.activeTokenId.map fun t => RevokeOp.token grant.terms.userId t).toList

/-- A refresh ends with an error. -/
def refuse (s : State) (i : ℕ) (token : Secret) (error description : String) : State :=
  s.put i (.release token (.refused error description))

/-- After `getRefreshToken`. -/
def stepGetRefresh (s : State) (i : ℕ) (env : Env) (p : RefreshParams) : State :=
  match s.lookup p.token with
  | none => s.refuse i p.token "invalid_grant" "refresh token is invalid or expired"
  | some (h, rt) =>
    if env.now > rt.expiresAt then s.refuse i p.token "invalid_grant" "refresh token is invalid or expired"
    else if rt.terms.clientId ≠ p.clientId then
      s.refuse i p.token "invalid_grant" "client_id does not match the refresh token"
    else s.put i (.getGrant p h rt)

/-- After `getGrant`. -/
def stepGetGrant (s : State) (i : ℕ) (p : RefreshParams) (h : ℕ) (rt : RefreshRecord) : State :=
  match rt.used, s.grants rt.family with
  | true, none => s.put i (.revoking [.family rt.family] (some p.token) (.revoked rt.family))
  | true, some grant => s.put i (.revoking (reuse [.family rt.family] grant) (some p.token) (.revoked rt.family))
  | false, none => s.refuse i p.token "invalid_grant" "grant has been revoked"
  | false, some grant =>
    if grant.revokedAt.isSome then s.refuse i p.token "invalid_grant" "grant has been revoked"
    else s.put i (.mark p h rt grant)

/-- The scopes of a refresh: those of the grant, or those of them that are requested. -/
def refreshScopes (grant : Grant) (scope : Option String) : Except String (List String) :=
  match scope with
  | none => .ok grant.scopes
  | some text =>
    if text = "" then .ok grant.scopes
    else
      match (splitScopes text).find? fun s => !grant.scopes.contains s with
      | some s => .error s
      | none => .ok (splitScopes text)

/-- After `markRefreshTokenUsed`. -/
def stepMark (s : State) (i : ℕ) (p : RefreshParams) (h : ℕ) (rt : RefreshRecord) (grant : Grant) : State :=
  match s.markUsed h with
  | (s, false) => s.put i (.revoking (reuse [.family rt.family] grant) (some p.token) (.revoked rt.family))
  | (s, true) =>
    match refreshScopes grant p.scope with
    | .error x => s.refuse i p.token "invalid_scope" ("requested scope '" ++ x ++ "' exceeds granted scopes")
    | .ok scopes =>
      match tokenScopesForGrant grant.terms.audience scopes with
      | .error description => s.refuse i p.token "invalid_scope" description
      | .ok rbac => s.put i (.mint ⟨.token h p.clientId, rt.family, grant.terms, scopes, rbac⟩ grant)

/-- One access of a revocation. -/
def stepRevoking (s : State) (i : ℕ) (env : Env) (ops : List RevokeOp) (release : Option Secret) (out : Outcome) : State :=
  match ops with
  | [] => ({ s with activeRefreshes := s.activeRefreshes.filter fun t => some t ≠ release }).put i (.done out)
  | .family f :: ops => (s.revokeFamily f env.now).put i (.revoking ops release out)
  | .activeOf f :: ops =>
    match s.grants f with
    | none => s.put i (.revoking ops release out)
    | some grant => s.put i (.revoking (reuse [] grant ++ ops) release out)
  | .token userId t :: ops => (s.revokeToken userId t env.now).put i (.revoking ops release out)
  | .stamp f :: ops => (s.stampGrant f env.now).put i (.revoking ops release out)

def bearerToken : Bearer → Option Secret
  | .refresh secret => some secret
  | _ => none

/-- `revoke` of a refresh token that is found, and `next` otherwise. -/
def revokeFound (s : State) (i : ℕ) (b : Bearer) (next : Phase) : State :=
  match (bearerToken b).bind s.lookup with
  | some (_, rt) => s.put i (.revoking [.family rt.family, .activeOf rt.family] none (.revoked rt.family))
  | none => s.put i next

def afterFirst : Bearer → Phase
  | .access secret => .authenticate (.access secret)
  | b => .revokeLast b

/-- The families of a user whose active token is `t`; no user stands for all. -/
def familiesOf (s : State) (userId : String) (t : ℕ) : List ℕ := (List.range s.calls.length).filter fun f =>
    (s.grants f).any fun g => (userId = "" || g.terms.userId = userId) && g.activeTokenId = some t

def stepPhase (s : State) (i : ℕ) (env : Env) : Phase → State
  | .create x codeExpires =>
    if env.ok then
      ({ s with tokens := Function.update s.tokens i (some (accessToken x env.now)) }).put i
        (.saveGrant x codeExpires env.now)
    else s.put i (.done (.refused "tokens" "no access token"))
  | .saveGrant x codeExpires now =>
    ({ s with grants := Function.update s.grants i (some ⟨x.terms, x.scopes, some i, now, now, none⟩) }).put i
      (.saveFirst x codeExpires now)
  | .saveFirst x codeExpires now =>
    ({ s with refreshTokens := Function.update s.refreshTokens i (some (refreshRecord x now)) }).put i
      (.finishExchange x codeExpires)
  | .finishExchange x codeExpires =>
    match x.source with
    | .code c _ _ _ =>
      ({ s with consumed := s.consumed ++ [(c, (⟨i, x.terms.userId, i, codeExpires + 600000⟩ : Consumed))] } : State).put i
        (.done (.issued x))
    | .token _ _ => s
  | .getRefresh p => s.stepGetRefresh i env p
  | .getGrant p h rt => s.stepGetGrant i p h rt
  | .mark p h rt grant => s.stepMark i p h rt grant
  | .mint x grant =>
    if env.ok then
      ({ s with tokens := Function.update s.tokens i (some (accessToken x env.now)) }).put i (.revokeOld x grant)
    else
      match x.source with
      | .token h _ => s.refuse i (.drawn h) "tokens" "no access token"
      | .code _ _ _ _ => s
  | .revokeOld x grant =>
    match grant.activeTokenId with
    | none => s.put i (.saveNext x grant)
    | some t => (s.revokeToken grant.terms.userId t env.now).put i (.saveNext x grant)
  | .saveNext x grant =>
    ({ s with refreshTokens := Function.update s.refreshTokens i (some (refreshRecord x env.now)) }).put i
      (.update x grant env.now)
  | .update x grant now =>
    ({ s with grants := Function.update s.grants x.family ((s.grants x.family).map fun g =>
        ({ g with activeTokenId := some i, lastUsedAt := now, scopes := x.scopes } : Grant)) } : State).put i
      (.finishRefresh x grant)
  | .finishRefresh x _ =>
    match x.source with
    | .token h _ =>
      ({ s with activeRefreshes := s.activeRefreshes.filter (· ≠ Secret.drawn h) } : State).put i (.done (.issued x))
    | .code _ _ _ _ => s
  | .concurrent p =>
    match s.lookup p.token with
    | none => s.put i (.done (.refused "invalid_grant"
        "concurrent refresh token reuse detected; entire token family has been revoked"))
    | some (_, rt) => s.put i (.revoking [.family rt.family, .activeOf rt.family] none (.revoked rt.family))
  | .lookupGrant userId f =>
    match s.grants f with
    | none => s.put i (.done (.found false))
    | some grant =>
      if userId ≠ "" ∧ grant.terms.userId ≠ userId then s.put i (.done (.found false))
      else s.put i (.revoking (reuse [.family f] grant ++ [.stamp f]) none (.revoked f))
  | .lookupActive userId t =>
    let ops := (s.familiesOf userId t).flatMap fun f => [RevokeOp.family f, .stamp f]
    s.put i (.revoking ops none (.found (ops ≠ [])))
  | .revokeFirst b => s.revokeFound i b (afterFirst b)
  | .authenticate b =>
    match b with
    | .access (.drawn t) => if (s.tokens t).isSome then s.put i (.listGrants b t) else s.put i (.revokeLast b)
    | _ => s.put i (.revokeLast b)
  | .listGrants b t =>
    match s.familiesOf "" t with
    | [] => s.put i (.revokeLast b)
    | f :: _ =>
      match s.grants f with
      | none => s.put i (.revokeLast b)
      | some grant => s.put i (.revoking [.token grant.terms.userId t, .stamp f, .family f] none (.revoked f))
  | .revokeLast b => s.revokeFound i b (.done .notRevoked)
  | .revoking ops release out => s.stepRevoking i env ops release out
  | .release token out => ({ s with activeRefreshes := s.activeRefreshes.filter (· ≠ token) }).put i (.done out)
  | .done _ => s

def step (s : State) (i : ℕ) (env : Env) : State :=
  match s.calls[i]? with
  | none => s
  | some phase => s.stepPhase i env phase

/-! ### The calls -/

def createAuthorizationCode (s : State) (terms : Terms) (redirectUri codeChallenge : String) (scopes : List String)
    (now : ℤ) : State :=
  let record : CodeRecord := ⟨terms, redirectUri, codeChallenge, scopes, now, now + AUTH_CODE_TTL_MS⟩
  ({ s with
      consumed := if s.consumed.length > 200 then s.consumed.filter fun e => now ≤ e.2.expiresAt else s.consumed
      codes := Function.update s.codes s.calls.length (some record) } : State).start (.done (.code record))

/-- `redeemAuthorizationCode`, once the code is found and taken out of the codes. -/
def redeem (pkce : String → String → Bool) (record : CodeRecord) (clientId redirectUri codeVerifier : String) (now : ℤ) :
    Option String :=
  if now > record.expiresAt then some "authorization code has expired"
  else if record.terms.clientId ≠ clientId then some "client_id does not match the code request"
  else if record.redirectUri ≠ redirectUri then some "redirect_uri does not match the code request"
  else if pkce codeVerifier record.codeChallenge then none
  else some "PKCE code verification failed"

def exchangeAuthorizationCode (pkce : String → String → Bool) (s : State) (c : ℕ)
    (clientId redirectUri codeVerifier : String) (now : ℤ) : State :=
  match s.consumed.lookup c with
  | some e => s.start (.revoking [.family e.family, .token e.userId e.accessTokenId] none (.revoked e.family))
  | none =>
    match s.codes c with
    | none => s.start (.done (.refused "invalid_grant" "authorization code is invalid or already consumed"))
    | some record =>
      let s := { s with codes := Function.update s.codes c none }
      match redeem pkce record clientId redirectUri codeVerifier now with
      | some description => s.start (.done (.refused "invalid_grant" description))
      | none =>
        match tokenScopesForGrant record.terms.audience record.scopes with
        | .error description => s.start (.done (.refused "invalid_scope" description))
        | .ok rbac =>
          s.start (.create ⟨.code c clientId redirectUri codeVerifier, s.calls.length, record.terms, record.scopes, rbac⟩
            record.expiresAt)

def refresh (s : State) (p : RefreshParams) : State :=
  if p.token ∈ s.activeRefreshes then s.start (.concurrent p)
  else ({ s with activeRefreshes := s.activeRefreshes ++ [p.token] } : State).start (.getRefresh p)

/-- `hint` is that the type of the token is said to be that of a refresh token. -/
def revoke (s : State) (b : Bearer) (hint : Bool) : State :=
  match b with
  | .refresh secret => s.start (.revokeFirst (.refresh secret))
  | b => if hint then s.start (.revokeFirst b) else s.start (afterFirst b)

/-- The refresh token was handed out. -/
def handed (s : State) : Secret → Bool
  | .drawn h =>
    match s.calls[h]? with
    | some (.done (.issued _)) => true
    | _ => false
  | .other _ => true

end State

inductive Act
  | createAuthorizationCode (terms : Terms) (redirectUri codeChallenge : String) (scopes : List String) (now : ℤ)
  | exchangeAuthorizationCode (c : ℕ) (clientId redirectUri codeVerifier : String) (now : ℤ)
  | refresh (p : RefreshParams)
  | revokeGrant (userId : String) (f : ℕ)
  | revokeActiveToken (userId : String) (t : ℕ)
  | revoke (b : Bearer) (hint : Bool)
  | step (i : ℕ) (env : Env)

def State.act (pkce : String → String → Bool) (s : State) : Act → State
  | .createAuthorizationCode terms redirectUri codeChallenge scopes now =>
    s.createAuthorizationCode terms redirectUri codeChallenge scopes now
  | .exchangeAuthorizationCode c clientId redirectUri codeVerifier now =>
    s.exchangeAuthorizationCode pkce c clientId redirectUri codeVerifier now
  | .refresh p => if s.handed p.token then s.refresh p else s
  | .revokeGrant userId f => s.start (.lookupGrant userId f)
  | .revokeActiveToken userId t => s.start (.lookupActive userId t)
  | .revoke b hint => if (State.bearerToken b).all s.handed then s.revoke b hint else s
  | .step i env => s.step i env

/-- What is reached by any acts. -/
def run (pkce : String → String → Bool) (acts : List Act) : State := acts.foldl (State.act pkce) {}

end Plur1bus.OAuth
