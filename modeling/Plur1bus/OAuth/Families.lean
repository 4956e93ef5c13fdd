import Mathlib.Data.List.Basic
import Plur1bus.OAuth.Model

/-!
What holds of the service in every state that its calls can reach. A family has one refresh token
that is not used, or none; the call that uses it up is alone in its family until it has saved the
next one and the grant, and until it has answered nobody else can name that token. So what a call
has read of the grant is still true when it is the one that marks the token.
-/

namespace Plur1bus.OAuth

/-! ### Phases -/

/-- What the call is issuing, or has issued. -/
def Phase.issue? : Phase → Option Issue
  | .create x _ | .saveGrant x _ _ | .saveFirst x _ _ | .finishExchange x _ => some x
  | .mint x _ | .revokeOld x _ | .saveNext x _ | .update x _ _ | .finishRefresh x _ => some x
  | .done (.issued x) => some x
  | _ => none

/-- The call has marked a token and not yet updated the grant; with the grant that it has read. -/
def Phase.minting? : Phase → Option (Issue × Grant)
  | .mint x g | .revokeOld x g | .saveNext x g | .update x g _ => some (x, g)
  | _ => none

/-- The refresh token of the call is saved. -/
def Phase.saved : Phase → Bool
  | .finishExchange _ _ | .update _ _ _ | .finishRefresh _ _ | .done (.issued _) => true
  | _ => false

/-- An exchange whose grant is saved. -/
def Phase.granted : Phase → Bool
  | .saveFirst _ _ _ | .finishExchange _ _ | .done (.issued _) => true
  | _ => false

/-- The access token of the call was created. -/
def Phase.created : Phase → Bool
  | .saveGrant _ _ _ | .saveFirst _ _ _ | .finishExchange _ _ => true
  | .revokeOld _ _ | .saveNext _ _ | .update _ _ _ | .finishRefresh _ _ => true
  | .done (.issued _) => true
  | _ => false

def Phase.updating : Phase → Bool
  | .update _ _ _ => true
  | _ => false

/-- The code or the token that a response is given for. -/
def Source.key : Source → ℕ ⊕ ℕ
  | .code c _ _ _ => .inl c
  | .token h _ => .inr h

def Source.isCode : Source → Bool
  | .code _ _ _ _ => true
  | .token _ _ => false

variable {x : Issue} {g : Grant}

theorem Phase.issue?_of_minting? {ph : Phase} (h : ph.minting? = some (x, g)) : ph.issue? = some x := by
  cases ph <;> cases h <;> rfl

/-! ### The invariant -/

section

variable (pkce : String → String → Bool)

/-- Call `h` has handed out its refresh token. -/
def Issued (s : State) (h : ℕ) (y : Issue) : Prop := s.calls[h]? = some (.done (.issued y))

/-- Where what a call issues comes from: a code that is used up and fits, or a refresh token that is
used up and was handed out for the same. -/
def Sourced (s : State) (i : ℕ) (x : Issue) : Prop :=
  match x.source with
  | .code c clientId redirectUri codeVerifier =>
    x.family = i ∧ s.codes c = none ∧ ∃ record, s.calls[c]? = some (.done (.code record)) ∧
      x.terms = record.terms ∧ x.scopes = record.scopes ∧ record.terms.clientId = clientId ∧
      record.redirectUri = redirectUri ∧ pkce codeVerifier record.codeChallenge = true
  | .token h clientId =>
    (∀ r, s.refreshTokens h = some r → r.used = true) ∧
      (∃ z, Issued s x.family z ∧ z.terms = x.terms ∧ x.scopes ⊆ z.scopes ∧ z.source.isCode = true) ∧
      ∃ y, Issued s h y ∧ y.family = x.family ∧ y.terms = x.terms ∧ x.scopes ⊆ y.scopes ∧ x.terms.clientId = clientId

/-- What a call relies on that has not marked a token yet, or that is minting. -/
def Local (s : State) (i : ℕ) : Phase → Prop
  | .create x _ | .saveGrant x _ _ | .finishExchange x _ => x.source.isCode = true
  | .saveFirst x _ _ => x.source.isCode = true ∧ ∃ g, s.grants i = some g ∧ g.scopes = x.scopes
  | .getRefresh p | .concurrent p => ∀ h, p.token = .drawn h → ∃ y, Issued s h y
  | .getGrant p h rt => p.token = .drawn h ∧ p.clientId = rt.terms.clientId ∧
      ∃ y, Issued s h y ∧ y.family = rt.family ∧ y.terms = rt.terms ∧ y.scopes = rt.scopes
  | .mark p h rt g => p.token = .drawn h ∧ p.clientId = rt.terms.clientId ∧ g.terms = rt.terms ∧
      (∃ y, Issued s h y ∧ y.family = rt.family ∧ y.terms = rt.terms ∧ y.scopes = rt.scopes) ∧
      ∀ r, s.refreshTokens h = some r → r.used = false →
        g.scopes = rt.scopes ∧ ∃ g', s.grants rt.family = some g' ∧ g'.activeTokenId = g.activeTokenId
  | .mint x g | .revokeOld x g | .saveNext x g | .update x g _ => x.source.isCode = false ∧ g.terms = x.terms ∧
      ∃ g', s.grants x.family = some g' ∧ g'.activeTokenId = g.activeTokenId
  | .finishRefresh x _ => x.source.isCode = false
  | .revoking _ _ out | .release _ out => ∀ x, out ≠ .issued x
  | _ => True

/-- The access token of a call that issues `x`. -/
def Bears (a : AccessToken) (x : Issue) : Prop :=
  a.userId = x.terms.userId ∧ a.scopes = x.rbac.eraseDups ∧ a.audience = x.terms.audience ∧
    a.agentId = trim x.terms.agentId ∧ a.projectId = x.terms.projectId.map trim

structure Inv (s : State) : Prop where
  code : ∀ (c : ℕ) (record : CodeRecord), s.codes c = some record → s.calls[c]? = some (.done (.code record))
  sourced : ∀ (i : ℕ) (ph : Phase) (x : Issue), s.calls[i]? = some ph → ph.issue? = some x → Sourced pkce s i x
  rbac : ∀ (i : ℕ) (ph : Phase) (x : Issue), s.calls[i]? = some ph → ph.issue? = some x →
    tokenScopesForGrant x.terms.audience x.scopes = .ok x.rbac
  once : ∀ (i j : ℕ) (ph ph' : Phase) (x y : Issue), s.calls[i]? = some ph → s.calls[j]? = some ph' →
    ph.issue? = some x → ph'.issue? = some y → x.source.key = y.source.key → i = j
  loc : ∀ (i : ℕ) (ph : Phase), s.calls[i]? = some ph → Local s i ph
  token : ∀ (i : ℕ) (ph : Phase) (x : Issue), s.calls[i]? = some ph → ph.created = true → ph.issue? = some x →
    ∃ a, s.tokens i = some a ∧ Bears a x
  refresh : ∀ (h : ℕ) (r : RefreshRecord), s.refreshTokens h = some r → ∃ ph y, s.calls[h]? = some ph ∧
    ph.saved = true ∧ ph.issue? = some y ∧ r.family = y.family ∧ r.terms = y.terms ∧ r.scopes = y.scopes
  unused : ∀ (h h' : ℕ) (r r' : RefreshRecord), s.refreshTokens h = some r → s.refreshTokens h' = some r' →
    r.used = false → r'.used = false → r.family = r'.family → h = h'
  minting : ∀ (i : ℕ) (ph : Phase) (x : Issue) (g : Grant), s.calls[i]? = some ph → ph.minting? = some (x, g) →
    ∀ (h : ℕ) (r : RefreshRecord), s.refreshTokens h = some r → r.family = x.family → r.used = false → h = i
  alone : ∀ (i j : ℕ) (ph ph' : Phase) (x y : Issue) (g g' : Grant), s.calls[i]? = some ph → s.calls[j]? = some ph' →
    ph.minting? = some (x, g) → ph'.minting? = some (y, g') → x.family = y.family → i = j
  grant : ∀ (f : ℕ) (g : Grant), s.grants f = some g → ∃ ph z, s.calls[f]? = some ph ∧ ph.granted = true ∧
    ph.issue? = some z ∧ z.source.isCode = true ∧ g.terms = z.terms
  granted : ∀ (i : ℕ) (ph : Phase) (x : Issue), s.calls[i]? = some ph → ph.granted = true → ph.issue? = some x →
    x.source.isCode = true → ∃ g, s.grants i = some g
  scopes : ∀ (h : ℕ) (r : RefreshRecord), s.refreshTokens h = some r → r.used = false →
    (∃ ph, s.calls[h]? = some ph ∧ ph.updating = true) ∨ ∃ g, s.grants r.family = some g ∧ g.scopes = r.scopes

end

variable {pkce : String → String → Bool} {s t : State} {i j : ℕ} {ph ph' : Phase}

/-! ### A call goes on -/

variable {q : Phase}

theorem put_cases (h : (t.put i ph').calls[j]? = some q) :
    (j = i ∧ q = ph') ∨ (j ≠ i ∧ t.calls[j]? = some q) := by
  grind [State.put]

theorem put_other (hij : j ≠ i) (h : t.calls[j]? = some q) : (t.put i ph').calls[j]? = some q := by
  show (t.calls.set i ph')[j]? = some q
  rw [List.getElem?_set_ne (Ne.symm hij)]
  exact h

theorem put_self (h : t.calls[i]? = some q) : (t.put i ph').calls[i]? = some ph' := by
  show (t.calls.set i ph')[i]? = some ph'
  rw [List.getElem?_set_self (List.getElem?_eq_some_iff.mp h).1]

/-- The part of a grant that a revocation leaves as it is. -/
def Grant.held (g : Grant) : Terms × List String × Option ℕ := (g.terms, g.scopes, g.activeTokenId)

/-- Nothing is added to the store, and of the grants only the time of the revocation changes. -/
structure Shrinks (s t : State) : Prop where
  calls : t.calls = s.calls
  codes : t.codes = s.codes
  refresh : ∀ (h : ℕ) (r' : RefreshRecord), t.refreshTokens h = some r' → ∃ r, s.refreshTokens h = some r ∧
    r'.family = r.family ∧ r'.terms = r.terms ∧ r'.scopes = r.scopes ∧ (r'.used = false → r.used = false)
  grants : ∀ f, (t.grants f).map Grant.held = (s.grants f).map Grant.held

/-- A call goes from `ph` to `ph'` without issuing anything new. -/
structure GoesOn (ph ph' : Phase) : Prop where
  issue : ph'.issue? = none ∨ ph'.issue? = ph.issue?
  minting : ∀ x g, ph'.minting? = some (x, g) → ph.minting? = some (x, g)
  saved : ph.saved = true → ph'.saved = true ∧ ph'.issue? = ph.issue?
  granted : ph.granted = true → ph'.granted = true ∧ ph'.issue? = ph.issue?
  notDone : ∀ out, ph ≠ .done out
  updating : ph.updating = false

theorem Shrinks.grant (h : Shrinks s t) {f : ℕ} (hg : s.grants f = some g) :
    ∃ g', t.grants f = some g' ∧ g'.held = g.held := by
  have heq := h.grants f
  rw [hg, Option.map_some] at heq
  exact Option.map_eq_some_iff.mp heq

theorem Shrinks.grant_of (h : Shrinks s t) {f : ℕ} {g' : Grant} (hg : t.grants f = some g') :
    ∃ g, s.grants f = some g ∧ g.held = g'.held := by
  have heq := h.grants f
  rw [hg, Option.map_some] at heq
  exact Option.map_eq_some_iff.mp heq.symm

variable {k : ℕ}

/-- A call that is over stays so. -/
theorem putDone {out : Outcome} (hcalls : t.calls = s.calls) (hi : s.calls[i]? = some ph)
    (hdone : ∀ out, ph ≠ .done out) (hk : s.calls[k]? = some (.done out)) :
    (t.put i ph').calls[k]? = some (.done out) := by
  have hne : k ≠ i := by
    rintro rfl
    exact hdone _ (Option.some.inj (hi.symm.trans hk))
  apply put_other hne
  rw [hcalls]
  exact hk

/-- What was handed out stays so. -/
theorem Issued.put {h : ℕ} {y : Issue} (hy : Issued s h y) (hcalls : t.calls = s.calls) (hi : s.calls[i]? = some ph)
    (hdone : ∀ out, ph ≠ .done out) : Issued (t.put i ph') h y :=
  putDone hcalls hi hdone hy

theorem Sourced.shrink (h : Sourced pkce s k x) (hs : Shrinks s t) (hi : s.calls[i]? = some ph)
    (hdone : ∀ out, ph ≠ .done out) : Sourced pkce (t.put i ph') k x := by
  unfold Sourced at h ⊢
  cases hsource : x.source with
  | code c clientId redirectUri codeVerifier =>
    rw [hsource] at h
    obtain ⟨hfamily, hcode, record, hrecord, hrest⟩ := h
    refine ⟨hfamily, ?_, record, putDone hs.calls hi hdone hrecord, hrest⟩
    show t.codes c = none
    rw [hs.codes]
    exact hcode
  | token h' clientId =>
    rw [hsource] at h
    obtain ⟨hused, ⟨z, hz, hterms⟩, y, hy, hrest⟩ := h
    refine ⟨?_, ⟨z, hz.put hs.calls hi hdone, hterms⟩, y, hy.put hs.calls hi hdone, hrest⟩
    intro r' hr'
    obtain ⟨r, hr, -, -, -, hunused⟩ := hs.refresh h' r' hr'
    by_contra hno
    have hr'' := hused r hr
    rw [hunused (Bool.eq_false_iff.mpr hno)] at hr''
    cases hr''

/-- The families whose grant a call relies on to stay as it has read it. -/
def Relies (s : State) (k : ℕ) : Phase → ℕ → Prop
  | .saveFirst _ _ _, f => f = k
  | .mark _ h rt _, f => f = rt.family ∧ (∃ y, Issued s h y ∧ y.family = rt.family) ∧
      ∃ r, s.refreshTokens h = some r ∧ r.used = false
  | .mint x _, f | .revokeOld x _, f | .saveNext x _, f | .update x _ _, f => f = x.family
  | _, _ => False

theorem Local.keep {s' : State} (h : Local s k q)
    (hissued : ∀ (l : ℕ) (y : Issue), Issued s l y → Issued s' l y)
    (hunused : ∀ (l : ℕ) (y : Issue) (r' : RefreshRecord), Issued s l y → s'.refreshTokens l = some r' →
      r'.used = false → ∃ r, s.refreshTokens l = some r ∧ r.used = false)
    (hgrant : ∀ (f : ℕ) (g : Grant), Relies s k q f → s.grants f = some g →
      ∃ g', s'.grants f = some g' ∧ g'.scopes = g.scopes ∧ g'.activeTokenId = g.activeTokenId) :
    Local s' k q := by
  have hactive : ∀ {f : ℕ} {a : Option ℕ}, Relies s k q f → (∃ g', s.grants f = some g' ∧ g'.activeTokenId = a) →
      ∃ g', s'.grants f = some g' ∧ g'.activeTokenId = a := by
    rintro f a hrelies ⟨g, hg, ha⟩
    obtain ⟨g', hg', -, hact⟩ := hgrant f g hrelies hg
    exact ⟨g', hg', hact.trans ha⟩
  cases q with
  | saveFirst x _ _ =>
    obtain ⟨hcode, g, hg, hscopes⟩ := h
    obtain ⟨g', hg', hsc, -⟩ := hgrant k g rfl hg
    exact ⟨hcode, g', hg', hsc.trans hscopes⟩
  | getRefresh p =>
    intro h' hp
    obtain ⟨y, hy⟩ := h h' hp
    exact ⟨y, hissued h' y hy⟩
  | concurrent p =>
    intro h' hp
    obtain ⟨y, hy⟩ := h h' hp
    exact ⟨y, hissued h' y hy⟩
  | getGrant p h' rt =>
    obtain ⟨hp, hclient, y, hy, hrest⟩ := h
    exact ⟨hp, hclient, y, hissued h' y hy, hrest⟩
  | mark p h' rt g =>
    obtain ⟨hp, hclient, hterms, ⟨y, hy, hrest⟩, hfit⟩ := h
    refine ⟨hp, hclient, hterms, ⟨y, hissued h' y hy, hrest⟩, ?_⟩
    intro r' hr' hno
    obtain ⟨r, hr, hno'⟩ := hunused h' y r' hy hr' hno
    obtain ⟨hscopes, hg⟩ := hfit r hr hno'
    exact ⟨hscopes, hactive ⟨rfl, ⟨y, hy, hrest.1⟩, r, hr, hno'⟩ hg⟩
  | mint x g => exact ⟨h.1, h.2.1, hactive rfl h.2.2⟩
  | revokeOld x g => exact ⟨h.1, h.2.1, hactive rfl h.2.2⟩
  | saveNext x g => exact ⟨h.1, h.2.1, hactive rfl h.2.2⟩
  | update x g now => exact ⟨h.1, h.2.1, hactive rfl h.2.2⟩
  | create x _ => exact h
  | saveGrant x _ _ => exact h
  | finishExchange x _ => exact h
  | finishRefresh x _ => exact h
  | lookupGrant => trivial
  | lookupActive => trivial
  | revokeFirst => trivial
  | authenticate => trivial
  | listGrants => trivial
  | revokeLast => trivial
  | revoking ops rel out => exact h
  | release token out => exact h
  | done => trivial

theorem Local.shrink (h : Local s k q) (hs : Shrinks s t) (hi : s.calls[i]? = some ph)
    (hdone : ∀ out, ph ≠ .done out) : Local (t.put i ph') k q := by
  refine h.keep (fun l y hy => hy.put hs.calls hi hdone) ?_ ?_
  · intro l y r' _ hr' hunused
    obtain ⟨r, hr, -, -, -, hkeep⟩ := hs.refresh l r' hr'
    exact ⟨r, hr, hkeep hunused⟩
  · intro f g _ hg
    obtain ⟨g', hg', hheld⟩ := hs.grant hg
    exact ⟨g', hg', congrArg (fun p => p.2.1) hheld, congrArg (fun p => p.2.2) hheld⟩

/-- The issue of a call after a step is one it had before. -/
theorem GoesOn.issue_of (hgo : GoesOn ph ph') (hx : ph'.issue? = some x) : ph.issue? = some x := by
  obtain hnone | hsame := hgo.issue
  · rw [hnone] at hx
    cases hx
  · exact hsame.symm.trans hx

/-- A step that adds nothing to the store keeps the invariant. -/
theorem Inv.shrink (h : Inv pkce s) (hs : Shrinks s t) (hi : s.calls[i]? = some ph) (hgo : GoesOn ph ph')
    (htokens : ∀ (k : ℕ) (a : AccessToken), k ≠ i → s.tokens k = some a →
      ∃ a', t.tokens k = some a' ∧ ∀ x, Bears a x → Bears a' x)
    (hown : ∀ x, ph'.created = true → ph'.issue? = some x → ∃ a, t.tokens i = some a ∧ Bears a x)
    (hgranted : ∀ x, ph'.granted = true → ph'.issue? = some x → x.source.isCode = true → ∃ g, s.grants i = some g)
    (hloc : Local (t.put i ph') i ph') : Inv pkce (t.put i ph') := by
  -- What a call issues after the step, it did before.
  have hissue : ∀ {k : ℕ} {q : Phase} {x : Issue}, (t.put i ph').calls[k]? = some q → q.issue? = some x →
      ∃ q', s.calls[k]? = some q' ∧ q'.issue? = some x := by
    intro k q x hk hx
    obtain ⟨rfl, rfl⟩ | ⟨-, hk⟩ := put_cases hk
    · exact ⟨ph, hi, hgo.issue_of hx⟩
    · rw [hs.calls] at hk
      exact ⟨q, hk, hx⟩
  have hmint : ∀ {k : ℕ} {q : Phase} {x : Issue} {g : Grant}, (t.put i ph').calls[k]? = some q →
      q.minting? = some (x, g) → ∃ q', s.calls[k]? = some q' ∧ q'.minting? = some (x, g) := by
    intro k q x g hk hx
    obtain ⟨rfl, rfl⟩ | ⟨-, hk⟩ := put_cases hk
    · exact ⟨ph, hi, hgo.minting x g hx⟩
    · rw [hs.calls] at hk
      exact ⟨q, hk, hx⟩
  constructor
  case code =>
    intro c record hrecord
    change t.codes c = some record at hrecord
    rw [hs.codes] at hrecord
    exact putDone hs.calls hi hgo.notDone (h.code c record hrecord)
  case sourced =>
    intro k q x hk hx
    obtain ⟨q', hk', hx'⟩ := hissue hk hx
    exact (h.sourced k q' x hk' hx').shrink hs hi hgo.notDone
  case rbac =>
    intro k q x hk hx
    obtain ⟨q', hk', hx'⟩ := hissue hk hx
    exact h.rbac k q' x hk' hx'
  case once =>
    intro k l q q' x y hk hl hx hy hkey
    obtain ⟨q₀, hk₀, hx₀⟩ := hissue hk hx
    obtain ⟨q₁, hl₁, hy₁⟩ := hissue hl hy
    exact h.once k l q₀ q₁ x y hk₀ hl₁ hx₀ hy₁ hkey
  case loc =>
    intro k q hk
    obtain ⟨rfl, rfl⟩ | ⟨-, hk⟩ := put_cases hk
    · exact hloc
    · rw [hs.calls] at hk
      exact (h.loc k q hk).shrink hs hi hgo.notDone
  case token =>
    intro k q x hk hcreated hx
    obtain ⟨rfl, rfl⟩ | ⟨hne, hk⟩ := put_cases hk
    · exact hown x hcreated hx
    · rw [hs.calls] at hk
      obtain ⟨a, ha, hbears⟩ := h.token k q x hk hcreated hx
      obtain ⟨a', ha', hkeep⟩ := htokens k a hne ha
      exact ⟨a', ha', hkeep x hbears⟩
  case refresh =>
    intro k r' hr'
    obtain ⟨r, hr, hfamily, hterms, hscopes, -⟩ := hs.refresh k r' hr'
    obtain ⟨q, y, hq, hsaved, hy, hrest⟩ := h.refresh k r hr
    rw [← hfamily, ← hterms, ← hscopes] at hrest
    by_cases hk : k = i
    · subst hk
      cases hi.symm.trans hq
      obtain ⟨hsaved', hsame⟩ := hgo.saved hsaved
      exact ⟨ph', y, put_self (by rw [hs.calls]; exact hi), hsaved', hsame.trans hy, hrest⟩
    · exact ⟨q, y, put_other hk (by rw [hs.calls]; exact hq), hsaved, hy, hrest⟩
  case unused =>
    intro k l r r' hr hr' hunused hunused' hfamily
    obtain ⟨r₀, hr₀, hf₀, -, -, hu₀⟩ := hs.refresh k r hr
    obtain ⟨r₁, hr₁, hf₁, -, -, hu₁⟩ := hs.refresh l r' hr'
    exact h.unused k l r₀ r₁ hr₀ hr₁ (hu₀ hunused) (hu₁ hunused') (by rw [← hf₀, ← hf₁]; exact hfamily)
  case minting =>
    intro k q x g hk hx l r hr hfamily hunused
    obtain ⟨q', hk', hx'⟩ := hmint hk hx
    obtain ⟨r₀, hr₀, hf₀, -, -, hu₀⟩ := hs.refresh l r hr
    exact h.minting k q' x g hk' hx' l r₀ hr₀ (hf₀.symm.trans hfamily) (hu₀ hunused)
  case alone =>
    intro k l q q' x y g g' hk hl hx hy hfamily
    obtain ⟨q₀, hk₀, hx₀⟩ := hmint hk hx
    obtain ⟨q₁, hl₁, hy₁⟩ := hmint hl hy
    exact h.alone k l q₀ q₁ x y g g' hk₀ hl₁ hx₀ hy₁ hfamily
  case grant =>
    intro f g' hg'
    obtain ⟨g, hg, hheld⟩ := hs.grant_of hg'
    obtain ⟨q, z, hq, hgr, hz, hcode, hterms⟩ := h.grant f g hg
    have hsame : g'.terms = z.terms := (congrArg Prod.fst hheld).symm.trans hterms
    by_cases hf : f = i
    · subst hf
      cases hi.symm.trans hq
      obtain ⟨hgr', hsame'⟩ := hgo.granted hgr
      exact ⟨ph', z, put_self (by rw [hs.calls]; exact hi), hgr', hsame'.trans hz, hcode, hsame⟩
    · exact ⟨q, z, put_other hf (by rw [hs.calls]; exact hq), hgr, hz, hcode, hsame⟩
  case granted =>
    intro k q x hk hgr hx hcode
    have hold : ∃ g, s.grants k = some g := by
      obtain ⟨rfl, rfl⟩ | ⟨-, hk⟩ := put_cases hk
      · exact hgranted x hgr hx hcode
      · rw [hs.calls] at hk
        exact h.granted k q x hk hgr hx hcode
    obtain ⟨g, hg⟩ := hold
    obtain ⟨g', hg', -⟩ := hs.grant hg
    exact ⟨g', hg'⟩
  case scopes =>
    intro k r' hr' hunused
    obtain ⟨r, hr, hfamily, -, hscopes, hkeep⟩ := hs.refresh k r' hr'
    obtain ⟨q, hq, hup⟩ | ⟨g, hg, hsc⟩ := h.scopes k r hr (hkeep hunused)
    · left
      have hk : k ≠ i := by
        rintro rfl
        cases hi.symm.trans hq
        rw [hgo.updating] at hup
        cases hup
      exact ⟨q, put_other hk (by rw [hs.calls]; exact hq), hup⟩
    · right
      obtain ⟨g', hg', hheld⟩ := hs.grant hg
      have hsc' : g'.scopes = g.scopes := congrArg (fun p => p.2.1) hheld
      refine ⟨g', ?_, ?_⟩
      · rw [hfamily]
        exact hg'
      · rw [hsc', hsc, hscopes]

/-! ### Steps that add something -/

/-- A call begins to issue `x`, for a code or a token that nothing was issued for. -/
theorem Inv.begin (h : Inv pkce s) (hi : s.calls[i]? = some ph) (hnone : ph.issue? = none)
    (hdone : ∀ out, ph ≠ .done out) (hx : ph'.issue? = some x) (hcreated : ph'.created = false)
    (hsaved : ph'.saved = false) (hgranted : ph'.granted = false) (hsource : Sourced pkce s i x)
    (hrbac : tokenScopesForGrant x.terms.audience x.scopes = .ok x.rbac)
    (hnew : ∀ (k : ℕ) (q : Phase) (y : Issue), s.calls[k]? = some q → q.issue? = some y →
      y.source.key ≠ x.source.key)
    (hfree : ∀ (y : Issue) (g : Grant), ph'.minting? = some (y, g) → y = x ∧
      (∀ (l : ℕ) (r : RefreshRecord), s.refreshTokens l = some r → r.family = x.family → r.used = true) ∧
      ∀ (k : ℕ) (q : Phase) (y' : Issue) (g' : Grant), s.calls[k]? = some q → q.minting? = some (y', g') →
        y'.family ≠ x.family) (hloc : Local (s.put i ph') i ph') : Inv pkce (s.put i ph') := by
  have hs : Shrinks s s := ⟨rfl, rfl, fun l r hr => ⟨r, hr, rfl, rfl, rfl, id⟩, fun _ => rfl⟩
  have hunsaved : ph.saved = false ∧ ph.granted = false := by
    cases ph <;> first | exact ⟨rfl, rfl⟩ | cases hnone | exact absurd rfl (hdone _)
  constructor
  case code => exact fun c record hrecord => putDone rfl hi hdone (h.code c record hrecord)
  case sourced =>
    intro k q y hk hy
    obtain ⟨rfl, rfl⟩ | ⟨-, hk⟩ := put_cases hk
    · cases hx.symm.trans hy
      exact hsource.shrink hs hi hdone
    · exact (h.sourced k q y hk hy).shrink hs hi hdone
  case rbac =>
    intro k q y hk hy
    obtain ⟨rfl, rfl⟩ | ⟨-, hk⟩ := put_cases hk
    · cases hx.symm.trans hy
      exact hrbac
    · exact h.rbac k q y hk hy
  case once =>
    intro k l q q' y y' hk hl hy hy' hkey
    obtain ⟨rfl, rfl⟩ | ⟨-, hk'⟩ := put_cases hk
    · cases hx.symm.trans hy
      obtain ⟨rfl, -⟩ | ⟨-, hl'⟩ := put_cases hl
      · rfl
      · exact absurd hkey.symm (hnew l q' y' hl' hy')
    · obtain ⟨rfl, rfl⟩ | ⟨-, hl'⟩ := put_cases hl
      · cases hx.symm.trans hy'
        exact absurd hkey (hnew k q y hk' hy)
      · exact h.once k l q q' y y' hk' hl' hy hy' hkey
  case loc =>
    intro k q hk
    obtain ⟨rfl, rfl⟩ | ⟨-, hk⟩ := put_cases hk
    · exact hloc
    · exact (h.loc k q hk).shrink hs hi hdone
  case token =>
    intro k q y hk hcr hy
    obtain ⟨rfl, rfl⟩ | ⟨-, hk⟩ := put_cases hk
    · rw [hcreated] at hcr
      cases hcr
    · exact h.token k q y hk hcr hy
  case refresh =>
    intro k r hr
    obtain ⟨q, y, hq, hsv, hrest⟩ := h.refresh k r hr
    have hk : k ≠ i := by
      rintro rfl
      cases hi.symm.trans hq
      rw [hunsaved.1] at hsv
      cases hsv
    exact ⟨q, y, put_other hk hq, hsv, hrest⟩
  case unused => exact h.unused
  case minting =>
    intro k q y g hk hy l r hr hfamily hunused
    obtain ⟨rfl, rfl⟩ | ⟨-, hk⟩ := put_cases hk
    · obtain ⟨rfl, hused, -⟩ := hfree y g hy
      rw [hused l r hr hfamily] at hunused
      cases hunused
    · exact h.minting k q y g hk hy l r hr hfamily hunused
  case alone =>
    intro k l q q' y y' g g' hk hl hy hy' hfamily
    obtain ⟨rfl, rfl⟩ | ⟨-, hk'⟩ := put_cases hk
    · obtain ⟨rfl, -, halone⟩ := hfree y g hy
      obtain ⟨rfl, -⟩ | ⟨-, hl'⟩ := put_cases hl
      · rfl
      · exact absurd hfamily.symm (halone l q' y' g' hl' hy')
    · obtain ⟨rfl, rfl⟩ | ⟨-, hl'⟩ := put_cases hl
      · obtain ⟨rfl, -, halone⟩ := hfree y' g' hy'
        exact absurd hfamily (halone k q y g hk' hy)
      · exact h.alone k l q q' y y' g g' hk' hl' hy hy' hfamily
  case grant =>
    intro f g hg
    obtain ⟨q, z, hq, hgr, hrest⟩ := h.grant f g hg
    have hf : f ≠ i := by
      rintro rfl
      cases hi.symm.trans hq
      rw [hunsaved.2] at hgr
      cases hgr
    exact ⟨q, z, put_other hf hq, hgr, hrest⟩
  case granted =>
    intro k q y hk hgr hy hcode
    obtain ⟨rfl, rfl⟩ | ⟨-, hk⟩ := put_cases hk
    · rw [hgranted] at hgr
      cases hgr
    · exact h.granted k q y hk hgr hy hcode
  case scopes =>
    intro k r hr hunused
    obtain ⟨q, hq, hup⟩ | hg := h.scopes k r hr hunused
    · have hk : k ≠ i := by
        rintro rfl
        cases hi.symm.trans hq
        cases ph with
        | update x g now => cases hnone
        | _ => cases hup
      exact .inl ⟨q, put_other hk hq, hup⟩
    · exact .inr hg

end Plur1bus.OAuth
