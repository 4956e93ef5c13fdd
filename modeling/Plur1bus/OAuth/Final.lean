import Plur1bus.OAuth.Revocation

/-!
Revocation is final in every run in which no family is revoked while one of its refreshes is
minting, and no code is presented again when a later access token of its family is live: whatever
the calls do then, every access token of a family that was revoked is revoked, and none is issued
for it any more.
-/

namespace Plur1bus.OAuth

open List Option Function

variable {pkce : String → String → Bool} {s t : State} {i f : ℕ} {ph ph' : Phase}

/-! ### Grants and their tokens -/

variable {l : ℕ}

theorem Inv.grant_of_issued (h : Inv pkce s) {y : Issue} (hy : Issued s l y) :
    ∃ g, s.grants y.family = some g ∧ g.terms = y.terms := by
  obtain ⟨z, hz, -, -, hcode⟩ := h.root_of_issued hy
  obtain ⟨g, hg⟩ := h.granted _ _ z hz rfl rfl hcode
  exact ⟨g, hg, h.terms_of_issued hy hg⟩

variable {r : RefreshRecord}

/-- A refresh token that is in the store has a grant. -/
theorem Inv.grant_of_refresh (h : Inv pkce s) (hr : s.refreshTokens l = some r) :
    ∃ g, s.grants r.family = some g := by
  obtain ⟨q, y, hq, hsaved, hy, hf, -⟩ := h.refresh l r hr
  rw [hf]
  cases hcode : y.source.isCode with
  | false =>
    obtain ⟨z, hz, -, -, hzc⟩ := h.root hq hy hcode
    exact h.granted _ _ z hz rfl rfl hzc
  | true =>
    have hgranted : q.granted = true := by
      have hl := h.loc l q hq
      cases q with
      | finishExchange x e => rfl
      | update x gr now =>
        cases hy
        exact absurd (hcode.symm.trans hl.1) (by decide)
      | finishRefresh x gr =>
        cases hy
        exact absurd (hcode.symm.trans hl) (by decide)
      | done out =>
        cases out with
        | issued x => rfl
        | _ => cases hsaved
      | _ => cases hsaved
    rw [h.own hq hy hcode]
    exact h.granted l q y hq hgranted hy hcode

variable {g : Grant} {a : ℕ}

/-- The active token of a grant belongs to its user. -/
theorem Rev.user (hrev : Rev s) (h : Inv pkce s) (hg : s.grants f = some g)
    (ha : g.activeTokenId = some a) :
    ∃ token, s.tokens a = some token ∧ token.userId = g.terms.userId := by
  obtain ⟨q, y, hq, hcreated, hy, hyf⟩ := hrev.owner f g a hg ha
  obtain ⟨token, htoken, hbears⟩ := h.token a q y hq hcreated hy
  obtain ⟨q', z, hq', -, hz, -, hterms⟩ := h.grant f g hg
  refine ⟨token, htoken, hbears.1.trans ?_⟩
  suffices hsame : z.terms = y.terms by rw [hterms, hsame]
  cases hcode : y.source.isCode with
  | false =>
    obtain ⟨z', hz', hterms', -⟩ := h.root hq hy hcode
    rw [hyf] at hz'
    cases hz'.symm.trans hq'
    obtain rfl : z' = z := Option.some.inj hz
    exact hterms'
  | true =>
    have hown := h.own hq hy hcode
    rw [hyf] at hown
    subst hown
    cases hq.symm.trans hq'
    cases hy.symm.trans hz
    rfl

theorem Revoked.revokeToken (hra : Revoked s a) (userId : String) (b : ℕ) (now : ℤ) :
    Revoked (s.revokeToken userId b now) a := by
  obtain ⟨token, htoken, hno⟩ := hra
  by_cases hab : a = b
  · subst hab
    refine ⟨token, ?_, hno⟩
    show Function.update s.tokens a _ a = some token
    rw [update_self, htoken, map_some, if_neg (fun hboth => hno hboth.2)]
  · refine ⟨token, ?_, hno⟩
    show Function.update s.tokens b _ a = some token
    rw [update_of_ne hab]
    exact htoken

/-- `tokens.revoke` revokes a token of the user. -/
theorem revoked_revokeToken {token : AccessToken} (htoken : s.tokens a = some token) (now : ℤ) :
    Revoked (s.revokeToken token.userId a now) a := by
  refine ⟨if token.userId = token.userId ∧ token.revokedAt = none then { token with revokedAt := some now } else token,
    ?_, ?_⟩
  · show Function.update s.tokens a _ a = _
    rw [update_self, htoken, map_some]
  · split
    · exact some_ne_none now
    next hno => exact fun hnone => hno ⟨rfl, hnone⟩

/-! ### Steps that leave the grants and the refresh tokens alone -/

/-- The store is the same but for the access tokens, where those that are revoked stay so. -/
structure Calm (s t : State) : Prop where
  calls : t.calls = s.calls
  grants : t.grants = s.grants
  refresh : t.refreshTokens = s.refreshTokens
  revoked : ∀ (a : ℕ) (q : Phase), s.calls[a]? = some q → q.created = true → Revoked s a → Revoked t a

theorem Calm.of_tokens (hcalls : t.calls = s.calls) (hgrants : t.grants = s.grants)
    (hrefresh : t.refreshTokens = s.refreshTokens) (htokens : t.tokens = s.tokens) : Calm s t where
  calls := hcalls
  grants := hgrants
  refresh := hrefresh
  revoked := by
    rintro a - - - ⟨token, htoken, hno⟩
    exact ⟨token, by rw [htokens]; exact htoken, hno⟩

theorem Calm.moves (hc : Calm s t) (hi : s.calls[i]? = some ph) (hdone : ∀ out, ph ≠ .done out)
    (hminting : ∀ x g, ph'.minting? = some (x, g) → ph.minting? = some (x, g))
    (hmarking : ∀ p l rt gr, ph' = .mark p l rt gr → ∃ g, s.grants rt.family = some g ∧ g.revokedAt = none) :
    Moves s t i ph ph' where
  here := hi
  calls := hc.calls
  notDone := hdone
  revoked := hc.revoked
  grants := fun f g hg => ⟨g, by rw [hc.grants]; exact hg, rfl, id, .inl rfl⟩
  unused := fun l r hr hunused => .inl ⟨r, by rw [← hc.refresh]; exact hr, hunused, rfl⟩
  kept := fun l r hr hunused => .inl ⟨r, by rw [hc.refresh]; exact hr, hunused⟩
  minting := fun x gr hx => .inl (hminting x gr hx)
  marking := hmarking

/-- A call that has created nothing goes on without a token of its own. -/
theorem Rev.quiet (hrev : Rev s) (h : Inv pkce s) (hord : Orderly s) (hc : Calm s t) (hconsumed : t.consumed = s.consumed)
    (hi : s.calls[i]? = some ph) (hdone : ∀ out, ph ≠ .done out) (hcreated : ph.created = false)
    (hnone : ph'.issue? = none)
    (hmarking : ∀ p l rt gr, ph' = .mark p l rt gr → ∃ g, s.grants rt.family = some g ∧ g.revokedAt = none)
    (hholds : ph'.holds? = none ∨ ph'.holds? = ph.holds?)
    (hactive : ∀ token ∈ s.activeRefreshes, token ∈ t.activeRefreshes ∨ (ph.holds? = some token ∧ ph'.holds? = none))
    (hloc : RLocal (t.put i ph') ph') : Rev (t.put i ph') := by
  obtain ⟨-, -, hcreated', -, hmint'⟩ := Phase.of_issue?_none hnone
  have hm : Moves s t i ph ph' := by
    refine hc.moves hi hdone ?_ hmarking
    intro x g hx
    rw [hmint'] at hx
    cases hx
  refine hrev.step h hord hm ⟨hloc, ?_, ?_, ?_, ?_, hholds, hactive, ?_⟩
  · intro f g a hg ha
    rw [hc.grants] at hg
    exact .inl ⟨g, hg, ha⟩
  · intro f g a hg ha
    exact .inl ⟨g, by rw [hc.grants]; exact hg, ha⟩
  · intro x hno
    rw [hcreated'] at hno
    cases hno
  · intro hno
    rw [hcreated] at hno
    cases hno
  · intro c e he
    rw [hconsumed] at he
    exact .inl he

/-- As `quiet`, when nothing in the store changes. -/
theorem Rev.idle (hrev : Rev s) (h : Inv pkce s) (hord : Orderly s) (hi : s.calls[i]? = some ph)
    (hdone : ∀ out, ph ≠ .done out) (hcreated : ph.created = false) (hnone : ph'.issue? = none)
    (hmarking : ∀ p l rt gr, ph' = .mark p l rt gr → ∃ g, s.grants rt.family = some g ∧ g.revokedAt = none)
    (hholds : ph'.holds? = none ∨ ph'.holds? = ph.holds?) (hloc : RLocal (s.put i ph') ph') : Rev (s.put i ph') :=
  hrev.quiet h hord (Calm.of_tokens rfl rfl rfl rfl) rfl hi hdone hcreated hnone hmarking hholds
    (fun _ hin => .inl hin) hloc

/-- A call goes on to issue what it is issuing. -/
theorem Rev.goOn (hrev : Rev s) (h : Inv pkce s) (hord : Orderly s) (hc : Calm s t)
    (hi : s.calls[i]? = some ph) (hdone : ∀ out, ph ≠ .done out)
    (hminting : ∀ y g, ph'.minting? = some (y, g) → ph.minting? = some (y, g))
    (hcreated : ph.created = true → ph'.created = true ∧ ph'.issue? = ph.issue?)
    (hmarking : ∀ p l rt gr, ph' ≠ .mark p l rt gr)
    (hholds : ph'.holds? = none ∨ ph'.holds? = ph.holds?)
    (hactive : ∀ token ∈ s.activeRefreshes, token ∈ t.activeRefreshes ∨ (ph.holds? = some token ∧ ph'.holds? = none))
    (hconsumed : ∀ (c : ℕ) (e : Consumed), (c, e) ∈ t.consumed → (c, e) ∈ s.consumed ∨
      ∃ z, Issued (t.put i ph') e.family z ∧ z.family = e.family ∧ e.userId = z.terms.userId)
    (hlive : ∀ x, ph'.created = true → ph'.issue? = some x →
      Revoked t i ∨ (∃ g, s.grants x.family = some g ∧ g.activeTokenId = some i) ∨ ph'.minting?.isSome = true ∨
        ∃ e n, ph' = .saveGrant x e n)
    (hloc : RLocal (t.put i ph') ph') : Rev (t.put i ph') := by
  have hm : Moves s t i ph ph' :=
    hc.moves hi hdone hminting (fun p l rt gr hph => absurd hph (hmarking p l rt gr))
  refine hrev.step h hord hm ⟨hloc, ?_, ?_, ?_, hcreated, hholds, hactive, hconsumed⟩
  · intro f g a hg ha
    rw [hc.grants] at hg
    exact .inl ⟨g, hg, ha⟩
  · intro f g a hg ha
    exact .inl ⟨g, by rw [hc.grants]; exact hg, ha⟩
  · intro x hcr hx
    rw [hc.grants]
    exact hlive x hcr hx

/-! ### Steps of an exchange -/

variable {x : Issue}

/-- The access token of a call is created. -/
theorem calm_createToken (now : ℤ) (hi : s.calls[i]? = some ph) (hcreated : ph.created = false) :
    Calm s { s with tokens := Function.update s.tokens i (some (State.accessToken x now)) } where
  calls := rfl
  grants := rfl
  refresh := rfl
  revoked := by
    rintro a q hq hcr ⟨token, htoken, hno⟩
    have hne : a ≠ i := by
      rintro rfl
      cases hi.symm.trans hq
      rw [hcreated] at hcr
      cases hcr
    refine ⟨token, ?_, hno⟩
    show Function.update s.tokens i _ a = some token
    rw [update_of_ne hne]
    exact htoken

variable {codeExpires now : ℤ}

theorem Rev.saveGrant (hrev : Rev s) (h : Inv pkce s) (hord : Orderly s)
    (hi : s.calls[i]? = some (.saveGrant x codeExpires now)) :
    Rev (({ s with grants := Function.update s.grants i (some ⟨x.terms, x.scopes, some i, now, now, none⟩) } :
      State).put i (.saveFirst x codeExpires now)) := by
  have hcode : x.source.isCode = true := h.loc i _ hi
  have hfamily : x.family = i := h.own hi rfl hcode
  set t : State := { s with grants := Function.update s.grants i (some ⟨x.terms, x.scopes, some i, now, now, none⟩) }
  have hself : t.grants i = some ⟨x.terms, x.scopes, some i, now, now, none⟩ := update_self ..
  have hold : ∀ {f : ℕ} {g : Grant}, s.grants f = some g → t.grants f = some g := by
    intro f g hg
    have hne : f ≠ i := by
      rintro rfl
      obtain ⟨q, z, hq, hgr, -⟩ := h.grant f g hg
      cases hi.symm.trans hq
      cases hgr
    show Function.update s.grants i _ f = some g
    rw [update_of_ne hne]
    exact hg
  have hm : Moves s t i (.saveGrant x codeExpires now) (.saveFirst x codeExpires now) := by
    refine ⟨hi, rfl, fun _ hno => (by cases hno), fun _ _ _ _ hra => hra, ?_, ?_, ?_, fun _ _ hno => (by cases hno),
      fun _ _ _ _ hno => (by cases hno)⟩
    · exact fun f g hg => ⟨g, hold hg, rfl, id, .inl rfl⟩
    · exact fun l r hr hunused => .inl ⟨r, hr, hunused, rfl⟩
    · exact fun l r hr hunused => .inl ⟨r, hr, hunused⟩
  refine hrev.step h hord hm ⟨trivial, ?_, ?_, ?_, fun _ => ⟨rfl, rfl⟩, .inl rfl, fun _ hin => .inl hin,
    fun _ _ he => .inl he⟩
  · intro f g a hg ha
    by_cases hf : f = i
    · subst hf
      rw [hself] at hg
      cases hg
      cases ha
      exact .inr ⟨rfl, rfl, x, rfl, hfamily⟩
    · change Function.update s.grants i _ f = some g at hg
      rw [update_of_ne hf] at hg
      exact .inl ⟨g, hg, ha⟩
  · exact fun f g a hg ha => .inl ⟨g, hold hg, ha⟩
  · intro y _ hy
    cases hy
    refine .inr (.inl ⟨⟨x.terms, x.scopes, some i, now, now, none⟩, ?_, rfl⟩)
    rw [hfamily]
    exact hself

/-- A call saves its refresh token. -/
theorem moves_saveToken {record : RefreshRecord} (hi : s.calls[i]? = some ph)
    (hdone : ∀ out, ph ≠ .done out) (hx : ph.issue? = some x) (hrecord : record.family = x.family)
    (hmint : ph.minting?.isSome = true ∨ x.family = i) (hunsaved : s.refreshTokens i = none)
    (hminting : ∀ y g, ph'.minting? = some (y, g) → ph.minting? = some (y, g))
    (hmarking : ∀ p l rt gr, ph' ≠ .mark p l rt gr) :
    Moves s { s with refreshTokens := Function.update s.refreshTokens i (some record) } i ph ph' where
  here := hi
  calls := rfl
  notDone := hdone
  revoked := fun _ _ _ _ hra => hra
  grants := fun f g hg => ⟨g, hg, rfl, id, .inl rfl⟩
  unused := by
    intro l r hr hunused
    by_cases hl : l = i
    · subst hl
      change Function.update s.refreshTokens l _ l = some r at hr
      rw [update_self] at hr
      cases hr
      exact .inr ⟨rfl, x, hx, hrecord.symm, hmint⟩
    · change Function.update s.refreshTokens i _ l = some r at hr
      rw [update_of_ne hl] at hr
      exact .inl ⟨r, hr, hunused, rfl⟩
  kept := by
    intro l r hr hunused
    have hne : l ≠ i := by
      rintro rfl
      rw [hunsaved] at hr
      cases hr
    refine .inl ⟨r, ?_, hunused⟩
    show Function.update s.refreshTokens i _ l = some r
    rw [update_of_ne hne]
    exact hr
  minting := fun y gr hy => .inl (hminting y gr hy)
  marking := fun p l rt gr hph => absurd hph (hmarking p l rt gr)

theorem Inv.unsaved (h : Inv pkce s) (hi : s.calls[i]? = some ph) (hsaved : ph.saved = false) :
    s.refreshTokens i = none := by
  cases hr : s.refreshTokens i with
  | none => rfl
  | some r =>
    obtain ⟨q, y, hq, hsv, -⟩ := h.refresh i r hr
    cases hi.symm.trans hq
    rw [hsaved] at hsv
    cases hsv

/-- The access token of a call stays what it was: revoked, or active. -/
theorem Rev.same_live (hrev : Rev s) (hi : s.calls[i]? = some ph) (hcreated : ph.created = true)
    (hx : ph.issue? = some x) (hmint : ph.minting? = none) (hgrant : ∀ e n, ph ≠ .saveGrant x e n) :
    Revoked s i ∨ ∃ g, s.grants x.family = some g ∧ g.activeTokenId = some i := by
  obtain hdead | hact | hno | ⟨e, n, hph⟩ := hrev.live i ph x hi hcreated hx
  · exact .inl hdead
  · exact .inr hact
  · rw [hmint] at hno
    cases hno
  · exact absurd hph (hgrant e n)

theorem Rev.saveFirst (hrev : Rev s) (h : Inv pkce s) (hord : Orderly s)
    (hi : s.calls[i]? = some (.saveFirst x codeExpires now)) :
    Rev (({ s with refreshTokens := Function.update s.refreshTokens i (some (State.refreshRecord x now)) } :
      State).put i (.finishExchange x codeExpires)) := by
  obtain ⟨hcode, -⟩ := h.loc i _ hi
  have hm : Moves s { s with refreshTokens := Function.update s.refreshTokens i (some (State.refreshRecord x now)) } i
      _ (.finishExchange x codeExpires) := moves_saveToken hi
    (fun _ hno => (by cases hno)) rfl rfl (.inr (h.own hi rfl hcode)) (h.unsaved hi rfl)
    (fun _ _ hno => (by cases hno)) (fun _ _ _ _ hno => (by cases hno))
  refine hrev.step h hord hm ⟨trivial, fun f g a hg ha => .inl ⟨g, hg, ha⟩, fun f g a hg ha => .inl ⟨g, hg, ha⟩, ?_,
    fun _ => ⟨rfl, rfl⟩, .inl rfl, fun _ hin => .inl hin, fun _ _ he => .inl he⟩
  intro y _ hy
  cases hy
  obtain hdead | hact := hrev.same_live hi rfl rfl rfl (fun _ _ hno => (by cases hno))
  · exact .inl hdead
  · exact .inr (.inl hact)

/-! ### Steps of a refresh -/

theorem Rev.refuse (hrev : Rev s) (h : Inv pkce s) (hord : Orderly s) {token : Secret} {error description : String}
    (hi : s.calls[i]? = some ph) (hdone : ∀ out, ph ≠ .done out) (hcreated : ph.created = false)
    (hholds : ph.holds? = some token) : Rev (s.refuse i token error description) :=
  hrev.idle h hord hi hdone hcreated rfl (fun _ _ _ _ hno => (by cases hno)) (.inr hholds.symm)
    (fun _ hno => (by cases hno))

variable {p : RefreshParams}

theorem Rev.stepGetRefresh (hrev : Rev s) (h : Inv pkce s) (hord : Orderly s) (env : Env)
    (hi : s.calls[i]? = some (.getRefresh p)) : Rev (s.stepGetRefresh i env p) := by
  have hrefuse : ∀ {error description : String}, Rev (s.refuse i p.token error description) :=
    hrev.refuse h hord hi (fun _ hno => (by cases hno)) rfl rfl
  unfold State.stepGetRefresh
  split
  · exact hrefuse
  next l rt hfound =>
    split
    · exact hrefuse
    · split
      · exact hrefuse
      · refine hrev.idle h hord hi (fun _ hno => (by cases hno)) rfl rfl (fun _ _ _ _ hno => (by cases hno)) (.inr rfl) ?_
        intro hunused
        cases htoken : p.token with
        | other text =>
          rw [htoken] at hfound
          cases hfound
        | drawn l' =>
          rw [htoken] at hfound
          obtain ⟨r, hr, heq⟩ := map_eq_some_iff.mp hfound
          cases heq
          exact .inl ⟨_, hr, hunused⟩

variable {rel : Option Secret} {ops : List RevokeOp}

/-- A revocation that has read the grant begins with the family. -/
theorem rlocal_reuse (hg : s.grants f = some g) (hops : .family f ∈ ops) :
    RLocal s (.revoking (State.reuse ops g) rel (.revoked f)) := by
  refine ⟨g, hg, .inl (mem_append_left _ hops), .inr fun a ha => .inr ?_⟩
  dsimp only [State.reuse]
  rw [ha]
  exact mem_append_right _ (mem_singleton_self _)

variable {rt : RefreshRecord}

theorem Rev.stepGetGrant (hrev : Rev s) (h : Inv pkce s) (hord : Orderly s)
    (hi : s.calls[i]? = some (.getGrant p l rt)) : Rev (s.stepGetGrant i p l rt) := by
  have hrefuse : ∀ {error description : String}, Rev (s.refuse i p.token error description) :=
    hrev.refuse h hord hi (fun _ hno => (by cases hno)) rfl rfl
  obtain ⟨-, -, y, hy, hf, -⟩ := h.loc i _ hi
  have hl := hrev.rloc i _ hi
  unfold State.stepGetGrant
  split
  next hnone =>
    obtain ⟨g, hg, -⟩ := h.grant_of_issued hy
    rw [hf, hnone] at hg
    cases hg
  next grant _ hg =>
    refine hrev.idle h hord hi (fun _ hno => (by cases hno)) rfl rfl (fun _ _ _ _ hno => (by cases hno)) (.inr rfl) ?_
    exact rlocal_reuse hg (mem_singleton_self _)
  · exact hrefuse
  next grant hunused hg =>
    split
    · exact hrefuse
    next hopen =>
      have hopen' : grant.revokedAt = none := by
        cases hr : grant.revokedAt with
        | none => rfl
        | some n =>
          rw [hr] at hopen
          exact absurd rfl hopen
      refine hrev.idle h hord hi (fun _ hno => (by cases hno)) rfl rfl ?_ (.inr rfl) ?_
      · rintro p' l' rt' gr' hph
        cases hph
        exact ⟨grant, hg, hopen'⟩
      · refine ⟨⟨grant, hg, rfl⟩, .inl ?_⟩
        obtain hfree | ⟨g, hg', hstamp⟩ := hl hunused
        · exact hfree
        · rw [hg] at hg'
          cases hg'
          exact absurd hopen' hstamp

theorem markUsed_false (h : s.markUsed l = (t, false)) :
    t = s ∧ ∀ r, s.refreshTokens l = some r → r.used = true := by
  grind [State.markUsed]

variable {grant : Grant}

/-- The marking of a token that was not used. -/
theorem moves_mark (hi : s.calls[i]? = some (.mark p l rt grant)) (htoken : p.token = .drawn l)
    (hr : s.refreshTokens l = some r) (hunused : r.used = false)
    (hminting : ∀ x gr, ph'.minting? = some (x, gr) → gr = grant ∧ x.family = rt.family)
    (hmarking : ∀ p l rt gr, ph' ≠ .mark p l rt gr) :
    Moves s { s with refreshTokens := Function.update s.refreshTokens l (some { r with used := true }) } i
      (.mark p l rt grant) ph' where
  here := hi
  calls := rfl
  notDone := fun _ hno => (by cases hno)
  revoked := fun _ _ _ _ hra => hra
  grants := fun f g hg => ⟨g, hg, rfl, id, .inl rfl⟩
  unused := by
    intro k r' hr' hunused'
    by_cases hk : k = l
    · subst hk
      change Function.update s.refreshTokens k _ k = some r' at hr'
      rw [update_self] at hr'
      cases hr'
      cases hunused'
    · change Function.update s.refreshTokens l _ k = some r' at hr'
      rw [update_of_ne hk] at hr'
      exact .inl ⟨r', hr', hunused', rfl⟩
  kept := by
    intro k r' hr' hunused'
    by_cases hk : k = l
    · subst hk
      exact .inr (.inl (congrArg some htoken))
    · simp_all
  minting := by
    intro x gr hx
    obtain ⟨rfl, hf⟩ := hminting x gr hx
    exact .inr ⟨p, l, rt, rfl, hf, r, hr, hunused⟩
  marking := fun p l rt gr hph => absurd hph (hmarking p l rt gr)

theorem Rev.stepMark (hrev : Rev s) (h : Inv pkce s) (hord : Orderly s)
    (hi : s.calls[i]? = some (.mark p l rt grant)) : Rev (s.stepMark i p l rt grant) := by
  obtain ⟨htoken, -, hterms, ⟨y, hy, hf, ht, -⟩, -⟩ := h.loc i _ hi
  obtain ⟨⟨g, hg, hact⟩, -⟩ := hrev.rloc i _ hi
  unfold State.stepMark
  split
  next t hmark =>
    obtain ⟨rfl, -⟩ := markUsed_false hmark
    refine hrev.idle h hord hi (fun _ hno => (by cases hno)) rfl rfl (fun _ _ _ _ hno => (by cases hno)) (.inr rfl) ?_
    -- What the call has read of the grant is still so.
    have hgterms : g.terms = grant.terms := by
      rw [hterms, ← ht]
      rw [← hf] at hg
      exact h.terms_of_issued hy hg
    refine ⟨g, hg, .inl (mem_append_left _ (mem_singleton_self _)), .inr fun a ha => .inr ?_⟩
    dsimp only [State.reuse]
    rw [← hact, ha, hgterms]
    exact mem_append_right _ (mem_singleton_self _)
  next t hmark =>
    obtain ⟨r, hr, hunused, rfl⟩ := markUsed_true hmark
    -- Whatever comes next, the call has created nothing yet.
    have hnext : ∀ {ph' : Phase}, (∀ x gr, ph'.minting? = some (x, gr) → gr = grant ∧ x.family = rt.family) →
        (∀ p l rt gr, ph' ≠ .mark p l rt gr) → ph'.created = false → ph'.holds? = some p.token →
        (∀ u : State, RLocal u ph') →
        Rev (({ s with refreshTokens := Function.update s.refreshTokens l (some { r with used := true }) } :
          State).put i ph') := by
      intro ph' hminting hmarking hcreated hholds hloc
      refine hrev.step h hord (moves_mark hi htoken hr hunused hminting hmarking) ⟨hloc _,
        fun f g a hg ha => .inl ⟨g, hg, ha⟩, fun f g a hg ha => .inl ⟨g, hg, ha⟩, ?_, fun hno => (by cases hno),
        .inr hholds, fun _ hin => .inl hin, fun _ _ he => .inl he⟩
      intro x hno
      rw [hcreated] at hno
      cases hno
    have hrefuse : ∀ {error description : String},
        Rev (({ s with refreshTokens := Function.update s.refreshTokens l (some { r with used := true }) } :
          State).refuse i p.token error description) :=
      hnext (fun _ _ hno => (by cases hno)) (fun _ _ _ _ hno => (by cases hno)) rfl rfl
        (fun _ _ hno => (by cases hno))
    split
    · exact hrefuse
    · split
      · exact hrefuse
      · refine hnext ?_ (fun _ _ _ _ hno => (by cases hno)) rfl (congrArg some htoken.symm) (fun _ => trivial)
        intro x gr hx
        cases hx
        exact ⟨rfl, rfl⟩

theorem Rev.revokeOld (hrev : Rev s) (h : Inv pkce s) (hord : Orderly s) (env : Env)
    (hi : s.calls[i]? = some (.revokeOld x grant)) : Rev (s.stepPhase i env (.revokeOld x grant)) := by
  obtain ⟨-, hterms, g, hg, hact⟩ := h.loc i _ hi
  simp only [State.stepPhase]
  split
  next hnone =>
    refine hrev.goOn h hord (Calm.of_tokens rfl rfl rfl rfl) hi (fun _ hno => (by cases hno)) (fun _ _ hy => hy)
      (fun _ => ⟨rfl, rfl⟩) (fun _ _ _ _ hno => (by cases hno)) (.inr rfl) (fun _ hin => .inl hin)
      (fun _ _ he => .inl he) (fun _ _ _ => .inr (.inr (.inl rfl))) ?_
    intro a ha
    rw [hnone] at ha
    cases ha
  next a ha =>
    refine hrev.goOn h hord ⟨rfl, rfl, rfl, fun _ _ _ _ hra => hra.revokeToken _ a env.now⟩ hi
      (fun _ hno => (by cases hno)) (fun _ _ hy => hy) (fun _ => ⟨rfl, rfl⟩) (fun _ _ _ _ hno => (by cases hno))
      (.inr rfl) (fun _ hin => .inl hin) (fun _ _ he => .inl he) (fun _ _ _ => .inr (.inr (.inl rfl))) ?_
    intro b hb
    cases ha.symm.trans hb
    obtain ⟨token, htoken, huser⟩ := hrev.user h hg (hact.trans ha)
    -- The grant that the call has read has the terms of the grant.
    have hsame : g.terms = grant.terms := by
      obtain ⟨q, z, hq, -, hz, -, hgterms⟩ := h.grant _ g hg
      obtain ⟨z', hz', hterms', -⟩ := h.root hi rfl (h.loc i _ hi).1
      cases hz'.symm.trans hq
      obtain rfl : z' = z := Option.some.inj hz
      rw [hgterms, hterms', hterms]
    rw [← hsame, ← huser]
    exact revoked_revokeToken htoken env.now

theorem Rev.saveNext (hrev : Rev s) (h : Inv pkce s) (hord : Orderly s)
    (hi : s.calls[i]? = some (.saveNext x grant)) :
    Rev (({ s with refreshTokens := Function.update s.refreshTokens i (some (State.refreshRecord x now)) } :
      State).put i (.update x grant now)) := by
  have hm : Moves s { s with refreshTokens := Function.update s.refreshTokens i (some (State.refreshRecord x now)) } i
      _ (.update x grant now) := moves_saveToken hi
    (fun _ hno => (by cases hno)) rfl rfl (.inl rfl) (h.unsaved hi rfl) (fun _ _ hy => hy)
    (fun _ _ _ _ hno => (by cases hno))
  exact hrev.step h hord hm ⟨hrev.rloc i _ hi, fun f g a hg ha => .inl ⟨g, hg, ha⟩, fun f g a hg ha => .inl ⟨g, hg, ha⟩,
    fun _ _ _ => .inr (.inr (.inl rfl)), fun _ => ⟨rfl, rfl⟩, .inr rfl, fun _ hin => .inl hin, fun _ _ he => .inl he⟩

theorem Rev.update (hrev : Rev s) (h : Inv pkce s) (hord : Orderly s)
    (hi : s.calls[i]? = some (.update x grant now)) :
    Rev (({ s with grants := Function.update s.grants x.family ((s.grants x.family).map fun g =>
      ({ g with activeTokenId := some i, lastUsedAt := now, scopes := x.scopes } : Grant)) } : State).put i
        (.finishRefresh x grant)) := by
  obtain ⟨-, -, g₀, hg₀, hact⟩ := h.loc i _ hi
  have hdead := hrev.rloc i _ hi
  set t : State := { s with grants := Function.update s.grants x.family ((s.grants x.family).map fun g =>
    ({ g with activeTokenId := some i, lastUsedAt := now, scopes := x.scopes } : Grant)) }
  have hself : t.grants x.family = some { g₀ with activeTokenId := some i, lastUsedAt := now, scopes := x.scopes } := by
    grind
  have hold : ∀ {f : ℕ}, f ≠ x.family → t.grants f = s.grants f := fun hf => update_of_ne hf _ _
  have hm : Moves s t i (.update x grant now) (.finishRefresh x grant) := by
    refine ⟨hi, rfl, fun _ hno => (by cases hno), fun _ _ _ _ hra => hra, ?_, ?_, ?_, fun _ _ hno => (by cases hno),
      fun _ _ _ _ hno => (by cases hno)⟩
    · intro f g hg
      by_cases hf : f = x.family
      · subst hf
        rw [hg₀] at hg
        cases hg
        exact ⟨_, hself, rfl, id, .inr ⟨x, grant, rfl, rfl⟩⟩
      · exact ⟨g, (hold hf).trans hg, rfl, id, .inl rfl⟩
    · exact fun l r hr hunused => .inl ⟨r, hr, hunused, rfl⟩
    · exact fun l r hr hunused => .inl ⟨r, hr, hunused⟩
  refine hrev.step h hord hm ⟨trivial, ?_, ?_, ?_, fun _ => ⟨rfl, rfl⟩, .inr rfl, fun _ hin => .inl hin,
    fun _ _ he => .inl he⟩
  · intro f g a hg ha
    by_cases hf : f = x.family
    · subst hf
      rw [hself] at hg
      cases hg
      cases ha
      exact .inr ⟨rfl, rfl, x, rfl, rfl⟩
    · exact .inl ⟨g, (hold hf).symm.trans hg, ha⟩
  · intro f g a hg ha
    by_cases hf : f = x.family
    · -- The token that is replaced was revoked before.
      subst hf
      rw [hg₀] at hg
      cases hg
      exact .inr (hdead a (hact.symm.trans ha))
    · exact .inl ⟨g, (hold hf).trans hg, ha⟩
  · intro y _ hy
    cases hy
    exact .inr (.inl ⟨_, hself, rfl⟩)

/-! ### Steps of a revocation -/

variable {change : Grant → Grant}

theorem setGrant_some {k : ℕ} (hg : s.grants k = some g) :
    Function.update s.grants f ((s.grants f).map change) k = some (if k = f then change g else g) := by
  by_cases hk : k = f
  · subst hk
    rw [update_self, hg, map_some, if_pos rfl]
  · rw [update_of_ne hk, if_neg hk]
    exact hg

variable {ops' : List RevokeOp} {out : Outcome}

/-- A revocation that changes the grants, but only stamps them, goes on. -/
theorem Rev.stamp (hrev : Rev s) (h : Inv pkce s) (hord : Orderly s) {tokens : ℕ → Option RefreshRecord}
    (hheld : ∀ g, (change g).held = g.held) (hstamp : ∀ g, (change g).revokedAt ≠ none)
    (htokens : ∀ l r, tokens l = some r → s.refreshTokens l = some r)
    (hkept : ∀ l r, s.refreshTokens l = some r → tokens l = some r ∨
      (r.family = f ∧ ∀ l' r', tokens l' = some r' → r'.family ≠ f))
    (hi : s.calls[i]? = some (.revoking ops rel out))
    (hloc : Moves s { s with refreshTokens := tokens, grants := Function.update s.grants f ((s.grants f).map change) } i
        (.revoking ops rel out) (.revoking ops' rel out) →
      RLocal (({ s with refreshTokens := tokens, grants := Function.update s.grants f ((s.grants f).map change) } :
        State).put i (.revoking ops' rel out)) (.revoking ops' rel out)) :
    Rev (({ s with refreshTokens := tokens, grants := Function.update s.grants f ((s.grants f).map change) } :
      State).put i (.revoking ops' rel out)) := by
  have hactive : ∀ g k, (if k = f then change g else g).activeTokenId = g.activeTokenId := by
    intro g k
    split
    · exact congrArg (fun p => p.2.2) (hheld g)
    · rfl
  have hm : Moves s { s with refreshTokens := tokens, grants := Function.update s.grants f ((s.grants f).map change) } i
      (.revoking ops rel out) (.revoking ops' rel out) := by
    refine ⟨hi, rfl, fun _ hno => (by cases hno), fun _ _ _ _ hra => hra, ?_, ?_, ?_, fun _ _ hno => (by cases hno),
      fun _ _ _ _ hno => (by cases hno)⟩
    · intro k g hg
      refine ⟨_, setGrant_some hg, ?_, ?_, .inl (hactive g k)⟩
      · split
        · exact congrArg Prod.fst (hheld g)
        · rfl
      · intro hno
        split
        · exact hstamp g
        · exact hno
    · exact fun l r hr hunused => .inl ⟨r, htokens l r hr, hunused, rfl⟩
    · intro l r hr hunused
      obtain hkeep | ⟨rfl, hgone⟩ := hkept l r hr
      · exact .inl ⟨r, hkeep, hunused⟩
      · obtain ⟨g, hg⟩ := h.grant_of_refresh hr
        refine .inr (.inr ⟨hgone, ⟨_, setGrant_some hg, ?_⟩, rfl⟩)
        rw [if_pos rfl]
        exact hstamp g
  refine hrev.step h hord hm ⟨hloc hm, ?_, ?_, fun _ hno => (by cases hno), fun hno => (by cases hno), .inr rfl,
    fun _ hin => .inl hin, fun _ _ he => .inl he⟩
  · intro k g' a hg' ha
    change Function.update s.grants f _ k = some g' at hg'
    cases hg : s.grants k with
    | none => grind
    | some g =>
      rw [setGrant_some hg] at hg'
      cases hg'
      rw [hactive] at ha
      exact .inl ⟨g, rfl, ha⟩
  · intro k g a hg ha
    exact .inl ⟨_, setGrant_some hg, (hactive g k).trans ha⟩

/-- The grant of the family that is revoked, after a step that does not change its active token. -/
theorem RLocal.revoking_step (h : Inv pkce s) (hrev : Rev s)
    (hi : s.calls[i]? = some (.revoking ops rel (.revoked f)))
    (m : Moves s t i (.revoking ops rel (.revoked f)) (.revoking ops' rel (.revoked f)))
    (hfamily : .family f ∈ ops → .family f ∈ ops' ∨ Stopped (t.put i (.revoking ops' rel (.revoked f))) f)
    (hread : ∀ g a, s.grants f = some g → g.activeTokenId = some a → .activeOf f ∈ ops →
      .activeOf f ∈ ops' ∨ .token g.terms.userId a ∈ ops')
    (htoken : ∀ g a, s.grants f = some g → g.activeTokenId = some a → .token g.terms.userId a ∈ ops →
      .token g.terms.userId a ∈ ops' ∨ Revoked t a) :
    RLocal (t.put i (.revoking ops' rel (.revoked f))) (.revoking ops' rel (.revoked f)) := by
  obtain ⟨g, hg, hstop, hactive⟩ := hrev.rloc i _ hi
  obtain ⟨g', hg', hterms, -, hact | ⟨x, gr, hx, -⟩⟩ := m.grants f g hg
  · refine ⟨g', hg', ?_, ?_⟩
    · obtain hin | hst := hstop
      · exact hfamily hin
      · exact .inr (hst.step h m)
    · by_cases hpending : RevokeOp.activeOf f ∈ ops'
      · exact .inl hpending
      · refine .inr fun a ha => ?_
        rw [hact] at ha
        rw [hterms]
        obtain hin | hall := hactive
        · exact .inr ((hread g a hg ha hin).resolve_left hpending)
        · obtain hdead | hin := hall a ha
          · exact .inl (hrev.revoked_step m hg ha hdead)
          · exact (htoken g a hg ha hin).symm
  · cases hx

theorem stopped_revokeFamily (h : Inv pkce s) (now : ℤ) (hg : s.grants f = some g)
    (hmark : ∀ p l rt gr, ph' ≠ .mark p l rt gr) : Stopped ((s.revokeFamily f now).put i ph') f := by
  constructor
  · refine ⟨_, setGrant_some hg, ?_⟩
    rw [if_pos rfl]
    show g.revokedAt.or (some now) ≠ none
    cases g.revokedAt <;> exact some_ne_none _
  · intro k p l rt gr hk hf r hr
    obtain ⟨-, heq⟩ | ⟨-, hk⟩ := put_cases hk
    · exact absurd heq.symm (hmark p l rt gr)
    · obtain ⟨hr, hne⟩ := filter_eq_some_iff.mp hr
      obtain ⟨-, -, -, ⟨y, hy, hyf, -⟩, -⟩ := h.loc k _ hk
      have hrf : r.family = f := by rw [(h.record_of_issued hy hr).1, hyf, hf]
      exact absurd hrf (of_decide_eq_true hne)

theorem Rev.stepRevoking (hrev : Rev s) (h : Inv pkce s) (hord : Orderly s) (env : Env)
    (hi : s.calls[i]? = some (.revoking ops rel out)) : Rev (s.stepRevoking i env ops rel out) := by
  unfold State.stepRevoking
  split
  · -- The call is over.
    have hnone : (Phase.done out).issue? = none := by
      have hout : ∀ x, out ≠ .issued x := h.loc i _ hi
      cases out with
      | issued x => exact absurd rfl (hout x)
      | _ => rfl
    refine hrev.quiet h hord (Calm.of_tokens rfl rfl rfl rfl) rfl hi (fun _ hno => (by cases hno)) rfl hnone
      (fun _ _ _ _ hno => (by cases hno)) (.inl rfl) ?_ ?_
    · intro token htoken
      by_cases hmine : some token = rel
      · exact .inr ⟨hmine.symm, rfl⟩
      · exact .inl (mem_filter.mpr ⟨htoken, decide_eq_true hmine⟩)
    · cases out with
      | revoked f =>
        obtain ⟨g, hg, hstop, hactive⟩ := hrev.rloc i _ hi
        have hst : Stopped s f := hstop.resolve_left (fun hno => (by cases hno))
        have hstill : Still s f := fun k q x g' hk hx => hord i k _ q f x g' hi hk rfl hx
        have hc : Calm s { s with activeRefreshes := s.activeRefreshes.filter fun t => some t ≠ rel } :=
          Calm.of_tokens rfl rfl rfl rfl
        have hm : Moves s { s with activeRefreshes := s.activeRefreshes.filter fun t => some t ≠ rel } i
            (.revoking [] rel (.revoked f)) (.done (.revoked f)) :=
          hc.moves hi (fun _ hno => (by cases hno)) (fun _ _ hno => (by cases hno)) (fun _ _ _ _ hno => (by cases hno))
        refine ⟨hst.step h hm, hst.still hstill hm, g, hg, fun a ha => ?_⟩
        exact (hactive.resolve_left (fun hno => (by cases hno)) a ha).resolve_right (fun hno => (by cases hno))
      | _ => trivial
  next f' ops =>
    refine hrev.stamp h hord (fun _ => rfl) ?_ ?_ ?_ hi ?_
    · simp_all
    · exact fun l r hr => (filter_eq_some_iff.mp hr).1
    · intro l r hr
      by_cases hf : r.family = f'
      · simp_all
      · exact .inl (filter_eq_some_iff.mpr ⟨hr, decide_eq_true hf⟩)
    · intro hm
      cases out with
      | revoked f =>
        refine RLocal.revoking_step h hrev hi hm ?_ ?_ ?_
        · intro hin
          obtain heq | hin := mem_cons.mp hin
          · cases heq
            obtain ⟨g, hg, -⟩ := hrev.rloc i _ hi
            exact .inr (stopped_revokeFamily h env.now hg (fun _ _ _ _ hno => (by cases hno)))
          · exact .inl hin
        · exact fun g a _ _ hin => .inl (mem_of_ne_of_mem (fun hno => (by cases hno)) hin)
        · exact fun g a _ _ hin => .inl (mem_of_ne_of_mem (fun hno => (by cases hno)) hin)
      | _ => trivial
  next f' ops =>
    -- The active token is read.
    have hread : ∀ {ops' : List RevokeOp}, (∀ op ∈ ops, op ∈ ops') →
        (∀ f g a, out = .revoked f → f' = f → s.grants f = some g → g.activeTokenId = some a →
          RevokeOp.token g.terms.userId a ∈ ops') →
        Rev (s.put i (.revoking ops' rel out)) := by
      intro ops' hsub htok
      refine hrev.idle h hord hi (fun _ hno => (by cases hno)) rfl rfl (fun _ _ _ _ hno => (by cases hno)) (.inr rfl) ?_
      cases out with
      | revoked f =>
        refine RLocal.revoking_step h hrev hi ((Calm.of_tokens rfl rfl rfl rfl).moves hi (fun _ hno => (by cases hno))
          (fun _ _ hno => (by cases hno)) (fun _ _ _ _ hno => (by cases hno))) ?_ ?_ ?_
        · exact fun hin => .inl (hsub _ (mem_of_ne_of_mem (fun hno => (by cases hno)) hin))
        · grind
        · exact fun g a _ _ hin => .inl (hsub _ (mem_of_ne_of_mem (fun hno => (by cases hno)) hin))
      | _ => trivial
    split
    next hnone =>
      refine hread (fun _ hin => hin) ?_
      rintro f g a - rfl hg
      rw [hnone] at hg
      cases hg
    next grant hgrant =>
      refine hread (fun _ hin => mem_append_right _ hin) ?_
      rintro f g a - rfl hg ha
      rw [hgrant] at hg
      cases hg
      dsimp only [State.reuse]
      rw [ha]
      exact mem_append_left _ (mem_singleton_self _)
  next userId b ops =>
    refine hrev.quiet h hord ⟨rfl, rfl, rfl, fun _ _ _ _ hra => hra.revokeToken userId b env.now⟩ rfl hi
      (fun _ hno => (by cases hno)) rfl rfl (fun _ _ _ _ hno => (by cases hno)) (.inr rfl) (fun _ hin => .inl hin) ?_
    cases out with
    | revoked f =>
      have hc : Calm s (s.revokeToken userId b env.now) :=
        ⟨rfl, rfl, rfl, fun _ _ _ _ hra => hra.revokeToken userId b env.now⟩
      refine RLocal.revoking_step h hrev hi (hc.moves hi (fun _ hno => (by cases hno)) (fun _ _ hno => (by cases hno))
        (fun _ _ _ _ hno => (by cases hno))) ?_ ?_ ?_
      · exact fun hin => .inl (mem_of_ne_of_mem (fun hno => (by cases hno)) hin)
      · exact fun g a _ _ hin => .inl (mem_of_ne_of_mem (fun hno => (by cases hno)) hin)
      · intro g a hg ha hin
        obtain heq | hin := mem_cons.mp hin
        · cases heq
          obtain ⟨token, htoken, huser⟩ := hrev.user h hg ha
          rw [← huser]
          exact .inr (revoked_revokeToken htoken env.now)
        · exact .inl hin
    | _ => trivial
  next f' ops =>
    refine hrev.stamp h hord (fun _ => rfl) (fun g => some_ne_none _) (fun _ _ hr => hr) (fun _ _ hr => .inl hr)
      hi ?_
    intro hm
    cases out with
    | revoked f =>
      exact RLocal.revoking_step h hrev hi hm
        (fun hin => .inl (mem_of_ne_of_mem (fun hno => (by cases hno)) hin))
        (fun g a _ _ hin => .inl (mem_of_ne_of_mem (fun hno => (by cases hno)) hin))
        (fun g a _ _ hin => .inl (mem_of_ne_of_mem (fun hno => (by cases hno)) hin))
    | _ => trivial

/-! ### Every step -/

theorem lookup_some {secret : Secret} (h : s.lookup secret = some (l, rt)) :
    s.refreshTokens l = some rt := by
  cases secret with
  | other text => cases h
  | drawn l' =>
    obtain ⟨r, hr, heq⟩ := map_eq_some_iff.mp h
    cases heq
    exact hr

/-- A revocation that was asked for with a refresh token reads the grant later. -/
theorem Inv.rlocal_found (h : Inv pkce s) (hr : s.refreshTokens l = some r) (ht : t.grants = s.grants) :
    RLocal t (.revoking [.family r.family, .activeOf r.family] rel (.revoked r.family)) := by
  obtain ⟨g, hg⟩ := h.grant_of_refresh hr
  rw [← ht] at hg
  exact ⟨g, hg, .inl (mem_cons_self ..), .inl (mem_cons_of_mem _ (mem_singleton_self _))⟩

theorem Rev.revokeFound (hrev : Rev s) (h : Inv pkce s) (hord : Orderly s) {next : Phase} {b : Bearer}
    (hi : s.calls[i]? = some ph) (hdone : ∀ out, ph ≠ .done out) (hcreated : ph.created = false)
    (hnext : next.issue? = none ∧ next.holds? = none ∧ (∀ p l rt gr, next ≠ .mark p l rt gr) ∧ ∀ u, RLocal u next) :
    Rev (s.revokeFound i b next) := by
  obtain ⟨hnone, hholds, hmark, hloc⟩ := hnext
  unfold State.revokeFound
  split
  next l rt hfound =>
    obtain ⟨secret, -, hlookup⟩ := bind_eq_some_iff.mp hfound
    exact hrev.idle h hord hi hdone hcreated rfl (fun _ _ _ _ hno => (by cases hno)) (.inl rfl)
      (h.rlocal_found (lookup_some hlookup) rfl)
  · exact hrev.idle h hord hi hdone hcreated hnone (fun p l rt gr hph => absurd hph (hmark p l rt gr)) (.inl hholds)
      (hloc _)

theorem Rev.act_step (hrev : Rev s) (h : Inv pkce s) (hord : Orderly s) (i : ℕ) (env : Env) : Rev (s.step i env) := by
  unfold State.step
  split
  · exact hrev
  next ph hi =>
    -- A call that only looks something up.
    have hidle : ∀ {ph' : Phase}, (∀ out, ph ≠ .done out) → ph.created = false → ph'.issue? = none →
        (∀ p l rt gr, ph' ≠ .mark p l rt gr) → ph'.holds? = none → RLocal (s.put i ph') ph' → Rev (s.put i ph') :=
      fun hdone hcreated hnone hmark hholds hloc =>
        hrev.idle h hord hi hdone hcreated hnone (fun p l rt gr hph => absurd hph (hmark p l rt gr)) (.inl hholds) hloc
    cases ph with
    | create x codeExpires =>
      simp only [State.stepPhase]
      split
      · exact hrev.goOn h hord (calm_createToken env.now hi rfl) hi (fun _ hno => (by cases hno))
          (fun _ _ hno => (by cases hno)) (fun hno => (by cases hno)) (fun _ _ _ _ hno => (by cases hno)) (.inl rfl)
          (fun _ hin => .inl hin) (fun _ _ he => .inl he)
          (fun _ _ hy => .inr (.inr (.inr (by cases hy; exact ⟨_, _, rfl⟩)))) trivial
      · exact hidle (fun _ hno => (by cases hno)) rfl rfl (fun _ _ _ _ hno => (by cases hno)) rfl trivial
    | saveGrant x codeExpires now => exact hrev.saveGrant h hord hi
    | saveFirst x codeExpires now => exact hrev.saveFirst h hord hi
    | finishExchange x codeExpires =>
      have hcode : x.source.isCode = true := h.loc i _ hi
      have hlive := hrev.same_live hi rfl rfl rfl (fun _ _ hno => (by cases hno))
      simp only [State.stepPhase]
      split
      next c _ _ _ hsource =>
        refine hrev.goOn h hord (Calm.of_tokens rfl rfl rfl rfl) hi (fun _ hno => (by cases hno))
          (fun _ _ hno => (by cases hno)) (fun _ => ⟨rfl, rfl⟩) (fun _ _ _ _ hno => (by cases hno)) (.inl rfl)
          (fun _ hin => .inl hin) ?_ ?_ trivial
        · intro c' e he
          obtain hold | hnew := mem_append.mp he
          · exact .inl hold
          · obtain heq := mem_singleton.mp hnew
            cases heq
            exact .inr ⟨x, put_self (by exact hi), h.own hi rfl hcode, rfl⟩
        · intro y _ hy
          cases hy
          obtain hdead | hact := hlive
          · exact .inl hdead
          · exact .inr (.inl hact)
      · exact hrev
    | getRefresh p => exact hrev.stepGetRefresh h hord env hi
    | getGrant p l rt => exact hrev.stepGetGrant h hord hi
    | mark p l rt grant => exact hrev.stepMark h hord hi
    | mint x grant =>
      simp only [State.stepPhase]
      split
      · exact hrev.goOn h hord (calm_createToken env.now hi rfl) hi (fun _ hno => (by cases hno))
          (fun _ _ hy => hy) (fun hno => (by cases hno)) (fun _ _ _ _ hno => (by cases hno)) (.inr rfl)
          (fun _ hin => .inl hin) (fun _ _ he => .inl he) (fun _ _ _ => .inr (.inr (.inl rfl))) trivial
      · split
        next l clientId hsource =>
          refine hrev.refuse h hord hi (fun _ hno => (by cases hno)) rfl ?_
          simp only [Phase.holds?, hsource]
        · exact hrev
    | revokeOld x grant => exact hrev.revokeOld h hord env hi
    | saveNext x grant => exact hrev.saveNext h hord hi
    | update x grant now => exact hrev.update h hord hi
    | finishRefresh x grant =>
      have hlive := hrev.same_live hi rfl rfl rfl (fun _ _ hno => (by cases hno))
      simp only [State.stepPhase]
      split
      next l clientId hsource =>
        refine hrev.goOn h hord (Calm.of_tokens rfl rfl rfl rfl) hi (fun _ hno => (by cases hno))
          (fun _ _ hno => (by cases hno)) (fun _ => ⟨rfl, rfl⟩) (fun _ _ _ _ hno => (by cases hno)) (.inl rfl)
          ?_ (fun _ _ he => .inl he) ?_ trivial
        · intro token htoken
          by_cases hmine : token = .drawn l
          · refine .inr ⟨?_, rfl⟩
            simp only [Phase.holds?, hsource, hmine]
          · exact .inl (mem_filter.mpr ⟨htoken, decide_eq_true hmine⟩)
        · intro y _ hy
          cases hy
          obtain hdead | hact := hlive
          · exact .inl hdead
          · exact .inr (.inl hact)
      · exact hrev
    | concurrent p =>
      simp only [State.stepPhase]
      split
      · exact hidle (fun _ hno => (by cases hno)) rfl rfl (fun _ _ _ _ hno => (by cases hno)) rfl trivial
      next l rt hfound =>
        exact hidle (fun _ hno => (by cases hno)) rfl rfl (fun _ _ _ _ hno => (by cases hno)) rfl
          (h.rlocal_found (lookup_some hfound) rfl)
    | lookupGrant userId f =>
      simp only [State.stepPhase]
      split
      · exact hidle (fun _ hno => (by cases hno)) rfl rfl (fun _ _ _ _ hno => (by cases hno)) rfl trivial
      next grant hg =>
        split
        · exact hidle (fun _ hno => (by cases hno)) rfl rfl (fun _ _ _ _ hno => (by cases hno)) rfl trivial
        · refine hidle (fun _ hno => (by cases hno)) rfl rfl (fun _ _ _ _ hno => (by cases hno)) rfl ?_
          refine ⟨grant, hg, .inl (mem_append_left _ (mem_append_left _ (mem_singleton_self _))),
            .inr fun a ha => .inr ?_⟩
          dsimp only [State.reuse]
          rw [ha]
          exact mem_append_left _ (mem_append_right _ (mem_singleton_self _))
    | lookupActive userId t =>
      exact hidle (fun _ hno => (by cases hno)) rfl rfl (fun _ _ _ _ hno => (by cases hno)) rfl trivial
    | revokeFirst b =>
      refine hrev.revokeFound h hord hi (fun _ hno => (by cases hno)) rfl ?_
      cases b <;> exact ⟨rfl, rfl, fun _ _ _ _ hno => (by cases hno), fun _ => trivial⟩
    | authenticate b =>
      simp only [State.stepPhase]
      split
      · split
        · exact hidle (fun _ hno => (by cases hno)) rfl rfl (fun _ _ _ _ hno => (by cases hno)) rfl trivial
        · exact hidle (fun _ hno => (by cases hno)) rfl rfl (fun _ _ _ _ hno => (by cases hno)) rfl trivial
      · exact hidle (fun _ hno => (by cases hno)) rfl rfl (fun _ _ _ _ hno => (by cases hno)) rfl trivial
    | listGrants b t =>
      simp only [State.stepPhase]
      split
      · exact hidle (fun _ hno => (by cases hno)) rfl rfl (fun _ _ _ _ hno => (by cases hno)) rfl trivial
      next f fs hfamilies =>
        split
        · exact hidle (fun _ hno => (by cases hno)) rfl rfl (fun _ _ _ _ hno => (by cases hno)) rfl trivial
        next grant hg =>
          have hactive : grant.activeTokenId = some t := by
            have hin : f ∈ s.familiesOf "" t := by rw [hfamilies]; exact mem_cons_self ..
            have hany := (mem_filter.mp hin).2
            rw [hg, any_some, Bool.and_eq_true] at hany
            exact of_decide_eq_true hany.2
          refine hidle (fun _ hno => (by cases hno)) rfl rfl (fun _ _ _ _ hno => (by cases hno)) rfl ?_
          refine ⟨grant, hg, .inl (by simp), .inr fun a ha => .inr ?_⟩
          cases hactive.symm.trans ha
          exact mem_cons_self ..
    | revokeLast b =>
      exact hrev.revokeFound h hord hi (fun _ hno => (by cases hno)) rfl
        ⟨rfl, rfl, fun _ _ _ _ hno => (by cases hno), fun _ => trivial⟩
    | revoking ops rel out => exact hrev.stepRevoking h hord env hi
    | release token out =>
      have hout : ∀ x, out ≠ .issued x := h.loc i _ hi
      have hout' : ∀ f, out ≠ .revoked f := hrev.rloc i _ hi
      refine hrev.quiet h hord (Calm.of_tokens rfl rfl rfl rfl) rfl hi (fun _ hno => (by cases hno)) rfl ?_
        (fun _ _ _ _ hno => (by cases hno)) (.inl rfl) ?_ ?_
      · cases out with
        | issued x => exact absurd rfl (hout x)
        | _ => rfl
      · intro token' htoken
        by_cases hmine : token' = token
        · exact .inr ⟨congrArg some hmine.symm, rfl⟩
        · exact .inl (mem_filter.mpr ⟨htoken, decide_eq_true hmine⟩)
      · cases out with
        | revoked f => exact absurd rfl (hout' f)
        | _ => trivial
    | done out => exact hrev

/-! ### New calls -/

variable {q : Phase}

/-- What a call relies on outlives the start of another. -/
theorem RLocal.start (hl : RLocal s q) (hcalls : t.calls = s.calls) (hgrants : t.grants = s.grants)
    (hrefresh : t.refreshTokens = s.refreshTokens) (htokens : t.tokens = s.tokens)
    (hmint : ph.minting? = none) (hmark : ∀ p l rt gr, ph ≠ .mark p l rt gr) :
    RLocal (t.start ph) q := by
  have hcases : ∀ {k : ℕ} {q : Phase}, (t.start ph).calls[k]? = some q → q = ph ∨ s.calls[k]? = some q := by
    intro k q hk
    obtain ⟨-, hq⟩ | hk := start_cases hk
    · exact .inl hq
    · rw [hcalls] at hk
      exact .inr hk
  have hstill : ∀ {f : ℕ}, Still s f → Still (t.start ph) f := by
    intro f hs k q x g hk hx
    obtain rfl | hk := hcases hk
    · rw [hmint] at hx
      cases hx
    · exact hs k q x g hk hx
  have hspent : ∀ {f : ℕ}, Spent s f → Spent (t.start ph) f := by
    intro f hs
    obtain ⟨z, hz⟩ := hs.root
    refine ⟨?_, hstill hs.still, z, start_old (by rw [hcalls]; exact hz)⟩
    intro l r hr
    change t.refreshTokens l = some r at hr
    rw [hrefresh] at hr
    exact hs.used l r hr
  have hstop : ∀ {f : ℕ}, Stopped s f → Stopped (t.start ph) f := by
    intro f hs
    obtain ⟨g, hg, hno⟩ := hs.stamped
    refine ⟨⟨g, ?_, hno⟩, ?_⟩
    · show t.grants f = some g
      rw [hgrants]
      exact hg
    · intro k p l rt gr hk hf r hr
      change t.refreshTokens l = some r at hr
      rw [hrefresh] at hr
      obtain heq | hk := hcases hk
      · exact absurd heq.symm (hmark p l rt gr)
      · exact hs.marks k p l rt gr hk hf r hr
  have hdead : ∀ {a : ℕ}, Revoked s a → Revoked (t.start ph) a := by
    rintro a ⟨token, htoken, hno⟩
    refine ⟨token, ?_, hno⟩
    show t.tokens a = some token
    rw [htokens]
    exact htoken
  cases q with
  | getGrant p l rt =>
    show rt.used = false → (∃ r, t.refreshTokens l = some r ∧ r.used = false) ∨
      ∃ g, t.grants rt.family = some g ∧ g.revokedAt ≠ none
    rw [hrefresh, hgrants]
    exact hl
  | mark p l rt gr =>
    obtain ⟨⟨g, hg, hact⟩, hfree⟩ := hl
    refine ⟨⟨g, ?_, hact⟩, hfree.imp ?_ hspent⟩
    · show t.grants rt.family = some g
      rw [hgrants]
      exact hg
    · rintro ⟨r, hr, hunused⟩
      refine ⟨r, ?_, hunused⟩
      show t.refreshTokens l = some r
      rw [hrefresh]
      exact hr
  | saveNext x gr => exact fun a ha => hdead (hl a ha)
  | update x gr now => exact fun a ha => hdead (hl a ha)
  | revoking ops rel out =>
    cases out with
    | revoked f =>
      obtain ⟨g, hg, hfamily, hactive⟩ := hl
      refine ⟨g, ?_, hfamily.imp id hstop, hactive.imp id fun hall a ha => (hall a ha).imp hdead id⟩
      show t.grants f = some g
      rw [hgrants]
      exact hg
    | _ => trivial
  | release token out => exact hl
  | done out =>
    cases out with
    | revoked f =>
      obtain ⟨hst, hs, g, hg, hactive⟩ := hl
      refine ⟨hstop hst, hstill hs, g, ?_, fun a ha => hdead (hactive a ha)⟩
      show t.grants f = some g
      rw [hgrants]
      exact hg
    | _ => trivial
  | _ => trivial

/-- A new call, that has created nothing yet. -/
theorem Rev.start (hrev : Rev s) (hcalls : t.calls = s.calls) (hgrants : t.grants = s.grants)
    (hrefresh : t.refreshTokens = s.refreshTokens) (htokens : t.tokens = s.tokens)
    (hconsumed : ∀ e ∈ t.consumed, e ∈ s.consumed) (hactive : ∀ token ∈ s.activeRefreshes, token ∈ t.activeRefreshes)
    (hcreated : ph.created = false) (hmint : ph.minting? = none) (hmark : ∀ p l rt gr, ph ≠ .mark p l rt gr)
    (hholds : ∀ token, ph.holds? = some token → token ∉ s.activeRefreshes ∧ token ∈ t.activeRefreshes)
    (hloc : RLocal s ph) : Rev (t.start ph) := by
  have hold : ∀ {k : ℕ} {q : Phase}, s.calls[k]? = some q → (t.start ph).calls[k]? = some q := by
    intro k q hk
    rw [← hcalls] at hk
    exact start_old hk
  have hcases : ∀ {k : ℕ} {q : Phase}, (t.start ph).calls[k]? = some q →
      (k = s.calls.length ∧ q = ph) ∨ s.calls[k]? = some q := by
    intro k q hk
    have hk' := start_cases hk
    rw [hcalls] at hk'
    exact hk'
  constructor
  case rloc =>
    intro k q hk
    obtain ⟨-, rfl⟩ | hk := hcases hk
    · exact hloc.start hcalls hgrants hrefresh htokens hmint hmark
    · exact (hrev.rloc k q hk).start hcalls hgrants hrefresh htokens hmint hmark
  case owner =>
    intro f g a hg ha
    change t.grants f = some g at hg
    rw [hgrants] at hg
    obtain ⟨q, y, hq, hrest⟩ := hrev.owner f g a hg ha
    exact ⟨q, y, hold hq, hrest⟩
  case live =>
    intro k q x hk hcr hx
    obtain ⟨-, rfl⟩ | hk := hcases hk
    · rw [hcreated] at hcr
      cases hcr
    · obtain ⟨token, htoken, hno⟩ | ⟨g, hg, ha⟩ | hrest := hrev.live k q x hk hcr hx
      · refine .inl ⟨token, ?_, hno⟩
        show t.tokens k = some token
        rw [htokens]
        exact htoken
      · refine .inr (.inl ⟨g, ?_, ha⟩)
        show t.grants x.family = some g
        rw [hgrants]
        exact hg
      · exact .inr (.inr hrest)
  case held =>
    intro k l q q' token hk hl hq hq'
    obtain ⟨hkn, rfl⟩ | hk' := hcases hk
    · obtain ⟨hln, -⟩ | hl' := hcases hl
      · exact hkn.trans hln.symm
      · exact absurd (hrev.active l q' token hl' hq') (hholds token hq).1
    · obtain ⟨-, rfl⟩ | hl' := hcases hl
      · exact absurd (hrev.active k q token hk' hq) (hholds token hq').1
      · exact hrev.held k l q q' token hk' hl' hq hq'
  case active =>
    intro k q token hk hq
    obtain ⟨-, rfl⟩ | hk := hcases hk
    · exact (hholds token hq).2
    · exact hactive token (hrev.active k q token hk hq)
  case consumed =>
    intro c e he
    obtain ⟨z, hz, hrest⟩ := hrev.consumed c e (hconsumed _ he)
    exact ⟨z, hold hz, hrest⟩

/-- As `start`, when nothing is put among the active refreshes. -/
theorem Rev.startCall (hrev : Rev s) (hcalls : t.calls = s.calls) (hgrants : t.grants = s.grants)
    (hrefresh : t.refreshTokens = s.refreshTokens) (htokens : t.tokens = s.tokens)
    (hconsumed : ∀ e ∈ t.consumed, e ∈ s.consumed) (hactive : t.activeRefreshes = s.activeRefreshes)
    (hcreated : ph.created = false) (hmint : ph.minting? = none) (hmark : ∀ p l rt gr, ph ≠ .mark p l rt gr)
    (hholds : ph.holds? = none) (hloc : RLocal s ph) : Rev (t.start ph) := by
  refine hrev.start hcalls hgrants hrefresh htokens hconsumed ?_ hcreated hmint hmark ?_ hloc
  · intro token htoken
    rw [hactive]
    exact htoken
  · intro token hno
    rw [hholds] at hno
    cases hno

theorem Rev.exchange (hrev : Rev s) (h : Inv pkce s) {c : ℕ}
    {clientId redirectUri codeVerifier : String}
    (hfirst : FirstToken s (.exchangeAuthorizationCode c clientId redirectUri codeVerifier now)) :
    Rev (s.exchangeAuthorizationCode pkce c clientId redirectUri codeVerifier now) := by
  unfold State.exchangeAuthorizationCode
  split
  next e he =>
    refine hrev.startCall rfl rfl rfl rfl (fun _ hin => hin) rfl rfl rfl (fun _ _ _ _ hno => (by cases hno)) rfl ?_
    have hin : (c, e) ∈ s.consumed := by
      obtain ⟨l₁, l₂, heq, -⟩ := lookup_eq_some_iff.mp he
      rw [heq]
      exact mem_append_right _ (mem_cons_self ..)
    obtain ⟨z, hz, hfamily, huser⟩ := hrev.consumed c e hin
    obtain ⟨g, hg, hterms⟩ := h.grant_of_issued hz
    rw [hfamily] at hg
    refine ⟨g, hg, .inl (mem_cons_self ..), .inr fun a ha => ?_⟩
    -- The code names the first access token: it is the active one, or the active one is revoked.
    obtain rfl | hdead := hfirst e g a he hg ha
    · rw [hterms, ← huser]
      exact .inr (mem_cons_of_mem _ (mem_singleton_self _))
    · exact .inl hdead
  · have hrefuse : ∀ {t : State} {error description : String}, t.calls = s.calls → t.grants = s.grants →
        t.refreshTokens = s.refreshTokens → t.tokens = s.tokens → t.consumed = s.consumed →
        t.activeRefreshes = s.activeRefreshes → Rev (t.start (.done (.refused error description))) := by
      intro t error description hcalls hgrants hrefresh htokens hconsumed hactive
      refine hrev.startCall hcalls hgrants hrefresh htokens ?_ hactive rfl rfl (fun _ _ _ _ hno => (by cases hno)) rfl
        trivial
      intro e he
      rw [hconsumed] at he
      exact he
    split
    · exact hrefuse rfl rfl rfl rfl rfl rfl
    · dsimp only
      split
      · exact hrefuse rfl rfl rfl rfl rfl rfl
      · split
        · exact hrefuse rfl rfl rfl rfl rfl rfl
        · exact hrev.startCall rfl rfl rfl rfl (fun _ hin => hin) rfl rfl rfl (fun _ _ _ _ hno => (by cases hno)) rfl
            trivial

theorem Rev.act (hrev : Rev s) (h : Inv pkce s) (hord : Orderly s) {a : Act} (hfirst : FirstToken s a) :
    Rev (s.act pkce a) := by
  have hstart : ∀ {ph : Phase}, ph.created = false → ph.minting? = none → (∀ p l rt gr, ph ≠ .mark p l rt gr) →
      ph.holds? = none → RLocal s ph → Rev (s.start ph) :=
    fun hcreated hmint hmark hholds hloc =>
      hrev.startCall rfl rfl rfl rfl (fun _ hin => hin) rfl hcreated hmint hmark hholds hloc
  cases a with
  | createAuthorizationCode terms redirectUri codeChallenge scopes now =>
    refine hrev.startCall rfl rfl rfl rfl ?_ rfl rfl rfl (fun _ _ _ _ hno => (by cases hno)) rfl trivial
    intro e he
    dsimp only at he
    split at he
    · exact (mem_filter.mp he).1
    · exact he
  | exchangeAuthorizationCode c clientId redirectUri codeVerifier now => exact hrev.exchange h hfirst
  | refresh p =>
    simp only [State.act]
    split
    · unfold State.refresh
      split
      · exact hstart rfl rfl (fun _ _ _ _ hno => (by cases hno)) rfl trivial
      next hfree =>
        refine hrev.start rfl rfl rfl rfl (fun _ hin => hin) (fun _ hin => mem_append_left _ hin) rfl rfl
          (fun _ _ _ _ hno => (by cases hno)) ?_ trivial
        intro token htoken
        cases htoken
        exact ⟨hfree, mem_append_right _ (mem_singleton_self _)⟩
    · exact hrev
  | revokeGrant userId f => exact hstart rfl rfl (fun _ _ _ _ hno => (by cases hno)) rfl trivial
  | revokeActiveToken userId t => exact hstart rfl rfl (fun _ _ _ _ hno => (by cases hno)) rfl trivial
  | revoke b hint =>
    simp only [State.act]
    split
    · unfold State.revoke
      split
      · exact hstart rfl rfl (fun _ _ _ _ hno => (by cases hno)) rfl trivial
      · split
        · exact hstart rfl rfl (fun _ _ _ _ hno => (by cases hno)) rfl trivial
        · cases b <;> exact hstart rfl rfl (fun _ _ _ _ hno => (by cases hno)) rfl trivial
    · exact hrev
  | step i env => exact hrev.act_step h hord i env

theorem Rev.init : Rev {} := by
  constructor
  all_goals intros
  all_goals contradiction

/-! ### Whole runs -/

/-- A call that goes from `ph` to `ph'` issues what it did before, or has just marked a token that
was not used. -/
def Follows (s : State) (ph ph' : Phase) : Prop := ph'.issue? = none ∨ ph'.issue? = ph.issue? ∨
    ∃ (p : RefreshParams) (l : ℕ) (rt : RefreshRecord) (gr : Grant) (r : RefreshRecord) (x : Issue),
      ph = .mark p l rt gr ∧ ph'.issue? = some x ∧ x.family = rt.family ∧ s.refreshTokens l = some r ∧ r.used = false

/-- A step changes the phase of the call that takes it. -/
theorem Inv.stepPhase_cases (h : Inv pkce s) (env : Env) (hi : s.calls[i]? = some ph) :
    s.stepPhase i env ph = s ∨ ∃ (t : State) (ph' : Phase), s.stepPhase i env ph = t.put i ph' ∧
      (∀ out, ph ≠ .done out) ∧ t.calls = s.calls ∧ Follows s ph ph' := by
  have hgo : ∀ {t : State} {ph' : Phase}, (∀ out, ph ≠ .done out) → t.calls = s.calls → Follows s ph ph' →
      t.put i ph' = s ∨ ∃ (t' : State) (ph'' : Phase), t.put i ph' = t'.put i ph'' ∧ (∀ out, ph ≠ .done out) ∧
        t'.calls = s.calls ∧ Follows s ph ph'' :=
    fun hdone hcalls hfollows => .inr ⟨_, _, rfl, hdone, hcalls, hfollows⟩
  have hdone : ∀ {out : Outcome}, (∀ y, out ≠ .issued y) → (Phase.done out).issue? = none := by
    intro out hout
    cases out with
    | issued y => exact absurd rfl (hout y)
    | _ => rfl
  cases ph with
  | mark p l rt gr =>
    simp only [State.stepPhase, State.stepMark]
    split
    next t hmark =>
      obtain ⟨rfl, -⟩ := markUsed_false hmark
      exact hgo (fun _ hno => (by cases hno)) rfl (.inl rfl)
    next t hmark =>
      obtain ⟨r, hr, hunused, rfl⟩ := markUsed_true hmark
      split
      · exact hgo (fun _ hno => (by cases hno)) rfl (.inl rfl)
      · split
        · exact hgo (fun _ hno => (by cases hno)) rfl (.inl rfl)
        · exact hgo (fun _ hno => (by cases hno)) rfl (.inr (.inr ⟨p, l, rt, gr, r, _, rfl, rfl, rfl, hr, hunused⟩))
  | revoking ops rel out =>
    simp only [State.stepPhase, State.stepRevoking]
    split
    · exact hgo (fun _ hno => (by cases hno)) rfl (.inl (hdone (h.loc i _ hi)))
    · exact hgo (fun _ hno => (by cases hno)) rfl (.inl rfl)
    · split
      · exact hgo (fun _ hno => (by cases hno)) rfl (.inl rfl)
      · exact hgo (fun _ hno => (by cases hno)) rfl (.inl rfl)
    · exact hgo (fun _ hno => (by cases hno)) rfl (.inl rfl)
    · exact hgo (fun _ hno => (by cases hno)) rfl (.inl rfl)
  | release token out =>
    simp only [State.stepPhase]
    exact hgo (fun _ hno => (by cases hno)) rfl (.inl (hdone (h.loc i _ hi)))
  | getRefresh p =>
    simp only [State.stepPhase, State.stepGetRefresh]
    split
    · exact hgo (fun _ hno => (by cases hno)) rfl (.inl rfl)
    · split
      · exact hgo (fun _ hno => (by cases hno)) rfl (.inl rfl)
      · split
        · exact hgo (fun _ hno => (by cases hno)) rfl (.inl rfl)
        · exact hgo (fun _ hno => (by cases hno)) rfl (.inl rfl)
  | getGrant p l rt =>
    simp only [State.stepPhase, State.stepGetGrant]
    split
    · exact hgo (fun _ hno => (by cases hno)) rfl (.inl rfl)
    · exact hgo (fun _ hno => (by cases hno)) rfl (.inl rfl)
    · exact hgo (fun _ hno => (by cases hno)) rfl (.inl rfl)
    · split
      · exact hgo (fun _ hno => (by cases hno)) rfl (.inl rfl)
      · exact hgo (fun _ hno => (by cases hno)) rfl (.inl rfl)
  | create y codeExpires =>
    simp only [State.stepPhase]
    split
    · exact hgo (fun _ hno => (by cases hno)) rfl (.inr (.inl rfl))
    · exact hgo (fun _ hno => (by cases hno)) rfl (.inl rfl)
  | mint y grant =>
    simp only [State.stepPhase]
    split
    · exact hgo (fun _ hno => (by cases hno)) rfl (.inr (.inl rfl))
    · split
      · exact hgo (fun _ hno => (by cases hno)) rfl (.inl rfl)
      · exact .inl rfl
  | revokeOld y grant =>
    simp only [State.stepPhase]
    split
    · exact hgo (fun _ hno => (by cases hno)) rfl (.inr (.inl rfl))
    · exact hgo (fun _ hno => (by cases hno)) rfl (.inr (.inl rfl))
  | saveGrant y codeExpires now =>
    simp only [State.stepPhase]
    exact hgo (fun _ hno => (by cases hno)) rfl (.inr (.inl rfl))
  | saveFirst y codeExpires now =>
    simp only [State.stepPhase]
    exact hgo (fun _ hno => (by cases hno)) rfl (.inr (.inl rfl))
  | saveNext y grant =>
    simp only [State.stepPhase]
    exact hgo (fun _ hno => (by cases hno)) rfl (.inr (.inl rfl))
  | update y grant now =>
    simp only [State.stepPhase]
    exact hgo (fun _ hno => (by cases hno)) rfl (.inr (.inl rfl))
  | finishExchange y codeExpires =>
    simp only [State.stepPhase]
    split
    · exact hgo (fun _ hno => (by cases hno)) rfl (.inr (.inl rfl))
    · exact .inl rfl
  | finishRefresh y grant =>
    simp only [State.stepPhase]
    split
    · exact hgo (fun _ hno => (by cases hno)) rfl (.inr (.inl rfl))
    · exact .inl rfl
  | concurrent p =>
    simp only [State.stepPhase]
    split
    · exact hgo (fun _ hno => (by cases hno)) rfl (.inl rfl)
    · exact hgo (fun _ hno => (by cases hno)) rfl (.inl rfl)
  | lookupGrant userId f =>
    simp only [State.stepPhase]
    split
    · exact hgo (fun _ hno => (by cases hno)) rfl (.inl rfl)
    · split
      · exact hgo (fun _ hno => (by cases hno)) rfl (.inl rfl)
      · exact hgo (fun _ hno => (by cases hno)) rfl (.inl rfl)
  | lookupActive userId t =>
    simp only [State.stepPhase]
    exact hgo (fun _ hno => (by cases hno)) rfl (.inl rfl)
  | revokeFirst b =>
    simp only [State.stepPhase, State.revokeFound]
    split
    · exact hgo (fun _ hno => (by cases hno)) rfl (.inl rfl)
    · refine hgo (fun _ hno => (by cases hno)) rfl (.inl ?_)
      cases b <;> rfl
  | revokeLast b =>
    simp only [State.stepPhase, State.revokeFound]
    split
    · exact hgo (fun _ hno => (by cases hno)) rfl (.inl rfl)
    · exact hgo (fun _ hno => (by cases hno)) rfl (.inl rfl)
  | authenticate b =>
    simp only [State.stepPhase]
    split
    · split
      · exact hgo (fun _ hno => (by cases hno)) rfl (.inl rfl)
      · exact hgo (fun _ hno => (by cases hno)) rfl (.inl rfl)
    · exact hgo (fun _ hno => (by cases hno)) rfl (.inl rfl)
  | listGrants b t =>
    simp only [State.stepPhase]
    split
    · exact hgo (fun _ hno => (by cases hno)) rfl (.inl rfl)
    · split
      · exact hgo (fun _ hno => (by cases hno)) rfl (.inl rfl)
      · exact hgo (fun _ hno => (by cases hno)) rfl (.inl rfl)
  | done out => exact .inl rfl

theorem Inv.issue_step (h : Inv pkce s) {i k : ℕ} {env : Env} (hk : (s.step i env).calls[k]? = some q)
    (hx : q.issue? = some x) : (∃ q', s.calls[k]? = some q' ∧ q'.issue? = some x) ∨
      ∃ p l rt gr r, s.calls[k]? = some (.mark p l rt gr) ∧ x.family = rt.family ∧ s.refreshTokens l = some r ∧
        r.used = false := by
  unfold State.step at hk
  split at hk
  · exact .inl ⟨q, hk, hx⟩
  next ph hi =>
    obtain hsame | ⟨t, ph', hstep, -, hcalls, hissue⟩ := h.stepPhase_cases env hi
    · rw [hsame] at hk
      exact .inl ⟨q, hk, hx⟩
    · rw [hstep] at hk
      obtain ⟨rfl, rfl⟩ | ⟨-, hk⟩ := put_cases hk
      · obtain hnone | hsame | ⟨p, l, rt, gr, r, y, rfl, hy, hrest⟩ := hissue
        · rw [hnone] at hx
          cases hx
        · exact .inl ⟨ph, hi, hsame.symm.trans hx⟩
        · cases hy.symm.trans hx
          exact .inr ⟨p, l, rt, gr, r, hi, hrest⟩
      · rw [hcalls] at hk
        exact .inl ⟨q, hk, hx⟩

/-- Once family `f` is revoked, a call that issues for it after an act did so before. -/
theorem Inv.issue_act (h : Inv pkce s) (hrev : Rev s) {a : Act} {k j : ℕ}
    (hj : s.calls[j]? = some (.done (.revoked f))) (hk : (s.act pkce a).calls[k]? = some q)
    (hx : q.issue? = some x) (hf : x.family = f) :
    ∃ q', s.calls[k]? = some q' ∧ q'.issue? = some x := by
  obtain ⟨hst, -, g, hg, -⟩ := hrev.rloc j _ hj
  have hstart : ∀ {t : State} {ph : Phase}, (t.start ph).calls[k]? = some q → t.calls = s.calls → ph.issue? = none →
      ∃ q', s.calls[k]? = some q' ∧ q'.issue? = some x := by
    intro t ph hk hcalls hnone
    obtain ⟨-, rfl⟩ | hk := start_cases hk
    · rw [hnone] at hx
      cases hx
    · rw [hcalls] at hk
      exact ⟨q, hk, hx⟩
  cases a with
  | createAuthorizationCode terms redirectUri codeChallenge scopes now => exact hstart hk rfl rfl
  | exchangeAuthorizationCode c clientId redirectUri codeVerifier now =>
    simp only [State.act, State.exchangeAuthorizationCode] at hk
    split at hk
    · exact hstart hk rfl rfl
    · split at hk
      · exact hstart hk rfl rfl
      · split at hk
        · exact hstart hk rfl rfl
        · split at hk
          · exact hstart hk rfl rfl
          · -- A new exchange starts a family of its own.
            obtain ⟨-, rfl⟩ | hk := start_cases hk
            · cases hx
              obtain ⟨q', z, hq', -⟩ := h.grant f g hg
              have hlt := (List.getElem?_eq_some_iff.mp hq').1
              change s.calls.length = f at hf
              omega
            · exact ⟨q, hk, hx⟩
  | refresh p =>
    simp only [State.act] at hk
    split at hk
    · unfold State.refresh at hk
      split at hk
      · exact hstart hk rfl rfl
      · exact hstart hk rfl rfl
    · exact ⟨q, hk, hx⟩
  | revokeGrant userId f' => exact hstart hk rfl rfl
  | revokeActiveToken userId t => exact hstart hk rfl rfl
  | revoke b hint =>
    simp only [State.act] at hk
    split at hk
    · unfold State.revoke at hk
      split at hk
      · exact hstart hk rfl rfl
      · split at hk
        · exact hstart hk rfl rfl
        · refine hstart hk rfl ?_
          cases b <;> rfl
    · exact ⟨q, hk, hx⟩
  | step i env =>
    obtain hold | ⟨p, l, rt, gr, r, hmark, hfam, hr, hunused⟩ := h.issue_step hk hx
    · exact hold
    · rw [hst.marks k p l rt gr hmark (hfam.symm.trans hf) r hr] at hunused
      cases hunused

/-- A call that is over stays so. -/
theorem Inv.done_act (h : Inv pkce s) (a : Act) {j : ℕ} (hj : s.calls[j]? = some (.done out)) :
    (s.act pkce a).calls[j]? = some (.done out) := by
  cases a with
  | createAuthorizationCode terms redirectUri codeChallenge scopes now => exact start_old (by exact hj)
  | exchangeAuthorizationCode c clientId redirectUri codeVerifier now =>
    simp only [State.act, State.exchangeAuthorizationCode]
    split
    · exact start_old hj
    · split
      · exact start_old hj
      · split
        · exact start_old (by exact hj)
        · split
          · exact start_old (by exact hj)
          · exact start_old (by exact hj)
  | refresh p =>
    simp only [State.act]
    split
    · unfold State.refresh
      split
      · exact start_old hj
      · exact start_old (by exact hj)
    · exact hj
  | revokeGrant userId f' => exact start_old hj
  | revokeActiveToken userId t => exact start_old hj
  | revoke b hint =>
    simp only [State.act]
    split
    · unfold State.revoke
      split
      · exact start_old hj
      · split
        · exact start_old hj
        · exact start_old hj
    · exact hj
  | step i env =>
    simp only [State.act, State.step]
    split
    · exact hj
    next ph hi =>
      obtain hsame | ⟨t, ph', hstep, hdone, hcalls, -⟩ := h.stepPhase_cases env hi
      · rw [hsame]
        exact hj
      · rw [hstep]
        exact putDone hcalls hi hdone hj

/-- In state `t`, that is reached from `s`, the revocation of family `f` holds: every access token
that was issued for it is revoked, and none is issued that was not in the making in `s`. -/
structure Final (s t : State) (f : ℕ) : Prop where
  revoked : ∀ (k : ℕ) (q : Phase) (x : Issue), t.calls[k]? = some q → q.created = true → q.issue? = some x →
    x.family = f → Revoked t k
  last : ∀ (k : ℕ) (q : Phase) (x : Issue), t.calls[k]? = some q → q.issue? = some x → x.family = f →
    ∃ q', s.calls[k]? = some q' ∧ q'.issue? = some x

/-- A run in which every state is orderly, and no code is presented again when a later access token
of its family is live. -/
def Fair (pkce : String → String → Bool) (s : State) : List Act → Prop
  | [] => Orderly s
  | a :: acts => Orderly s ∧ FirstToken s a ∧ Fair pkce (s.act pkce a) acts

variable {acts : List Act}

theorem Fair.act {a : Act} (h : Fair pkce s (a :: acts)) : Fair pkce (s.act pkce a) acts := h.2.2

/-- What is known of the state at the end of a run that is fair. -/
theorem Fair.rev {acts' : List Act} (hfair : Fair pkce s (acts ++ acts')) (h : Inv pkce s)
    (hrev : Rev s) : Inv pkce (acts.foldl (State.act pkce) s) ∧ Rev (acts.foldl (State.act pkce) s) ∧
      Fair pkce (acts.foldl (State.act pkce) s) acts' := by
  induction acts generalizing s with
  | nil => exact ⟨h, hrev, hfair⟩
  | cons a acts ih => exact ih hfair.act (h.act a) (hrev.act h hfair.1 hfair.2.1)

/-- A family that is revoked has no live token. -/
theorem Rev.dead (hrev : Rev s) (h : Inv pkce s) {j k : ℕ}
    (hj : s.calls[j]? = some (.done (.revoked f))) (hk : s.calls[k]? = some q)
    (hcreated : q.created = true) (hx : q.issue? = some x) (hf : x.family = f) : Revoked s k := by
  obtain ⟨-, hstill, g, hg, hactive⟩ := hrev.rloc j _ hj
  obtain hdead | ⟨g', hg', ha⟩ | hmint | ⟨e, n, rfl⟩ := hrev.live k q x hk hcreated hx
  · exact hdead
  · rw [hf, hg] at hg'
    cases hg'
    exact hactive k ha
  · obtain ⟨⟨y, gr⟩, hy⟩ := isSome_iff_exists.mp hmint
    have hxy : x = y := Option.some.inj (hx.symm.trans (Phase.issue?_of_minting? hy))
    exact absurd (by rw [← hxy, hf]) (hstill k q y gr hk hy)
  · -- The grant of the family is there, so its exchange has saved it.
    have hcode : x.source.isCode = true := h.loc k _ hk
    have hown := h.own hk rfl hcode
    rw [hf] at hown
    subst hown
    obtain ⟨q', z, hq', hgranted, -⟩ := h.grant f g hg
    cases hk.symm.trans hq'
    cases hgranted

/-- From the end of a revocation on, nothing is issued for the family. -/
theorem Fair.last (hfair : Fair pkce s acts) (h : Inv pkce s) (hrev : Rev s) {j k : ℕ}
    (hj : s.calls[j]? = some (.done (.revoked f)))
    (hk : (acts.foldl (State.act pkce) s).calls[k]? = some q) (hx : q.issue? = some x)
    (hf : x.family = f) : ∃ q', s.calls[k]? = some q' ∧ q'.issue? = some x := by
  induction acts generalizing s with
  | nil => exact ⟨q, hk, hx⟩
  | cons a acts ih =>
    obtain ⟨q', hq', hx'⟩ := ih hfair.act (h.act a) (hrev.act h hfair.1 hfair.2.1) (h.done_act a hj) hk
    exact h.issue_act hrev hj hq' hx' hf

theorem Inv.done_run (h : Inv pkce s) {j : ℕ} (hj : s.calls[j]? = some (.done out)) :
    (acts.foldl (State.act pkce) s).calls[j]? = some (.done out) := by
  induction acts generalizing s with
  | nil => exact hj
  | cons a acts ih => exact ih (h.act a) (h.done_act a hj)

/-- Once a call has revoked a family, whatever else is going on, no access token of the family is
live and none is issued for it, in that state and in every later one. -/
theorem revocation_is_final (pkce : String → String → Bool) (acts acts' : List Act)
    (hfair : Fair pkce {} (acts ++ acts')) (j f : ℕ) (hj : (run pkce acts).calls[j]? = some (.done (.revoked f))) :
    Final (run pkce acts) (run pkce (acts ++ acts')) f := by
  obtain ⟨h, hrev, hrest⟩ := hfair.rev Inv.init Rev.init
  have hrun : run pkce (acts ++ acts') = acts'.foldl (State.act pkce) (run pkce acts) := foldl_append
  rw [hrun]
  constructor
  · intro k q x hk hcreated hx hf
    have hrest' := hrest
    rw [← append_nil acts'] at hrest'
    obtain ⟨h', hrev', -⟩ := hrest'.rev h hrev
    exact hrev'.dead h' (h.done_run hj) hk hcreated hx hf
  · exact fun k q x hk hx hf => hrest.last h hrev hj hk hx hf

theorem orderly_of_calls (h : ∀ q ∈ s.calls, ∀ q' ∈ s.calls, ∀ f ∈ q.revokes?, ∀ p ∈ q'.minting?, p.1.family ≠ f) :
    Orderly s :=
  fun _ _ q q' f x g hk hl hf hx =>
    h q (mem_of_getElem? hk) q' (mem_of_getElem? hl) f hf (x, g) hx

/-- Call 1 exchanges the code of call 0, for a grant without scopes. -/
def exchanged : List Act :=
  [.createAuthorizationCode ⟨"u", "c", "a", none, .mcp, none⟩ "r" "" [] 0, .exchangeAuthorizationCode 0 "c" "r" "" 0,
    .step 1 ⟨0, true⟩, .step 1 ⟨0, true⟩, .step 1 ⟨0, true⟩, .step 1 ⟨0, true⟩]

/-- Call 2 revokes the grant. -/
def revokedGrant : List Act :=
  [.revokeGrant "u" 1, .step 2 ⟨0, true⟩, .step 2 ⟨0, true⟩, .step 2 ⟨0, true⟩, .step 2 ⟨0, true⟩, .step 2 ⟨0, true⟩]

theorem revocation_is_final_of_grant :
    (run (fun _ _ => true) (exchanged ++ revokedGrant)).calls[2]? = some (.done (.revoked 1)) ∧
      Final (run (fun _ _ => true) (exchanged ++ revokedGrant))
        (run (fun _ _ => true) (exchanged ++ revokedGrant ++ [])) 1 := by
  have hfair : Fair (fun _ _ => true) {} (exchanged ++ revokedGrant ++ []) := by
    refine ⟨orderly_of_calls (by decide), trivial, orderly_of_calls (by decide), fun _ _ _ hno => (by cases hno), ?_⟩
    exact ⟨orderly_of_calls (by decide), trivial, orderly_of_calls (by decide), trivial,
      orderly_of_calls (by decide), trivial, orderly_of_calls (by decide), trivial,
      orderly_of_calls (by decide), trivial, orderly_of_calls (by decide), trivial,
      orderly_of_calls (by decide), trivial, orderly_of_calls (by decide), trivial,
      orderly_of_calls (by decide), trivial, orderly_of_calls (by decide), trivial, orderly_of_calls (by decide)⟩
  have hdone : (run (fun _ _ => true) (exchanged ++ revokedGrant)).calls[2]? = some (.done (.revoked 1)) := by decide
  exact ⟨hdone, revocation_is_final _ _ _ hfair 2 1 hdone⟩

/-- Call 2 refreshes, and then the code is presented again in call 3. -/
def replayed : List Act :=
  [.refresh ⟨.drawn 1, "c", none⟩, .step 2 ⟨0, true⟩, .step 2 ⟨0, true⟩, .step 2 ⟨0, true⟩, .step 2 ⟨0, true⟩,
    .step 2 ⟨0, true⟩, .step 2 ⟨0, true⟩, .step 2 ⟨0, true⟩, .step 2 ⟨0, true⟩,
    .exchangeAuthorizationCode 0 "c" "r" "" 0, .step 3 ⟨0, true⟩, .step 3 ⟨0, true⟩, .step 3 ⟨0, true⟩]

def Phase.over : Phase → Bool
  | .done _ => true
  | _ => false

/-- The replay revokes the family and every call is over, but the access token of the refresh is
live. -/
theorem replay_leaves_token : ¬∀ (pkce : String → String → Bool) (acts acts' : List Act) (j f : ℕ),
    (run pkce acts).calls[j]? = some (.done (.revoked f)) → (∀ q ∈ (run pkce acts).calls, q.over = true) →
    Final (run pkce acts) (run pkce (acts ++ acts')) f := by
  intro hall
  have hfinal := hall (fun _ _ => true) (exchanged ++ replayed) [] 3 1 (by decide) (by decide)
  obtain ⟨token, htoken, hno⟩ := hfinal.revoked 2
    (.done (.issued ⟨.token 1 "c", 1, ⟨"u", "c", "a", none, .mcp, none⟩, [], []⟩)) _ (by decide) rfl rfl rfl
  have hlive : ((run (fun _ _ => true) (exchanged ++ replayed)).tokens 2).all (fun token => token.revokedAt = none) =
      true := by decide
  change (run (fun _ _ => true) (exchanged ++ replayed)).tokens 2 = some token at htoken
  rw [htoken] at hlive
  exact hno (of_decide_eq_true hlive)

end Plur1bus.OAuth
