import Plur1bus.OAuth.Steps

/-!
The invariant holds in every state that the calls of the service can reach, and with it what the
service promises: a code and a refresh token are good for one response each, and from response to
response nothing is added to what was granted.
-/

namespace Plur1bus.OAuth

open Function

variable {pkce : String → String → Bool} {s : State} {i : ℕ}

theorem put_put (t : State) (i : ℕ) (ph ph' : Phase) : (t.put i ph).put i ph' = t.put i ph' := by
  show ({ t with calls := (t.calls.set i ph).set i ph' } : State) = { t with calls := t.calls.set i ph' }
  rw [List.set_set]

/-! ### The steps of a refresh -/

variable {t : State} {ph : Phase}

theorem Inv.refuse (h : Inv pkce s) {token : Secret} {error description : String} (hs : Shrinks s t)
    (htokens : KeepsTokens s t) (hi : s.calls[i]? = some ph) (hdone : ∀ out, ph ≠ .done out)
    (hsaved : ph.saved = false) (hgranted : ph.granted = false) (hup : ph.updating = false) :
    Inv pkce (t.refuse i token error description) :=
  h.quiet hs htokens hi hdone hsaved hgranted hup rfl (fun _ hno => (by cases hno))

variable {p : RefreshParams}

theorem Inv.stepGetRefresh (h : Inv pkce s) (env : Env) (hi : s.calls[i]? = some (.getRefresh p)) :
    Inv pkce (s.stepGetRefresh i env p) := by
  have hrefuse : ∀ {error description : String}, Inv pkce (s.refuse i p.token error description) :=
    h.refuse (Shrinks.of_eq rfl rfl rfl rfl) (KeepsTokens.of_eq rfl) hi (fun _ hno => (by cases hno)) rfl rfl rfl
  unfold State.stepGetRefresh
  split
  · exact hrefuse
  next l rt hfound =>
    split
    · exact hrefuse
    · split
      · exact hrefuse
      next hclient =>
        have hclient' : rt.terms.clientId = p.clientId := Decidable.of_not_not hclient
        refine h.idle hi (fun _ hno => (by cases hno)) rfl rfl rfl rfl ?_
        cases htoken : p.token with
        | other text =>
          rw [htoken] at hfound
          cases hfound
        | drawn l' =>
          rw [htoken] at hfound
          obtain ⟨r, hr, heq⟩ := Option.map_eq_some_iff.mp hfound
          cases heq
          obtain ⟨y, hy⟩ := h.loc i _ hi l htoken
          obtain ⟨hf, ht, hsc⟩ := h.record_of_issued hy hr
          exact ⟨htoken, hclient'.symm, y, hy, hf.symm, ht.symm, hsc.symm⟩

variable {l : ℕ} {rt : RefreshRecord}

theorem Inv.stepGetGrant (h : Inv pkce s) (hi : s.calls[i]? = some (.getGrant p l rt)) :
    Inv pkce (s.stepGetGrant i p l rt) := by
  have hrefuse : ∀ {error description : String}, Inv pkce (s.refuse i p.token error description) :=
    h.refuse (Shrinks.of_eq rfl rfl rfl rfl) (KeepsTokens.of_eq rfl) hi (fun _ hno => (by cases hno)) rfl rfl rfl
  have hrevoke : ∀ {ops : List RevokeOp} {rel : Option Secret} {f : ℕ},
      Inv pkce (s.put i (.revoking ops rel (.revoked f))) :=
    h.idle hi (fun _ hno => (by cases hno)) rfl rfl rfl rfl (fun _ hno => (by cases hno))
  obtain ⟨htoken, hclient, y, hy, hf, ht, hsc⟩ := h.loc i _ hi
  unfold State.stepGetGrant
  split
  · exact hrevoke
  · exact hrevoke
  · exact hrefuse
  next grant _ hg =>
    split
    · exact hrefuse
    · refine h.idle hi (fun _ hno => (by cases hno)) rfl rfl rfl rfl ?_
      refine ⟨htoken, hclient, ?_, ⟨y, hy, hf, ht, hsc⟩, ?_⟩
      · rw [← ht]
        rw [← hf] at hg
        exact h.terms_of_issued hy hg
      · -- The grant has the scopes of the token that is not used.
        intro r hr hunused
        obtain ⟨hrf, -, hrs⟩ := h.record_of_issued hy hr
        obtain ⟨q, hq, hup⟩ | ⟨g', hg', hsc'⟩ := h.scopes l r hr hunused
        · cases hy.symm.trans hq
          cases hup
        · rw [hrf, hf, hg] at hg'
          cases hg'
          exact ⟨hsc'.trans (hrs.trans hsc), grant, hg, rfl⟩

variable {grant : Grant} {scopes : List String}

theorem subset_of_refreshScopes {scope : Option String}
    (h : State.refreshScopes grant scope = .ok scopes) : scopes ⊆ grant.scopes := by
  unfold State.refreshScopes at h
  split at h
  · cases h
    exact List.Subset.refl _
  · split at h
    · cases h
      exact List.Subset.refl _
    · split at h
      · cases h
      next hnone =>
        cases h
        intro x hx
        have hno := List.find?_eq_none.mp hnone x hx
        simpa using hno

theorem markUsed_true (h : s.markUsed l = (t, true)) : ∃ r, s.refreshTokens l = some r ∧ r.used = false ∧
      t = { s with refreshTokens := Function.update s.refreshTokens l (some { r with used := true }) } := by
  unfold State.markUsed at h
  split at h
  · cases h
  next rt hrt => grind

theorem Inv.stepMark (h : Inv pkce s) (hi : s.calls[i]? = some (.mark p l rt grant)) :
    Inv pkce (s.stepMark i p l rt grant) := by
  obtain ⟨htoken, hclient, hterms, ⟨y, hy, hf, ht, hsc⟩, hfit⟩ := h.loc i _ hi
  unfold State.stepMark
  split
  next t hmark =>
    have htok : t.tokens = s.tokens := by
      unfold State.markUsed at hmark
      split at hmark
      · cases hmark
        rfl
      · split at hmark
        · cases hmark
          rfl
        · cases hmark
    exact h.quiet (shrinks_markUsed hmark) (KeepsTokens.of_eq htok) hi (fun _ hno => (by cases hno)) rfl rfl rfl rfl
      (fun _ hno => (by cases hno))
  next t hmark =>
    have hs := shrinks_markUsed hmark
    obtain ⟨r, hr, hunused, rfl⟩ := markUsed_true hmark
    obtain ⟨hgs, g', hg', hact⟩ := hfit r hr hunused
    obtain ⟨hrf, -, -⟩ := h.record_of_issued hy hr
    set t : State := { s with refreshTokens := Function.update s.refreshTokens l (some { r with used := true }) }
    have hrefuse : ∀ {error description : String}, Inv pkce (t.refuse i p.token error description) :=
      h.refuse hs (KeepsTokens.of_eq rfl) hi (fun _ hno => (by cases hno)) rfl rfl rfl
    split
    · exact hrefuse
    next scopes hscopes =>
      split
      · exact hrefuse
      next rbac hrbac =>
        -- The call stands aside, and then begins with what it issues.
        have hu : Inv pkce (t.put i (.release p.token (.found false))) :=
          h.quiet hs (KeepsTokens.of_eq rfl) hi (fun _ hno => (by cases hno)) rfl rfl rfl rfl
            (fun _ hno => (by cases hno))
        have hissued : ∀ {k : ℕ} {z : Issue}, Issued s k z → Issued (t.put i (.release p.token (.found false))) k z :=
          fun hz => hz.put rfl hi (fun _ hno => (by cases hno))
        have hself : (t.put i (.release p.token (.found false))).calls[i]? = some (.release p.token (.found false)) :=
          put_self (t := t) hi
        have hused : ∀ r', t.refreshTokens l = some r' → r'.used = true := by grind
        obtain ⟨z, hz, hzt, hzs, hzc⟩ := h.root_of_issued hy
        rw [← put_put t i (.release p.token (.found false))]
        refine hu.begin hself rfl (fun _ hno => (by cases hno)) rfl rfl rfl rfl ?_ hrbac ?_ ?_ ?_
        · have hsub : scopes ⊆ y.scopes := by
            intro a ha
            rw [hsc, ← hgs]
            exact subset_of_refreshScopes hscopes ha
          refine ⟨hused, ⟨z, ?_, hzt.trans (ht.trans hterms.symm), fun a ha => hzs (hsub ha), hzc⟩, y, hissued hy, hf,
            ht.trans hterms.symm, hsub, ?_⟩
          · rw [← hf]
            exact hissued hz
          · rw [hterms]
            exact hclient.symm
        · -- Nothing was issued for a token that was not used.
          intro k q y' hk hy' hkey
          obtain ⟨rfl, rfl⟩ | ⟨-, hk⟩ := put_cases hk
          · cases hy'
          · have hsourced := h.sourced k q y' hk hy'
            unfold Sourced at hsourced
            cases hsource : y'.source with
            | code c clientId redirectUri codeVerifier =>
              rw [hsource] at hkey
              cases hkey
            | token l' clientId =>
              rw [hsource] at hkey hsourced
              cases hkey
              rw [hsourced.1 r hr] at hunused
              cases hunused
        · intro y' g'' hy'
          cases hy'
          refine ⟨rfl, ?_, ?_⟩
          · intro k r' hr' hfr
            by_contra hno
            obtain ⟨r₀, hr₀, hfr₀, -, -, hu₀⟩ := hs.refresh k r' hr'
            have hkl : k = l := by
              refine h.unused k l r₀ r hr₀ hr (hu₀ (Bool.eq_false_iff.mpr hno)) hunused ?_
              rw [← hfr₀, hfr, hrf, hf]
            subst hkl
            exact hno (hused r' hr')
          · intro k q y' g' hk hy' hfy
            obtain ⟨rfl, rfl⟩ | ⟨-, hk⟩ := put_cases hk
            · cases hy'
            · have hlk : l = k := h.minting k q y' g' hk hy' l r hr (by rw [hrf, hf, hfy]) hunused
              subst hlk
              cases hy.symm.trans hk
              cases hy'
        · exact ⟨rfl, rfl, g', hg', hact⟩

/-! ### Every step -/

variable {ph' : Phase} {x : Issue}

/-- A call that goes on to issue what it is issuing. -/
theorem Inv.goOn (h : Inv pkce s) (hs : Shrinks s t) (htokens : KeepsTokens s t)
    (hi : s.calls[i]? = some ph) (hdone : ∀ out, ph ≠ .done out) (hx : ph.issue? = some x)
    (hx' : ph'.issue? = some x)
    (hminting : ∀ y g, ph'.minting? = some (y, g) → ph.minting? = some (y, g))
    (hsaved : ph.saved = true → ph'.saved = true) (hgranted : ph.granted = true → ph'.granted = true)
    (hnew : ph'.granted = true → x.source.isCode = true → ph.granted = true)
    (hcreated : ph.created = true) (hup : ph.updating = false) (hloc : Local s i ph') :
    Inv pkce (t.put i ph') := by
  have hsame : ph'.issue? = ph.issue? := hx'.trans hx.symm
  refine h.shrink hs hi ⟨.inr hsame, hminting, fun hsv => ⟨hsaved hsv, hsame⟩, fun hgr => ⟨hgranted hgr, hsame⟩,
    hdone, hup⟩ (fun k a _ ha => htokens k a ha) ?_ ?_ (hloc.shrink hs hi hdone)
  · intro y _ hy
    obtain ⟨a, ha, hbears⟩ := h.token i ph y hi hcreated (hsame.symm.trans hy)
    obtain ⟨a', ha', hkeep⟩ := htokens i a ha
    exact ⟨a', ha', hkeep y hbears⟩
  · intro y hgr hy hcode
    cases hx'.symm.trans hy
    exact h.granted i ph x hi (hnew hgr hcode) hx hcode

/-- The access token of a call is created. -/
theorem Inv.createToken (h : Inv pkce s) (now : ℤ) (hi : s.calls[i]? = some ph)
    (hdone : ∀ out, ph ≠ .done out) (hx : ph.issue? = some x) (hx' : ph'.issue? = some x)
    (hminting : ∀ y g, ph'.minting? = some (y, g) → ph.minting? = some (y, g))
    (hsaved : ph.saved = false) (hgranted : ph.granted = false) (hgranted' : ph'.granted = false)
    (hup : ph.updating = false) (hloc : Local s i ph') :
    Inv pkce (({ s with tokens := Function.update s.tokens i (some (State.accessToken x now)) } : State).put i ph') := by
  set t : State := { s with tokens := Function.update s.tokens i (some (State.accessToken x now)) }
  have hs : Shrinks s t := Shrinks.of_eq rfl rfl rfl rfl
  have hsame : ph'.issue? = ph.issue? := hx'.trans hx.symm
  refine h.shrink hs hi ⟨.inr hsame, hminting, ?_, ?_, hdone, hup⟩ ?_ ?_ ?_ (hloc.shrink hs hi hdone)
  · intro hno
    rw [hsaved] at hno
    cases hno
  · intro hno
    rw [hgranted] at hno
    cases hno
  · grind
  · intro y _ hy
    cases hx'.symm.trans hy
    refine ⟨State.accessToken x now, ?_, rfl, rfl, rfl, rfl, rfl⟩
    show Function.update s.tokens i _ i = _
    rw [update_self]
  · intro y hno
    rw [hgranted'] at hno
    cases hno

theorem Inv.stepRevoking (h : Inv pkce s) {ops : List RevokeOp} {rel : Option Secret} {out : Outcome} (env : Env)
    (hi : s.calls[i]? = some (.revoking ops rel out)) : Inv pkce (s.stepRevoking i env ops rel out) := by
  have hout : ∀ x, out ≠ .issued x := h.loc i _ hi
  have hgo : ∀ {t : State} {ops' : List RevokeOp}, Shrinks s t → KeepsTokens s t →
      Inv pkce (t.put i (.revoking ops' rel out)) :=
    fun hs ht => h.quiet hs ht hi (fun _ hno => (by cases hno)) rfl rfl rfl rfl hout
  have hsame : Shrinks s s := Shrinks.of_eq rfl rfl rfl rfl
  unfold State.stepRevoking
  split
  · refine h.quiet (Shrinks.of_eq rfl rfl rfl rfl) (KeepsTokens.of_eq rfl) hi (fun _ hno => (by cases hno))
      rfl rfl rfl ?_ trivial
    cases out with
    | issued x => exact absurd rfl (hout x)
    | _ => rfl
  next f ops => exact hgo (shrinks_revokeFamily f env.now) (KeepsTokens.of_eq rfl)
  next f ops =>
    split
    · exact hgo hsame (KeepsTokens.of_eq rfl)
    · exact hgo hsame (KeepsTokens.of_eq rfl)
  next userId t ops =>
    exact hgo (Shrinks.of_eq rfl rfl rfl rfl) (keepsTokens_revokeToken userId t env.now)
  next f ops => exact hgo (shrinks_stampGrant f env.now) (KeepsTokens.of_eq rfl)

theorem Inv.revokeFound (h : Inv pkce s) {next : Phase} {b : Bearer} (hi : s.calls[i]? = some ph)
    (hdone : ∀ out, ph ≠ .done out) (hnone : ph.issue? = none) (hnext : next.issue? = none)
    (hloc : Local s i next) : Inv pkce (s.revokeFound i b next) := by
  obtain ⟨hsaved, hgranted, -, hup, -⟩ := Phase.of_issue?_none hnone
  unfold State.revokeFound
  split
  · exact h.idle hi hdone hsaved hgranted hup rfl (fun _ hno => (by cases hno))
  · exact h.idle hi hdone hsaved hgranted hup hnext hloc

theorem Inv.step (h : Inv pkce s) (i : ℕ) (env : Env) : Inv pkce (s.step i env) := by
  unfold State.step
  split
  · exact h
  next ph hi =>
    -- A call that only looks something up, and goes on to another look or to a revocation.
    have hidle : ∀ {ph' : Phase}, (∀ out, ph ≠ .done out) → ph.issue? = none → ph'.issue? = none → Local s i ph' →
        Inv pkce (s.put i ph') := by
      intro ph' hdone hnone hnone' hloc
      obtain ⟨hsaved, hgranted, -, hup, -⟩ := Phase.of_issue?_none hnone
      exact h.idle hi hdone hsaved hgranted hup hnone' hloc
    have hsame : Shrinks s s := Shrinks.of_eq rfl rfl rfl rfl
    cases ph with
    | create x codeExpires =>
      have hcode : x.source.isCode = true := h.loc i _ hi
      simp only [State.stepPhase]
      split
      · exact h.createToken env.now hi (fun _ hno => (by cases hno)) rfl rfl (fun _ _ hno => (by cases hno)) rfl rfl rfl
          rfl hcode
      · exact h.idle hi (fun _ hno => (by cases hno)) rfl rfl rfl rfl trivial
    | saveGrant x codeExpires now => exact h.saveGrant hi
    | saveFirst x codeExpires now => exact h.saveFirst hi
    | finishExchange x codeExpires =>
      simp only [State.stepPhase]
      split
      · exact h.goOn (Shrinks.of_eq rfl rfl rfl rfl) (KeepsTokens.of_eq rfl) hi (fun _ hno => (by cases hno)) rfl rfl
          (fun _ _ hno => (by cases hno)) (fun _ => rfl) (fun _ => rfl) (fun _ _ => rfl) rfl rfl trivial
      · exact h
    | getRefresh p => exact h.stepGetRefresh env hi
    | getGrant p l rt => exact h.stepGetGrant hi
    | mark p l rt grant => exact h.stepMark hi
    | mint x grant =>
      have hloc := h.loc i _ hi
      simp only [State.stepPhase]
      split
      · exact h.createToken env.now hi (fun _ hno => (by cases hno)) rfl rfl (fun _ _ hy => hy) rfl rfl rfl rfl hloc
      · split
        · exact h.refuse hsame (KeepsTokens.of_eq rfl) hi (fun _ hno => (by cases hno)) rfl rfl rfl
        · exact h
    | revokeOld x grant =>
      have hloc := h.loc i _ hi
      simp only [State.stepPhase]
      split
      · exact h.goOn hsame (KeepsTokens.of_eq rfl) hi (fun _ hno => (by cases hno)) rfl rfl (fun _ _ hy => hy)
          (fun hno => (by cases hno)) (fun hno => (by cases hno)) (fun hno => (by cases hno)) rfl rfl hloc
      next t _ =>
        exact h.goOn (Shrinks.of_eq rfl rfl rfl rfl) (keepsTokens_revokeToken _ t env.now) hi
          (fun _ hno => (by cases hno)) rfl rfl (fun _ _ hy => hy)
          (fun hno => (by cases hno)) (fun hno => (by cases hno)) (fun hno => (by cases hno)) rfl rfl hloc
    | saveNext x grant => exact h.saveNext hi
    | update x grant now => exact h.update hi
    | finishRefresh x grant =>
      have hcode : x.source.isCode = false := h.loc i _ hi
      simp only [State.stepPhase]
      split
      · refine h.goOn (Shrinks.of_eq rfl rfl rfl rfl) (KeepsTokens.of_eq rfl) hi (fun _ hno => (by cases hno)) rfl rfl
          (fun _ _ hno => (by cases hno)) (fun _ => rfl) (fun _ => rfl) ?_ rfl rfl trivial
        intro _ hno
        rw [hcode] at hno
        cases hno
      · exact h
    | concurrent p =>
      simp only [State.stepPhase]
      split
      · exact hidle (fun _ hno => (by cases hno)) rfl rfl trivial
      · exact hidle (fun _ hno => (by cases hno)) rfl rfl (fun _ hno => (by cases hno))
    | lookupGrant userId f =>
      simp only [State.stepPhase]
      split
      · exact hidle (fun _ hno => (by cases hno)) rfl rfl trivial
      · split
        · exact hidle (fun _ hno => (by cases hno)) rfl rfl trivial
        · exact hidle (fun _ hno => (by cases hno)) rfl rfl (fun _ hno => (by cases hno))
    | lookupActive userId t => exact hidle (fun _ hno => (by cases hno)) rfl rfl (fun _ hno => (by cases hno))
    | revokeFirst b =>
      refine h.revokeFound hi (fun _ hno => (by cases hno)) rfl ?_ ?_
      · cases b <;> rfl
      · cases b <;> trivial
    | authenticate b =>
      simp only [State.stepPhase]
      split
      · split
        · exact hidle (fun _ hno => (by cases hno)) rfl rfl trivial
        · exact hidle (fun _ hno => (by cases hno)) rfl rfl trivial
      · exact hidle (fun _ hno => (by cases hno)) rfl rfl trivial
    | listGrants b t =>
      simp only [State.stepPhase]
      split
      · exact hidle (fun _ hno => (by cases hno)) rfl rfl trivial
      · split
        · exact hidle (fun _ hno => (by cases hno)) rfl rfl trivial
        · exact hidle (fun _ hno => (by cases hno)) rfl rfl (fun _ hno => (by cases hno))
    | revokeLast b => exact h.revokeFound hi (fun _ hno => (by cases hno)) rfl rfl trivial
    | revoking ops rel out => exact h.stepRevoking env hi
    | release token out =>
      have hout : ∀ x, out ≠ .issued x := h.loc i _ hi
      refine h.quiet (Shrinks.of_eq rfl rfl rfl rfl) (KeepsTokens.of_eq rfl) hi (fun _ hno => (by cases hno))
        rfl rfl rfl ?_ trivial
      cases out with
      | issued x => exact absurd rfl (hout x)
      | _ => rfl
    | done out => exact h

/-! ### New calls -/

theorem start_put (t : State) (ph ph' : Phase) : (t.start ph).put t.calls.length ph' = t.start ph' := by
  show ({ t with calls := (t.calls ++ [ph]).set t.calls.length ph' } : State) = { t with calls := t.calls ++ [ph'] }
  rw [List.set_append_right _ _ (Nat.le_refl _), Nat.sub_self]
  rfl

theorem start_cases {q : Phase} {k : ℕ} (h : (t.start ph).calls[k]? = some q) :
    (k = t.calls.length ∧ q = ph) ∨ t.calls[k]? = some q := by
  grind [State.start]

theorem start_old {q : Phase} {k : ℕ} (h : t.calls[k]? = some q) : (t.start ph).calls[k]? = some q := by
  show (t.calls ++ [ph])[k]? = some q
  rw [List.getElem?_append_left (List.getElem?_eq_some_iff.mp h).1]
  exact h

theorem start_self (t : State) (ph : Phase) : (t.start ph).calls[t.calls.length]? = some ph := by
  show (t.calls ++ [ph])[t.calls.length]? = some ph
  rw [List.getElem?_append_right (Nat.le_refl _), Nat.sub_self]
  rfl

/-- A new call, that issues nothing yet. -/
theorem Inv.start (h : Inv pkce s) (hcalls : t.calls = s.calls)
    (hcodes : ∀ c < s.calls.length, s.codes c = none → t.codes c = none)
    (hcode : ∀ c record, t.codes c = some record → (t.start ph).calls[c]? = some (.done (.code record)))
    (hrefresh : t.refreshTokens = s.refreshTokens) (hgrants : t.grants = s.grants)
    (htokens : t.tokens = s.tokens) (hnone : ph.issue? = none) (hloc : Local s s.calls.length ph) :
    Inv pkce (t.start ph) := by
  obtain ⟨hsaved, hgranted, hcreated, hup, hmint⟩ := Phase.of_issue?_none hnone
  have hold : ∀ {k : ℕ} {q : Phase}, s.calls[k]? = some q → (t.start ph).calls[k]? = some q := by
    intro k q hk
    rw [← hcalls] at hk
    exact start_old hk
  have hcases : ∀ {k : ℕ} {q : Phase}, (t.start ph).calls[k]? = some q →
      (k = s.calls.length ∧ q = ph) ∨ s.calls[k]? = some q := by
    intro k q hk
    have hk' := start_cases hk
    rw [hcalls] at hk'
    exact hk'
  have hissue : ∀ {k : ℕ} {q : Phase} {x : Issue}, (t.start ph).calls[k]? = some q → q.issue? = some x →
      s.calls[k]? = some q := by
    intro k q x hk hx
    obtain ⟨-, rfl⟩ | hk := hcases hk
    · rw [hnone] at hx
      cases hx
    · exact hk
  have hminting : ∀ {k : ℕ} {q : Phase} {p : Issue × Grant}, (t.start ph).calls[k]? = some q → q.minting? = some p →
      s.calls[k]? = some q := by
    intro k q p hk hp
    obtain ⟨-, rfl⟩ | hk := hcases hk
    · rw [hmint] at hp
      cases hp
    · exact hk
  have hissued : ∀ (k : ℕ) (y : Issue), Issued s k y → Issued (t.start ph) k y := fun k y hy => hold hy
  have hkeep : ∀ {k : ℕ} {q : Phase}, Local s k q → Local (t.start ph) k q := by
    intro k q hl
    refine hl.keep hissued ?_ ?_
    · intro l y r' _ hr' hunused
      refine ⟨r', ?_, hunused⟩
      rw [← hrefresh]
      exact hr'
    · intro f g _ hg
      refine ⟨g, ?_, rfl, rfl⟩
      show t.grants f = some g
      rw [hgrants]
      exact hg
  have hr : ∀ {k : ℕ} {r : RefreshRecord}, (t.start ph).refreshTokens k = some r → s.refreshTokens k = some r := by
    intro k r hr
    rw [← hrefresh]
    exact hr
  constructor
  case code => exact hcode
  case sourced =>
    intro k q x hk hx
    have hsourced := h.sourced k q x (hissue hk hx) hx
    unfold Sourced at hsourced ⊢
    cases hsource : x.source with
    | code c clientId redirectUri codeVerifier =>
      rw [hsource] at hsourced
      obtain ⟨hfamily, hno, record, hrecord, hrest⟩ := hsourced
      exact ⟨hfamily, hcodes c (List.getElem?_eq_some_iff.mp hrecord).1 hno, record, hold hrecord, hrest⟩
    | token l clientId => grind
  case rbac => exact fun k q x hk hx => h.rbac k q x (hissue hk hx) hx
  case once => exact fun k l q q' x y hk hl hx hy => h.once k l q q' x y (hissue hk hx) (hissue hl hy) hx hy
  case loc =>
    intro k q hk
    obtain ⟨rfl, rfl⟩ | hk := hcases hk
    · exact hkeep hloc
    · exact hkeep (h.loc k q hk)
  case token =>
    intro k q x hk hcr hx
    obtain ⟨a, ha, hbears⟩ := h.token k q x (hissue hk hx) hcr hx
    refine ⟨a, ?_, hbears⟩
    show t.tokens k = some a
    rw [htokens]
    exact ha
  case refresh =>
    intro k r hr'
    obtain ⟨q, y, hq, hrest⟩ := h.refresh k r (hr hr')
    exact ⟨q, y, hold hq, hrest⟩
  case unused => exact fun k l r r' hk hl => h.unused k l r r' (hr hk) (hr hl)
  case minting => exact fun k q x g hk hx l r hl => h.minting k q x g (hminting hk hx) hx l r (hr hl)
  case alone =>
    exact fun k l q q' x y g g' hk hl hx hy => h.alone k l q q' x y g g' (hminting hk hx) (hminting hl hy) hx hy
  case grant =>
    intro f g hg
    change t.grants f = some g at hg
    rw [hgrants] at hg
    obtain ⟨q, z, hq, hrest⟩ := h.grant f g hg
    exact ⟨q, z, hold hq, hrest⟩
  case granted =>
    intro k q x hk hgr hx hcode
    obtain ⟨g, hg⟩ := h.granted k q x (hissue hk hx) hgr hx hcode
    refine ⟨g, ?_⟩
    show t.grants k = some g
    rw [hgrants]
    exact hg
  case scopes =>
    intro k r hr' hunused
    obtain ⟨q, hq, hu⟩ | ⟨g, hg, hsc⟩ := h.scopes k r (hr hr') hunused
    · exact .inl ⟨q, hold hq, hu⟩
    · refine .inr ⟨g, ?_, hsc⟩
      show t.grants r.family = some g
      rw [hgrants]
      exact hg

/-- A new call, with the store as it was. -/
theorem Inv.startCall (h : Inv pkce s) (hcalls : t.calls = s.calls) (hcodes : t.codes = s.codes)
    (hrefresh : t.refreshTokens = s.refreshTokens) (hgrants : t.grants = s.grants)
    (htokens : t.tokens = s.tokens) (hnone : ph.issue? = none) (hloc : Local s s.calls.length ph) :
    Inv pkce (t.start ph) := by
  refine h.start hcalls (fun c _ hc => (by rw [hcodes]; exact hc)) ?_ hrefresh hgrants htokens hnone hloc
  intro c record hc
  rw [hcodes] at hc
  apply start_old
  rw [hcalls]
  exact h.code c record hc

theorem Inv.createAuthorizationCode (h : Inv pkce s) (terms : Terms) (redirectUri codeChallenge : String)
    (scopes : List String) (now : ℤ) :
    Inv pkce (s.createAuthorizationCode terms redirectUri codeChallenge scopes now) := by
  refine h.start rfl ?_ ?_ rfl rfl rfl rfl trivial
  · grind
  · intro c record hrecord
    change Function.update s.codes s.calls.length _ c = some record at hrecord
    by_cases hc : c = s.calls.length
    · subst hc
      rw [update_self] at hrecord
      cases hrecord
      exact start_self _ _
    · rw [update_of_ne hc] at hrecord
      exact start_old (h.code c record hrecord)

theorem Inv.exchange (h : Inv pkce s) (c : ℕ) (clientId redirectUri codeVerifier : String) (now : ℤ) :
    Inv pkce (s.exchangeAuthorizationCode pkce c clientId redirectUri codeVerifier now) := by
  unfold State.exchangeAuthorizationCode
  split
  · exact h.startCall rfl rfl rfl rfl rfl rfl (fun _ hno => (by cases hno))
  · split
    · exact h.startCall rfl rfl rfl rfl rfl rfl trivial
    next record hrecord =>
      dsimp only
      set t : State := { s with codes := Function.update s.codes c none } with ht
      have hstart : ∀ {ph : Phase}, ph.issue? = none → Local s s.calls.length ph → Inv pkce (t.start ph) := by
        intro ph hnone hloc
        refine h.start rfl ?_ ?_ rfl rfl rfl hnone hloc
        · grind
        · intro k record' hrecord'
          change Function.update s.codes c none k = some record' at hrecord'
          by_cases hk : k = c
          · rw [hk, update_self] at hrecord'
            cases hrecord'
          · rw [update_of_ne hk] at hrecord'
            exact start_old (t := t) (h.code k record' hrecord')
      split
      · exact hstart rfl trivial
      next hredeem =>
        split
        · exact hstart rfl trivial
        next rbac hrbac =>
          have hu : Inv pkce (t.start (.release (.other "") (.found false))) :=
            hstart rfl (fun _ hno => (by cases hno))
          rw [← start_put t (.release (.other "") (.found false))]
          refine hu.begin (start_self t _) rfl (fun _ hno => (by cases hno)) rfl rfl rfl rfl ?_ hrbac ?_
            (fun _ _ hno => (by cases hno)) rfl
          · unfold State.redeem at hredeem
            split at hredeem
            · cases hredeem
            · split at hredeem
              · cases hredeem
              next hclient =>
                split at hredeem
                · cases hredeem
                next huri =>
                  split at hredeem
                  next hpkce =>
                    refine ⟨rfl, ?_, record, start_old (t := t) (h.code c record hrecord), rfl, rfl,
                      Decidable.of_not_not hclient, Decidable.of_not_not huri, hpkce⟩
                    show Function.update s.codes c none c = none
                    rw [update_self]
                  · cases hredeem
          · -- The code was there, so nothing was issued for it.
            intro k q y hk hy hkey
            obtain ⟨-, rfl⟩ | hk := start_cases hk
            · cases hy
            · have hsourced := h.sourced k q y hk hy
              unfold Sourced at hsourced
              cases hsource : y.source with
              | code c' _ _ _ =>
                rw [hsource] at hkey hsourced
                cases hkey
                have hno := hsourced.2.1
                rw [hrecord] at hno
                cases hno
              | token l _ =>
                rw [hsource] at hkey
                cases hkey

theorem handed_drawn (h : s.handed (.drawn l) = true) : ∃ y, Issued s l y := by
  unfold State.handed at h
  dsimp only at h
  split at h
  next y hy => exact ⟨y, hy⟩
  · cases h

theorem Inv.act (h : Inv pkce s) (a : Act) : Inv pkce (s.act pkce a) := by
  cases a with
  | createAuthorizationCode terms redirectUri codeChallenge scopes now =>
    exact h.createAuthorizationCode terms redirectUri codeChallenge scopes now
  | exchangeAuthorizationCode c clientId redirectUri codeVerifier now =>
    exact h.exchange c clientId redirectUri codeVerifier now
  | refresh p =>
    simp only [State.act]
    split
    next hhanded =>
      have hloc : ∀ l, p.token = .drawn l → ∃ y, Issued s l y := by
        intro l hl
        rw [hl] at hhanded
        exact handed_drawn hhanded
      unfold State.refresh
      split
      · exact h.startCall rfl rfl rfl rfl rfl rfl hloc
      · exact h.startCall rfl rfl rfl rfl rfl rfl hloc
    · exact h
  | revokeGrant userId f => exact h.startCall rfl rfl rfl rfl rfl rfl trivial
  | revokeActiveToken userId t => exact h.startCall rfl rfl rfl rfl rfl rfl trivial
  | revoke b hint =>
    simp only [State.act]
    split
    · unfold State.revoke
      split
      · exact h.startCall rfl rfl rfl rfl rfl rfl trivial
      · split
        · exact h.startCall rfl rfl rfl rfl rfl rfl trivial
        · refine h.startCall rfl rfl rfl rfl rfl ?_ ?_
          · cases b <;> rfl
          · cases b <;> trivial
    · exact h
  | step i env => exact h.step i env

theorem Inv.init : Inv pkce {} := by
  constructor
  all_goals intros
  all_goals contradiction

theorem inv_run (pkce : String → String → Bool) (acts : List Act) : Inv pkce (run pkce acts) := by
  have hkeep : ∀ s : State, Inv pkce s → Inv pkce (acts.foldl (State.act pkce) s) := by
    induction acts with
    | nil => exact fun s hs => hs
    | cons a acts ih => exact fun s hs => ih _ (hs.act a)
  exact hkeep {} Inv.init

/-! ### What the service promises -/

/-- What was answered so far, and what is in the store, in a state of the service. -/
structure Narrowing (pkce : String → String → Bool) (s : State) : Prop where
  /-- A code and a refresh token are good for one response. -/
  once : ∀ (i j : ℕ) (x y : Issue), Issued s i x → Issued s j y → x.source.key = y.source.key → i = j
  /-- A response for a code is for what the code is for, to the client that fits it. -/
  exchanged : ∀ (i : ℕ) (x : Issue) (c : ℕ) (clientId redirectUri codeVerifier : String), Issued s i x →
    x.source = .code c clientId redirectUri codeVerifier → ∃ record, s.calls[c]? = some (.done (.code record)) ∧
      x.terms = record.terms ∧ x.scopes = record.scopes ∧ record.terms.clientId = clientId ∧
      record.redirectUri = redirectUri ∧ pkce codeVerifier record.codeChallenge = true
  /-- A response for a refresh token narrows the response that handed it out. -/
  refreshed : ∀ (i : ℕ) (x : Issue) (h : ℕ) (clientId : String), Issued s i x → x.source = .token h clientId →
    ∃ y, Issued s h y ∧ y.family = x.family ∧ y.terms = x.terms ∧ x.scopes ⊆ y.scopes ∧ x.terms.clientId = clientId
  /-- A family starts with the response for a code. -/
  started : ∀ (i : ℕ) (x : Issue), Issued s i x → ∃ z, Issued s x.family z ∧ z.source.isCode = true ∧
    z.terms = x.terms ∧ x.scopes ⊆ z.scopes
  /-- The access token is for the same, with the actions of the scopes. -/
  token : ∀ (i : ℕ) (x : Issue), Issued s i x → ∃ a, s.tokens i = some a ∧ a.userId = x.terms.userId ∧
    a.audience = x.terms.audience ∧ a.agentId = trim x.terms.agentId ∧ a.projectId = x.terms.projectId.map trim ∧
    ∀ action, action ∈ a.scopes ↔ ∃ scope ∈ x.scopes, action ∈ actionsOf scope
  unused : ∀ (h h' : ℕ) (r r' : RefreshRecord), s.refreshTokens h = some r → s.refreshTokens h' = some r' →
    r.used = false → r'.used = false → r.family = r'.family → h = h'

theorem rbac_eq {audience : Audience} {rbac : List String}
    (h : tokenScopesForGrant audience scopes = .ok rbac) : rbac = scopes.flatMap actionsOf := by
  unfold tokenScopesForGrant validateAudienceScopes at h
  split at h
  · cases h
  · cases h
    rfl

/-- Grants only narrow and every credential works once, whatever the calls and their order. -/
theorem grants_narrow (pkce : String → String → Bool) (acts : List Act) : Narrowing pkce (run pkce acts) := by
  have h := inv_run pkce acts
  refine ⟨?_, ?_, ?_, ?_, ?_, h.unused⟩
  · exact fun i j x y hi hj hkey => h.once i j _ _ x y hi hj rfl rfl hkey
  · intro i x c clientId redirectUri codeVerifier hi hsource
    have hsourced := h.sourced i _ x hi rfl
    unfold Sourced at hsourced
    rw [hsource] at hsourced
    exact hsourced.2.2
  · intro i x l clientId hi hsource
    have hsourced := h.sourced i _ x hi rfl
    unfold Sourced at hsourced
    rw [hsource] at hsourced
    exact hsourced.2.2
  · intro i x hi
    obtain ⟨z, hz, hterms, hscopes, hcode⟩ := h.root_of_issued hi
    exact ⟨z, hz, hcode, hterms, hscopes⟩
  · intro i x hi
    obtain ⟨a, ha, huser, hscopes, haudience, hagent, hproject⟩ := h.token i _ x hi rfl rfl
    refine ⟨a, ha, huser, haudience, hagent, hproject, ?_⟩
    intro action
    rw [hscopes, List.mem_eraseDups, rbac_eq (h.rbac i _ x hi rfl), List.mem_flatMap]

end Plur1bus.OAuth
