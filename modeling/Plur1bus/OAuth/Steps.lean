import Plur1bus.OAuth.Families

/-!
Every step keeps the invariant. Most steps add nothing to the store; those that do save a refresh
token, save a grant, or update one.
-/

namespace Plur1bus.OAuth

open Function

variable {pkce : String → String → Bool} {s : State} {i : ℕ} {ph ph' : Phase} {x : Issue}

/-! ### Saving a refresh token -/

/-- A call saves the refresh token that it issues, when its family has none that is not used. -/
theorem Inv.save (h : Inv pkce s) {rec : RefreshRecord} (hi : s.calls[i]? = some ph) (hx : ph.issue? = some x)
    (hx' : ph'.issue? = some x) (hdone : ∀ out, ph ≠ .done out) (hsaved : ph'.saved = true) (hcreated : ph.created = true)
    (hrec : rec.family = x.family ∧ rec.terms = x.terms ∧ rec.scopes = x.scopes)
    (hminting : ∀ y g, ph'.minting? = some (y, g) → ph.minting? = some (y, g))
    (hgranted : ph'.granted = ph.granted)
    (hfree : ∀ (l : ℕ) (r : RefreshRecord), s.refreshTokens l = some r → r.family = x.family → r.used = true)
    (hothers : ∀ (k : ℕ) (q : Phase) (y : Issue) (g : Grant), s.calls[k]? = some q → q.minting? = some (y, g) →
      y.family = x.family → k = i)
    (hscopes : ph'.updating = true ∨ ∃ g, s.grants x.family = some g ∧ g.scopes = x.scopes)
    (hloc : Local (({ s with refreshTokens := Function.update s.refreshTokens i (some rec) } : State).put i ph') i ph') :
    Inv pkce (({ s with refreshTokens := Function.update s.refreshTokens i (some rec) } : State).put i ph') := by
  set t : State := { s with refreshTokens := Function.update s.refreshTokens i (some rec) }
  have hissued : ∀ (l : ℕ) (y : Issue), Issued s l y → Issued (t.put i ph') l y :=
    fun l y hy => hy.put rfl hi hdone
  -- A token that was handed out is another one.
  have hother : ∀ {l : ℕ} {y : Issue}, Issued s l y → t.refreshTokens l = s.refreshTokens l := by
    intro l y hy
    have hne : l ≠ i := by
      rintro rfl
      exact hdone _ (Option.some.inj (hi.symm.trans hy))
    exact update_of_ne hne _ _
  have hcases : ∀ {l : ℕ} {r : RefreshRecord}, t.refreshTokens l = some r →
      (l = i ∧ r = rec) ∨ (l ≠ i ∧ s.refreshTokens l = some r) := by
    intro l r hr
    by_cases hl : l = i
    · subst hl
      change Function.update s.refreshTokens l (some rec) l = some r at hr
      rw [update_self] at hr
      exact .inl ⟨rfl, (Option.some.inj hr).symm⟩
    · change Function.update s.refreshTokens i (some rec) l = some r at hr
      rw [update_of_ne hl] at hr
      exact .inr ⟨hl, hr⟩
  have hissue : ∀ {k : ℕ} {q : Phase} {y : Issue}, (t.put i ph').calls[k]? = some q → q.issue? = some y →
      ∃ q', s.calls[k]? = some q' ∧ q'.issue? = some y := by
    intro k q y hk hy
    obtain ⟨rfl, rfl⟩ | ⟨-, hk⟩ := put_cases hk
    · exact ⟨ph, hi, hx.trans (hx'.symm.trans hy)⟩
    · exact ⟨q, hk, hy⟩
  have hmint : ∀ {k : ℕ} {q : Phase} {y : Issue} {g : Grant}, (t.put i ph').calls[k]? = some q →
      q.minting? = some (y, g) → ∃ q', s.calls[k]? = some q' ∧ q'.minting? = some (y, g) := by
    intro k q y g hk hy
    obtain ⟨rfl, rfl⟩ | ⟨-, hk⟩ := put_cases hk
    · exact ⟨ph, hi, hminting y g hy⟩
    · exact ⟨q, hk, hy⟩
  constructor
  case code => exact fun c record hrecord => putDone rfl hi hdone (h.code c record hrecord)
  case sourced =>
    intro k q y hk hy
    obtain ⟨q', hk', hy'⟩ := hissue hk hy
    have hold := h.sourced k q' y hk' hy'
    unfold Sourced at hold ⊢
    cases hsource : y.source with
    | code c clientId redirectUri codeVerifier =>
      rw [hsource] at hold
      obtain ⟨hfamily, hcode, record, hrecord, hrest⟩ := hold
      exact ⟨hfamily, hcode, record, putDone rfl hi hdone hrecord, hrest⟩
    | token l clientId =>
      rw [hsource] at hold
      obtain ⟨hused, ⟨z, hz, hterms⟩, y', hy', hrest⟩ := hold
      refine ⟨?_, ⟨z, hissued _ z hz, hterms⟩, y', hissued l y' hy', hrest⟩
      intro r hr
      change t.refreshTokens l = some r at hr
      rw [hother hy'] at hr
      exact hused r hr
  case rbac =>
    intro k q y hk hy
    obtain ⟨q', hk', hy'⟩ := hissue hk hy
    exact h.rbac k q' y hk' hy'
  case once =>
    intro k l q q' y y' hk hl hy hy' hkey
    obtain ⟨q₀, hk₀, hy₀⟩ := hissue hk hy
    obtain ⟨q₁, hl₁, hy₁⟩ := hissue hl hy'
    exact h.once k l q₀ q₁ y y' hk₀ hl₁ hy₀ hy₁ hkey
  case loc =>
    intro k q hk
    obtain ⟨rfl, rfl⟩ | ⟨-, hk⟩ := put_cases hk
    · exact hloc
    · refine (h.loc k q hk).keep hissued ?_ (fun f g _ hg => ⟨g, hg, rfl, rfl⟩)
      intro l y r' hy hr' hunused
      change t.refreshTokens l = some r' at hr'
      rw [hother hy] at hr'
      exact ⟨r', hr', hunused⟩
  case token =>
    intro k q y hk hcr hy
    obtain ⟨rfl, rfl⟩ | ⟨-, hk⟩ := put_cases hk
    · exact h.token k ph y hi hcreated (hx.trans (hx'.symm.trans hy))
    · exact h.token k q y hk hcr hy
  case refresh =>
    intro l r hr
    obtain ⟨rfl, rfl⟩ | ⟨hne, hr⟩ := hcases hr
    · exact ⟨ph', x, put_self hi, hsaved, hx', hrec⟩
    · obtain ⟨q, y, hq, hrest⟩ := h.refresh l r hr
      exact ⟨q, y, put_other hne hq, hrest⟩
  case unused =>
    intro l l' r r' hr hr' hunused hunused' hfamily
    obtain ⟨rfl, rfl⟩ | ⟨-, hl⟩ := hcases hr
    · obtain ⟨rfl, -⟩ | ⟨-, hl'⟩ := hcases hr'
      · rfl
      · rw [hfree l' r' hl' (hfamily.symm.trans hrec.1)] at hunused'
        cases hunused'
    · obtain ⟨rfl, rfl⟩ | ⟨-, hl'⟩ := hcases hr'
      · rw [hfree l r hl (hfamily.trans hrec.1)] at hunused
        cases hunused
      · exact h.unused l l' r r' hl hl' hunused hunused' hfamily
  case minting =>
    intro k q y g hk hy l r hr hfamily hunused
    obtain ⟨q', hk', hy'⟩ := hmint hk hy
    obtain ⟨rfl, rfl⟩ | ⟨-, hr⟩ := hcases hr
    · exact (hothers k q' y g hk' hy' (hfamily.symm.trans hrec.1)).symm
    · exact h.minting k q' y g hk' hy' l r hr hfamily hunused
  case alone =>
    intro k l q q' y y' g g' hk hl hy hy' hfamily
    obtain ⟨q₀, hk₀, hy₀⟩ := hmint hk hy
    obtain ⟨q₁, hl₁, hy₁⟩ := hmint hl hy'
    exact h.alone k l q₀ q₁ y y' g g' hk₀ hl₁ hy₀ hy₁ hfamily
  case grant =>
    intro f g hg
    obtain ⟨q, z, hq, hgr, hz, hrest⟩ := h.grant f g hg
    by_cases hf : f = i
    · subst hf
      cases hi.symm.trans hq
      exact ⟨ph', z, put_self hi, hgranted.trans hgr, hx'.trans (hx.symm.trans hz), hrest⟩
    · exact ⟨q, z, put_other hf hq, hgr, hz, hrest⟩
  case granted =>
    intro k q y hk hgr hy hcode
    obtain ⟨rfl, rfl⟩ | ⟨-, hk⟩ := put_cases hk
    · exact h.granted k ph y hi (hgranted.symm.trans hgr) (hx.trans (hx'.symm.trans hy)) hcode
    · exact h.granted k q y hk hgr hy hcode
  case scopes =>
    intro l r hr hunused
    obtain ⟨rfl, rfl⟩ | ⟨hne, hr⟩ := hcases hr
    · obtain hup | ⟨g, hg, hsc⟩ := hscopes
      · exact .inl ⟨ph', put_self hi, hup⟩
      · refine .inr ⟨g, ?_, hsc.trans hrec.2.2.symm⟩
        rw [hrec.1]
        exact hg
    · obtain ⟨q, hq, hup⟩ | hg := h.scopes l r hr hunused
      · exact .inl ⟨q, put_other hne hq, hup⟩
      · exact .inr hg

/-! ### Grants -/

/-- Changes of the grants alone. `hothers` is that no call relies on what changes, and `hkeep` that
the grants stay what they are but for their scopes and their active token. -/
theorem Inv.setGrants (h : Inv pkce s) {grants : ℕ → Option Grant} (hi : s.calls[i]? = some ph)
    (hx : ph.issue? = some x) (hx' : ph'.issue? = some x) (hdone : ∀ out, ph ≠ .done out)
    (hsaved : ph'.saved = ph.saved) (hcreated : ph.created = true)
    (hminting : ∀ y g, ph'.minting? = some (y, g) → ph.minting? = some (y, g))
    (hgranted : ph.granted = true → ph'.granted = true)
    (hnew : ph'.granted = true → x.source.isCode = true → ∃ g, grants i = some g)
    (hgrant : ∀ (f : ℕ) (g' : Grant), grants f = some g' →
      (f = i ∧ ph'.granted = true ∧ x.source.isCode = true ∧ g'.terms = x.terms) ∨
      ∃ g, s.grants f = some g ∧ g'.terms = g.terms)
    (hkeep : ∀ (f : ℕ) (g : Grant), s.grants f = some g → ∃ g', grants f = some g')
    (hothers : ∀ (k : ℕ) (q : Phase) (f : ℕ) (g : Grant), k ≠ i → s.calls[k]? = some q → Relies s k q f →
      s.grants f = some g → ∃ g', grants f = some g' ∧ g'.scopes = g.scopes ∧ g'.activeTokenId = g.activeTokenId)
    (hscopes : ∀ (l : ℕ) (r : RefreshRecord), s.refreshTokens l = some r → r.used = false →
      (∃ q, (s.put i ph').calls[l]? = some q ∧ q.updating = true) ∨ ∃ g, grants r.family = some g ∧ g.scopes = r.scopes)
    (hloc : Local (({ s with grants := grants } : State).put i ph') i ph') :
    Inv pkce (({ s with grants := grants } : State).put i ph') := by
  set t : State := { s with grants := grants }
  have hissued : ∀ (l : ℕ) (y : Issue), Issued s l y → Issued (t.put i ph') l y :=
    fun l y hy => hy.put rfl hi hdone
  have hissue : ∀ {k : ℕ} {q : Phase} {y : Issue}, (t.put i ph').calls[k]? = some q → q.issue? = some y →
      ∃ q', s.calls[k]? = some q' ∧ q'.issue? = some y := by
    intro k q y hk hy
    obtain ⟨rfl, rfl⟩ | ⟨-, hk⟩ := put_cases hk
    · exact ⟨ph, hi, hx.trans (hx'.symm.trans hy)⟩
    · exact ⟨q, hk, hy⟩
  have hmint : ∀ {k : ℕ} {q : Phase} {y : Issue} {g : Grant}, (t.put i ph').calls[k]? = some q →
      q.minting? = some (y, g) → ∃ q', s.calls[k]? = some q' ∧ q'.minting? = some (y, g) := by
    intro k q y g hk hy
    obtain ⟨rfl, rfl⟩ | ⟨-, hk⟩ := put_cases hk
    · exact ⟨ph, hi, hminting y g hy⟩
    · exact ⟨q, hk, hy⟩
  constructor
  case code => exact fun c record hrecord => putDone rfl hi hdone (h.code c record hrecord)
  case sourced =>
    intro k q y hk hy
    obtain ⟨q', hk', hy'⟩ := hissue hk hy
    have hold := h.sourced k q' y hk' hy'
    unfold Sourced at hold ⊢
    cases hsource : y.source with
    | code c clientId redirectUri codeVerifier =>
      rw [hsource] at hold
      obtain ⟨hfamily, hcode, record, hrecord, hrest⟩ := hold
      exact ⟨hfamily, hcode, record, putDone rfl hi hdone hrecord, hrest⟩
    | token l clientId =>
      rw [hsource] at hold
      obtain ⟨hused, ⟨z, hz, hterms⟩, y', hy', hrest⟩ := hold
      exact ⟨hused, ⟨z, hissued _ z hz, hterms⟩, y', hissued l y' hy', hrest⟩
  case rbac =>
    intro k q y hk hy
    obtain ⟨q', hk', hy'⟩ := hissue hk hy
    exact h.rbac k q' y hk' hy'
  case once =>
    intro k l q q' y y' hk hl hy hy' hkey
    obtain ⟨q₀, hk₀, hy₀⟩ := hissue hk hy
    obtain ⟨q₁, hl₁, hy₁⟩ := hissue hl hy'
    exact h.once k l q₀ q₁ y y' hk₀ hl₁ hy₀ hy₁ hkey
  case loc =>
    intro k q hk
    obtain ⟨rfl, rfl⟩ | ⟨hne, hk⟩ := put_cases hk
    · exact hloc
    · exact (h.loc k q hk).keep hissued (fun l y r' _ hr' hunused => ⟨r', hr', hunused⟩)
        (fun f g hrelies hg => hothers k q f g hne hk hrelies hg)
  case token =>
    intro k q y hk hcr hy
    obtain ⟨rfl, rfl⟩ | ⟨-, hk⟩ := put_cases hk
    · exact h.token k ph y hi hcreated (hx.trans (hx'.symm.trans hy))
    · exact h.token k q y hk hcr hy
  case refresh =>
    intro l r hr
    obtain ⟨q, y, hq, hsv, hy, hrest⟩ := h.refresh l r hr
    by_cases hl : l = i
    · subst hl
      cases hi.symm.trans hq
      exact ⟨ph', y, put_self hi, hsaved.trans hsv, hx'.trans (hx.symm.trans hy), hrest⟩
    · exact ⟨q, y, put_other hl hq, hsv, hy, hrest⟩
  case unused => exact h.unused
  case minting =>
    intro k q y g hk hy l r hr hfamily hunused
    obtain ⟨q', hk', hy'⟩ := hmint hk hy
    exact h.minting k q' y g hk' hy' l r hr hfamily hunused
  case alone =>
    intro k l q q' y y' g g' hk hl hy hy' hfamily
    obtain ⟨q₀, hk₀, hy₀⟩ := hmint hk hy
    obtain ⟨q₁, hl₁, hy₁⟩ := hmint hl hy'
    exact h.alone k l q₀ q₁ y y' g g' hk₀ hl₁ hy₀ hy₁ hfamily
  case grant =>
    intro f g' hg'
    obtain ⟨rfl, hgr, hcode, hterms⟩ | ⟨g, hg, hterms⟩ := hgrant f g' hg'
    · exact ⟨ph', x, put_self hi, hgr, hx', hcode, hterms⟩
    · obtain ⟨q, z, hq, hgr, hz, hcode, hterms'⟩ := h.grant f g hg
      by_cases hf : f = i
      · subst hf
        cases hi.symm.trans hq
        exact ⟨ph', z, put_self hi, hgranted hgr, hx'.trans (hx.symm.trans hz), hcode, hterms.trans hterms'⟩
      · exact ⟨q, z, put_other hf hq, hgr, hz, hcode, hterms.trans hterms'⟩
  case granted =>
    intro k q y hk hgr hy hcode
    obtain ⟨rfl, rfl⟩ | ⟨-, hk⟩ := put_cases hk
    · cases hx'.symm.trans hy
      exact hnew hgr hcode
    · obtain ⟨g, hg⟩ := h.granted k q y hk hgr hy hcode
      exact hkeep k g hg
  case scopes => exact hscopes

theorem Inv.saveGrant (h : Inv pkce s) {codeExpires now : ℤ} (hi : s.calls[i]? = some (.saveGrant x codeExpires now)) :
    Inv pkce (({ s with grants := Function.update s.grants i (some ⟨x.terms, x.scopes, some i, now, now, none⟩) } :
      State).put i (.saveFirst x codeExpires now)) := by
  have hcode : x.source.isCode = true := h.loc i _ hi
  -- The call has no grant yet.
  have hnone : ∀ {f : ℕ} {g : Grant}, s.grants f = some g → f ≠ i := by
    rintro f g hg rfl
    obtain ⟨q, z, hq, hgr, -⟩ := h.grant f g hg
    cases hi.symm.trans hq
    cases hgr
  have hself : Function.update s.grants i (some ⟨x.terms, x.scopes, some i, now, now, none⟩) i =
      some ⟨x.terms, x.scopes, some i, now, now, none⟩ := update_self ..
  have hold : ∀ {f : ℕ} {g : Grant}, s.grants f = some g →
      Function.update s.grants i (some ⟨x.terms, x.scopes, some i, now, now, none⟩) f = some g := by
    intro f g hg
    rw [update_of_ne (hnone hg)]
    exact hg
  refine h.setGrants hi rfl rfl (fun _ hno => (by cases hno)) rfl rfl (fun _ _ hno => (by cases hno))
    (fun hno => (by cases hno)) (fun _ _ => ⟨_, hself⟩) ?_ (fun f g hg => ⟨g, hold hg⟩)
    (fun k q f g _ _ _ hg => ⟨g, hold hg, rfl, rfl⟩) ?_ ⟨hcode, _, hself, rfl⟩
  · intro f g' hg'
    by_cases hf : f = i
    · subst hf
      rw [hself] at hg'
      cases hg'
      exact .inl ⟨rfl, rfl, hcode, rfl⟩
    · rw [update_of_ne hf] at hg'
      exact .inr ⟨g', hg', rfl⟩
  · intro l r hr hunused
    obtain ⟨q, hq, hup⟩ | ⟨g, hg, hsc⟩ := h.scopes l r hr hunused
    · refine .inl ⟨q, put_other ?_ hq, hup⟩
      rintro rfl
      cases hi.symm.trans hq
      cases hup
    · exact .inr ⟨g, hold hg, hsc⟩

variable {l : ℕ} {y : Issue}

/-- What is in the store of a token that was handed out is what was handed out. -/
theorem Inv.record_of_issued (h : Inv pkce s) {r : RefreshRecord} (hy : Issued s l y)
    (hr : s.refreshTokens l = some r) :
    r.family = y.family ∧ r.terms = y.terms ∧ r.scopes = y.scopes := by
  obtain ⟨q, y', hq, -, hy', hrest⟩ := h.refresh l r hr
  cases hy.symm.trans hq
  obtain rfl : y = y' := Option.some.inj hy'
  exact hrest

/-- A call that issues for a token belongs to a family whose exchange is over. -/
theorem Inv.root (h : Inv pkce s) {q : Phase} (hi : s.calls[i]? = some q) (hx : q.issue? = some x)
    (hcode : x.source.isCode = false) :
    ∃ z, Issued s x.family z ∧ z.terms = x.terms ∧ x.scopes ⊆ z.scopes ∧ z.source.isCode = true := by
  have hsourced := h.sourced i q x hi hx
  unfold Sourced at hsourced
  cases hsource : x.source with
  | code c clientId redirectUri codeVerifier =>
    rw [hsource] at hcode
    cases hcode
  | token l clientId =>
    rw [hsource] at hsourced
    exact hsourced.2.1

/-- The family of a call that issues for a code is its own number. -/
theorem Inv.own (h : Inv pkce s) {q : Phase} (hi : s.calls[i]? = some q) (hx : q.issue? = some x)
    (hcode : x.source.isCode = true) : x.family = i := by
  have hsourced := h.sourced i q x hi hx
  unfold Sourced at hsourced
  cases hsource : x.source with
  | code c clientId redirectUri codeVerifier =>
    rw [hsource] at hsourced
    exact hsourced.1
  | token l clientId =>
    rw [hsource] at hcode
    cases hcode

/-- The exchange of the family of a token that was handed out is over. -/
theorem Inv.root_of_issued (h : Inv pkce s) (hy : Issued s l y) :
    ∃ z, Issued s y.family z ∧ z.terms = y.terms ∧ y.scopes ⊆ z.scopes ∧ z.source.isCode = true := by
  cases hcode : y.source.isCode with
  | false => exact h.root hy rfl hcode
  | true =>
    have hown := h.own hy rfl hcode
    refine ⟨y, ?_, rfl, List.Subset.refl _, hcode⟩
    rw [hown]
    exact hy

variable {g : Grant}

/-- The grant of a token that was handed out is for the same. -/
theorem Inv.terms_of_issued (h : Inv pkce s) (hy : Issued s l y) (hg : s.grants y.family = some g) :
    g.terms = y.terms := by
  obtain ⟨z, hz, hterms, -⟩ := h.root_of_issued hy
  obtain ⟨q, z', hq, -, hz', -, hgterms⟩ := h.grant _ g hg
  cases hz.symm.trans hq
  obtain rfl : z = z' := Option.some.inj hz'
  exact hgterms.trans hterms

theorem Inv.update (h : Inv pkce s) {now : ℤ} (hi : s.calls[i]? = some (.update x g now)) :
    Inv pkce (({ s with grants := Function.update s.grants x.family ((s.grants x.family).map fun g =>
      ({ g with activeTokenId := some i, lastUsedAt := now, scopes := x.scopes } : Grant)) } : State).put i
        (.finishRefresh x g)) := by
  obtain ⟨hcode, -, g₀, hg₀, -⟩ := h.loc i _ hi
  obtain ⟨z, hz, -⟩ := h.root hi rfl hcode
  set grants := Function.update s.grants x.family ((s.grants x.family).map fun g =>
    ({ g with activeTokenId := some i, lastUsedAt := now, scopes := x.scopes } : Grant))
  have hself : grants x.family = some { g₀ with activeTokenId := some i, lastUsedAt := now, scopes := x.scopes } := by
    grind
  have hold : ∀ {f : ℕ}, f ≠ x.family → grants f = s.grants f := fun hf => update_of_ne hf _ _
  have hnotIssued : ∀ {y : Issue}, ¬Issued s i y := by
    intro y hy
    have hclash := hi.symm.trans hy
    cases hclash
  refine h.setGrants hi rfl rfl (fun _ hno => (by cases hno)) rfl rfl (fun _ _ hno => (by cases hno))
    (fun hno => (by cases hno)) (fun hno => (by cases hno)) ?_ ?_ ?_ ?_ hcode
  · grind
  · grind
  · -- No other call relies on the grant of this family.
    intro k q f g' hne hk hrelies hg'
    by_cases hf : f = x.family
    · exfalso
      have hmint : ∀ {y : Issue} {g : Grant}, q.minting? = some (y, g) → f = y.family → False := by
        intro y g hy hfy
        exact hne (h.alone k i q _ y x g _ hk hi hy rfl (hfy.symm.trans hf))
      cases q with
      | saveFirst y e n =>
        have hkf : f = k := hrelies
        subst hkf
        subst hf
        have hclash := hk.symm.trans hz
        cases hclash
      | mark p l rt gr =>
        obtain ⟨hfam, ⟨y, hy, hyf⟩, r, hr, hunused⟩ := hrelies
        have hrf := (h.record_of_issued hy hr).1
        have hli : l = i := h.minting i _ x _ hi rfl l r hr (by rw [hrf, hyf, ← hfam, hf]) hunused
        subst hli
        exact hnotIssued hy
      | mint y gr => exact hmint rfl hrelies
      | revokeOld y gr => exact hmint rfl hrelies
      | saveNext y gr => exact hmint rfl hrelies
      | update y gr n => exact hmint rfl hrelies
      | _ => exact hrelies
    · exact ⟨g', (hold hf).trans hg', rfl, rfl⟩
  · intro l r hr hunused
    by_cases hf : r.family = x.family
    · -- It is the token that this call has saved.
      have hli : l = i := h.minting i _ x _ hi rfl l r hr hf hunused
      subst hli
      obtain ⟨q, y, hq, -, hy, -, -, hsc⟩ := h.refresh l r hr
      cases hi.symm.trans hq
      obtain rfl : x = y := Option.some.inj hy
      refine .inr ⟨{ g₀ with activeTokenId := some l, lastUsedAt := now, scopes := x.scopes }, ?_, hsc.symm⟩
      rw [hf]
      exact hself
    · obtain ⟨q, hq, hup⟩ | ⟨g', hg', hsc⟩ := h.scopes l r hr hunused
      · refine .inl ⟨q, put_other ?_ hq, hup⟩
        rintro rfl
        obtain ⟨q', y, hq', -, hy, hfam, -⟩ := h.refresh l r hr
        cases hi.symm.trans hq'
        obtain rfl : x = y := Option.some.inj hy
        exact hf hfam
      · exact .inr ⟨g', (hold hf).trans hg', hsc⟩

/-- The first refresh token of a family. -/
theorem Inv.saveFirst (h : Inv pkce s) {codeExpires now : ℤ} (hi : s.calls[i]? = some (.saveFirst x codeExpires now)) :
    Inv pkce (({ s with refreshTokens := Function.update s.refreshTokens i (some (State.refreshRecord x now)) } :
      State).put i (.finishExchange x codeExpires)) := by
  obtain ⟨hcode, g, hg, hsc⟩ := h.loc i _ hi
  have hfamily : x.family = i := h.own hi rfl hcode
  have hroot : ∀ {z : Issue}, ¬Issued s x.family z := by
    intro z hz
    rw [hfamily] at hz
    have hclash := hi.symm.trans hz
    cases hclash
  -- Nobody issues for the family but this call.
  have hnone : ∀ {k : ℕ} {q : Phase} {y : Issue}, s.calls[k]? = some q → q.issue? = some y → y.family = x.family →
      k = i := by
    intro k q y hk hy hfy
    cases hkind : y.source.isCode with
    | false =>
      obtain ⟨z, hz, -⟩ := h.root hk hy hkind
      rw [hfy] at hz
      exact absurd hz hroot
    | true => rw [← h.own hk hy hkind, hfy, hfamily]
  refine h.save hi rfl rfl (fun _ hno => (by cases hno)) rfl rfl ⟨rfl, rfl, rfl⟩ (fun _ _ hno => (by cases hno)) rfl
    ?_ ?_ (.inr ⟨g, by rw [hfamily]; exact hg, hsc⟩) hcode
  · intro l r hr hfr
    obtain ⟨q, y, hq, hsv, hy, hfy, -⟩ := h.refresh l r hr
    obtain rfl := hnone hq hy (hfy.symm.trans hfr)
    cases hi.symm.trans hq
    cases hsv
  · intro k q y g' hk hy hfy
    exact hnone hk (Phase.issue?_of_minting? hy) hfy

/-- The next refresh token of a family. -/
theorem Inv.saveNext (h : Inv pkce s) {now : ℤ} (hi : s.calls[i]? = some (.saveNext x g)) :
    Inv pkce (({ s with refreshTokens := Function.update s.refreshTokens i (some (State.refreshRecord x now)) } :
      State).put i (.update x g now)) := by
  have hl := h.loc i _ hi
  refine h.save hi rfl rfl (fun _ hno => (by cases hno)) rfl rfl ⟨rfl, rfl, rfl⟩ (fun _ _ hy => hy) rfl ?_ ?_ (.inl rfl) hl
  · intro l r hr hfr
    by_contra hno
    have hli := h.minting i _ x g hi rfl l r hr hfr (Bool.eq_false_iff.mpr hno)
    subst hli
    obtain ⟨q, y, hq, hsv, -⟩ := h.refresh l r hr
    cases hi.symm.trans hq
    cases hsv
  · intro k q y g' hk hy hfy
    exact h.alone k i q _ y x g' g hk hi hy rfl hfy

/-! ### The other accesses -/

variable {t : State}

theorem Shrinks.of_eq (hcalls : t.calls = s.calls) (hcodes : t.codes = s.codes)
    (hrefresh : t.refreshTokens = s.refreshTokens) (hgrants : t.grants = s.grants) : Shrinks s t where
  calls := hcalls
  codes := hcodes
  refresh := fun l r hr => ⟨r, by rw [← hrefresh]; exact hr, rfl, rfl, rfl, id⟩
  grants := fun f => (by rw [hgrants])

theorem shrinks_setGrant {f : ℕ} {change : Grant → Grant} (hheld : ∀ g, (change g).held = g.held) :
    ∀ k, (Function.update s.grants f ((s.grants f).map change) k).map Grant.held = (s.grants k).map Grant.held := by
  intro k
  by_cases hk : k = f
  · subst hk
    rw [update_self, Option.map_map]
    congr 1
    funext g
    exact hheld g
  · rw [update_of_ne hk]

theorem shrinks_revokeFamily (f : ℕ) (now : ℤ) : Shrinks s (s.revokeFamily f now) where
  calls := rfl
  codes := rfl
  refresh := by
    intro l r hr
    obtain ⟨hr, -⟩ := Option.filter_eq_some_iff.mp hr
    exact ⟨r, hr, rfl, rfl, rfl, id⟩
  grants := shrinks_setGrant fun _ => rfl

theorem shrinks_stampGrant (f : ℕ) (now : ℤ) : Shrinks s (s.stampGrant f now) where
  calls := rfl
  codes := rfl
  refresh := fun _ r hr => ⟨r, hr, rfl, rfl, rfl, id⟩
  grants := shrinks_setGrant fun _ => rfl

theorem shrinks_markUsed {b : Bool} (h : s.markUsed l = (t, b)) : Shrinks s t := by
  unfold State.markUsed at h
  split at h
  · cases h
    exact Shrinks.of_eq rfl rfl rfl rfl
  next rt hrt =>
    split at h
    · cases h
      exact Shrinks.of_eq rfl rfl rfl rfl
    · cases h
      refine ⟨rfl, rfl, ?_, fun _ => rfl⟩
      intro k r hr
      change Function.update s.refreshTokens l _ k = some r at hr
      by_cases hk : k = l
      · subst hk
        rw [update_self] at hr
        cases hr
        exact ⟨rt, hrt, rfl, rfl, rfl, fun hno => (by cases hno)⟩
      · rw [update_of_ne hk] at hr
        exact ⟨r, hr, rfl, rfl, rfl, id⟩

/-- What an access token is for stays. -/
def KeepsTokens (s t : State) : Prop :=
  ∀ (k : ℕ) (a : AccessToken), s.tokens k = some a → ∃ a', t.tokens k = some a' ∧ ∀ x, Bears a x → Bears a' x

theorem KeepsTokens.of_eq (h : t.tokens = s.tokens) : KeepsTokens s t :=
  fun _ a ha => ⟨a, by rw [h]; exact ha, fun _ hx => hx⟩

theorem keepsTokens_revokeToken (userId : String) (l : ℕ) (now : ℤ) : KeepsTokens s (s.revokeToken userId l now) := by
  intro k a ha
  by_cases hk : k = l
  · subst hk
    refine ⟨if a.userId = userId ∧ a.revokedAt = none then { a with revokedAt := some now } else a, ?_, ?_⟩
    · show Function.update s.tokens k _ k = _
      rw [update_self, ha, Option.map_some]
    · intro y hy
      split
      · exact hy
      · exact hy
  · refine ⟨a, ?_, fun _ hx => hx⟩
    show Function.update s.tokens l _ k = _
    rw [update_of_ne hk]
    exact ha

theorem Phase.of_issue?_none (h : ph.issue? = none) :
    ph.saved = false ∧ ph.granted = false ∧ ph.created = false ∧ ph.updating = false ∧ ph.minting? = none := by
  cases ph with
  | done out =>
    cases out with
    | issued y => cases h
    | _ => exact ⟨rfl, rfl, rfl, rfl, rfl⟩
  | _ => first | exact ⟨rfl, rfl, rfl, rfl, rfl⟩ | cases h

/-- A call that issues nothing, or gives up before anything is saved. -/
theorem Inv.quiet (h : Inv pkce s) (hs : Shrinks s t) (htokens : KeepsTokens s t)
    (hi : s.calls[i]? = some ph) (hdone : ∀ out, ph ≠ .done out) (hsaved : ph.saved = false)
    (hgranted : ph.granted = false) (hup : ph.updating = false) (hnone : ph'.issue? = none)
    (hloc : Local s i ph') : Inv pkce (t.put i ph') := by
  obtain ⟨hsaved', hgranted', hcreated', -, hmint'⟩ := Phase.of_issue?_none hnone
  refine h.shrink hs hi ⟨.inl hnone, ?_, ?_, ?_, hdone, hup⟩ (fun k a _ ha => htokens k a ha) ?_ ?_
    (hloc.shrink hs hi hdone)
  · intro y g hy
    rw [hmint'] at hy
    cases hy
  · intro hno
    rw [hsaved] at hno
    cases hno
  · intro hno
    rw [hgranted] at hno
    cases hno
  · intro y hno
    rw [hcreated'] at hno
    cases hno
  · intro y hno
    rw [hgranted'] at hno
    cases hno

/-- As `quiet`, when the store does not change either. -/
theorem Inv.idle (h : Inv pkce s) (hi : s.calls[i]? = some ph) (hdone : ∀ out, ph ≠ .done out)
    (hsaved : ph.saved = false) (hgranted : ph.granted = false) (hup : ph.updating = false)
    (hnone : ph'.issue? = none) (hloc : Local s i ph') : Inv pkce (s.put i ph') :=
  h.quiet (Shrinks.of_eq rfl rfl rfl rfl) (KeepsTokens.of_eq rfl) hi hdone hsaved hgranted hup hnone hloc

end Plur1bus.OAuth
