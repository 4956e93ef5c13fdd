import Plur1bus.OAuth.Runs

/-!
What a revocation leaves behind. A revocation deletes the refresh tokens of a family, stamps its
grant, and revokes the access token that was active when it looked. That is the only one that is
live as long as no refresh of the family is between the marking of its token and the update of the
grant; a refresh that is there creates an access token that no revocation sees. And what a code
that is presented again names is the first access token of its family, which is the active one
until the first refresh.
-/

namespace Plur1bus.OAuth

variable {pkce : String → String → Bool} {s t : State} {i f : ℕ} {ph ph' : Phase}

/-! ### What is revoked -/

/-- The access token is there, and is not live. -/
def Revoked (s : State) (a : ℕ) : Prop := ∃ token, s.tokens a = some token ∧ token.revokedAt ≠ none

/-- No call of the family is minting. -/
def Still (s : State) (f : ℕ) : Prop :=
  ∀ (k : ℕ) (q : Phase) (x : Issue) (g : Grant), s.calls[k]? = some q → q.minting? = some (x, g) → x.family ≠ f

/-- A family of which no token can be marked any more. -/
structure Spent (s : State) (f : ℕ) : Prop where
  used : ∀ (l : ℕ) (r : RefreshRecord), s.refreshTokens l = some r → r.family = f → r.used = true
  still : Still s f
  root : ∃ z, Issued s f z

/-- A family whose tokens were deleted: no call goes on to mark one. -/
structure Stopped (s : State) (f : ℕ) : Prop where
  stamped : ∃ g, s.grants f = some g ∧ g.revokedAt ≠ none
  marks : ∀ (k : ℕ) (p : RefreshParams) (l : ℕ) (rt : RefreshRecord) (gr : Grant),
    s.calls[k]? = some (.mark p l rt gr) → rt.family = f → ∀ r, s.refreshTokens l = some r → r.used = true

/-- The token that the call has put among the active refreshes. -/
def Phase.holds? : Phase → Option Secret
  | .getRefresh p | .getGrant p _ _ | .mark p _ _ _ => some p.token
  | .mint x _ | .revokeOld x _ | .saveNext x _ | .update x _ _ | .finishRefresh x _ =>
    match x.source with
    | .token h _ => some (.drawn h)
    | .code _ _ _ _ => none
  | .revoking _ rel _ => rel
  | .release token _ => some token
  | _ => none

/-- What a call relies on, and what a revocation has done and has yet to do. -/
def RLocal (s : State) : Phase → Prop
  | .getGrant _ l rt => rt.used = false →
      (∃ r, s.refreshTokens l = some r ∧ r.used = false) ∨ ∃ g, s.grants rt.family = some g ∧ g.revokedAt ≠ none
  | .mark _ l rt gr => (∃ g, s.grants rt.family = some g ∧ g.activeTokenId = gr.activeTokenId) ∧
      ((∃ r, s.refreshTokens l = some r ∧ r.used = false) ∨ Spent s rt.family)
  | .saveNext _ gr | .update _ gr _ => ∀ a, gr.activeTokenId = some a → Revoked s a
  | .revoking ops _ (.revoked f) => ∃ g, s.grants f = some g ∧ (.family f ∈ ops ∨ Stopped s f) ∧
      (.activeOf f ∈ ops ∨ ∀ a, g.activeTokenId = some a → Revoked s a ∨ .token g.terms.userId a ∈ ops)
  | .release _ out => ∀ f, out ≠ .revoked f
  | .done (.revoked f) => Stopped s f ∧ Still s f ∧
      ∃ g, s.grants f = some g ∧ ∀ a, g.activeTokenId = some a → Revoked s a
  | _ => True

structure Rev (s : State) : Prop where
  rloc : ∀ (k : ℕ) (q : Phase), s.calls[k]? = some q → RLocal s q
  owner : ∀ (f : ℕ) (g : Grant) (a : ℕ), s.grants f = some g → g.activeTokenId = some a →
    ∃ q y, s.calls[a]? = some q ∧ q.created = true ∧ q.issue? = some y ∧ y.family = f
  live : ∀ (k : ℕ) (q : Phase) (x : Issue), s.calls[k]? = some q → q.created = true → q.issue? = some x →
    Revoked s k ∨ (∃ g, s.grants x.family = some g ∧ g.activeTokenId = some k) ∨ q.minting?.isSome = true ∨
      ∃ e n, q = .saveGrant x e n
  held : ∀ (k l : ℕ) (q q' : Phase) (token : Secret), s.calls[k]? = some q → s.calls[l]? = some q' →
    q.holds? = some token → q'.holds? = some token → k = l
  active : ∀ (k : ℕ) (q : Phase) (token : Secret), s.calls[k]? = some q → q.holds? = some token →
    token ∈ s.activeRefreshes
  consumed : ∀ (c : ℕ) (e : Consumed), (c, e) ∈ s.consumed →
    ∃ z, Issued s e.family z ∧ z.family = e.family ∧ e.userId = z.terms.userId

/-! ### The condition -/

/-- The family that a call is revoking, once it has read which access token is active. -/
def Phase.revokes? : Phase → Option ℕ
  | .revoking ops _ (.revoked f) => if .activeOf f ∈ ops then none else some f
  | _ => none

/-- No family is revoked while one of its refreshes is minting. -/
def Orderly (s : State) : Prop :=
  ∀ (k l : ℕ) (q q' : Phase) (f : ℕ) (x : Issue) (g : Grant), s.calls[k]? = some q → s.calls[l]? = some q' →
    q.revokes? = some f → q'.minting? = some (x, g) → x.family ≠ f

/-- A code is not presented again when another access token than the first one of its family is
live. -/
def FirstToken (s : State) : Act → Prop
  | .exchangeAuthorizationCode c _ _ _ _ => ∀ e g a, s.consumed.lookup c = some e → s.grants e.family = some g →
      g.activeTokenId = some a → a = e.accessTokenId ∨ Revoked s a
  | _ => True

/-! ### A step -/

/-- What a step of call `i` from `ph` to `ph'` does to the store, as far as the other calls are
concerned. -/
structure Moves (s t : State) (i : ℕ) (ph ph' : Phase) : Prop where
  here : s.calls[i]? = some ph
  calls : t.calls = s.calls
  notDone : ∀ out, ph ≠ .done out
  revoked : ∀ (a : ℕ) (q : Phase), s.calls[a]? = some q → q.created = true → Revoked s a → Revoked t a
  grants : ∀ (f : ℕ) (g : Grant), s.grants f = some g → ∃ g', t.grants f = some g' ∧ g'.terms = g.terms ∧
    (g.revokedAt ≠ none → g'.revokedAt ≠ none) ∧
    (g'.activeTokenId = g.activeTokenId ∨ ∃ x gr, ph.minting? = some (x, gr) ∧ x.family = f)
  unused : ∀ (l : ℕ) (r' : RefreshRecord), t.refreshTokens l = some r' → r'.used = false →
    (∃ r, s.refreshTokens l = some r ∧ r.used = false ∧ r.family = r'.family) ∨
      (l = i ∧ ∃ x, ph.issue? = some x ∧ x.family = r'.family ∧ (ph.minting?.isSome = true ∨ x.family = i))
  kept : ∀ (l : ℕ) (r : RefreshRecord), s.refreshTokens l = some r → r.used = false →
    (∃ r', t.refreshTokens l = some r' ∧ r'.used = false) ∨ ph.holds? = some (.drawn l) ∨
      ((∀ (l' : ℕ) (r' : RefreshRecord), t.refreshTokens l' = some r' → r'.family ≠ r.family) ∧
        (∃ g, t.grants r.family = some g ∧ g.revokedAt ≠ none) ∧ ph'.minting? = none)
  minting : ∀ x gr, ph'.minting? = some (x, gr) → ph.minting? = some (x, gr) ∨
    ∃ p l rt, ph = .mark p l rt gr ∧ x.family = rt.family ∧ ∃ r, s.refreshTokens l = some r ∧ r.used = false
  marking : ∀ p l rt gr, ph' = .mark p l rt gr → ∃ g, s.grants rt.family = some g ∧ g.revokedAt = none

/-- The call is not over, so nothing was handed out under its number. -/
theorem Moves.notIssued (m : Moves s t i ph ph') {y : Issue} : ¬Issued s i y := by
  intro hy
  exact m.notDone _ (Option.some.inj (m.here.symm.trans hy))

theorem Moves.issued (m : Moves s t i ph ph') {l : ℕ} {y : Issue} (hy : Issued s l y) : Issued (t.put i ph') l y :=
  hy.put m.calls m.here m.notDone

/-- A call after the step: the one that took it, or one that did not. -/
theorem Moves.cases (m : Moves s t i ph ph') {k : ℕ} {q : Phase} (hk : (t.put i ph').calls[k]? = some q) :
    (k = i ∧ q = ph') ∨ (k ≠ i ∧ s.calls[k]? = some q) := by
  obtain hself | ⟨hne, hk⟩ := put_cases hk
  · exact .inl hself
  · rw [m.calls] at hk
    exact .inr ⟨hne, hk⟩

/-- A call that minted in no state of the family, and whose token is used, does not mint now. -/
theorem Moves.still (m : Moves s t i ph ph') {f : ℕ} (hstill : Still s f)
    (hused : ∀ p l rt gr r, ph = .mark p l rt gr → rt.family = f → s.refreshTokens l = some r → r.used = true) :
    Still (t.put i ph') f := by
  intro k q x g hk hx
  obtain ⟨rfl, rfl⟩ | ⟨-, hk⟩ := m.cases hk
  · obtain hsame | ⟨p, l, rt, hph, hfam, r, hr, hunused⟩ := m.minting x g hx
    · exact hstill k ph x g m.here hsame
    · intro hf
      rw [hused p l rt g r hph (hfam.symm.trans hf) hr] at hunused
      cases hunused
  · exact hstill k q x g hk hx

theorem Spent.step (hsp : Spent s f) (h : Inv pkce s) (m : Moves s t i ph ph') : Spent (t.put i ph') f := by
  obtain ⟨z, hz⟩ := hsp.root
  refine ⟨?_, ?_, z, m.issued hz⟩
  · intro l r' hr' hf
    by_contra hno
    obtain ⟨r, hr, hunused, hfam⟩ | ⟨rfl, x, hx, hxf, hmint | hown⟩ := m.unused l r' hr' (Bool.eq_false_iff.mpr hno)
    · rw [hsp.used l r hr (hfam.trans hf)] at hunused
      cases hunused
    · obtain ⟨⟨y, g⟩, hy⟩ := Option.isSome_iff_exists.mp hmint
      have hxy : x = y := Option.some.inj (hx.symm.trans (Phase.issue?_of_minting? hy))
      exact hsp.still l ph y g m.here hy (by rw [← hxy, hxf, hf])
    · -- The exchange of the family is over.
      have hlf : l = f := hown.symm.trans (hxf.trans hf)
      subst hlf
      exact m.notIssued hz
  · apply m.still hsp.still
    intro p l rt gr r hph hfam hr
    have hl := h.loc i _ m.here
    rw [hph] at hl
    obtain ⟨-, -, -, ⟨y, hy, hyf, -⟩, -⟩ := hl
    exact hsp.used l r hr (by rw [(h.record_of_issued hy hr).1, hyf, hfam])

theorem Stopped.step (hst : Stopped s f) (h : Inv pkce s) (m : Moves s t i ph ph') : Stopped (t.put i ph') f := by
  obtain ⟨g, hg, hstamp⟩ := hst.stamped
  constructor
  · obtain ⟨g', hg', -, hkeep, -⟩ := m.grants f g hg
    exact ⟨g', hg', hkeep hstamp⟩
  · intro k p l rt gr hk hf r' hr'
    obtain ⟨rfl, heq⟩ | ⟨-, hk⟩ := m.cases hk
    · -- A call goes on to mark only while the grant is not stamped.
      obtain ⟨g', hg', hno⟩ := m.marking p l rt gr heq.symm
      rw [hf, hg] at hg'
      cases hg'
      exact absurd hno hstamp
    · by_contra hno
      obtain ⟨-, -, -, ⟨y, hy, -⟩, -⟩ := h.loc k _ hk
      obtain ⟨r, hr, hunused, -⟩ | ⟨rfl, -⟩ := m.unused l r' hr' (Bool.eq_false_iff.mpr hno)
      · rw [hst.marks k p l rt gr hk hf r hr] at hunused
        cases hunused
      · exact m.notIssued hy

/-- A family that is stopped and still stays so. -/
theorem Stopped.still (hst : Stopped s f) (hstill : Still s f) (m : Moves s t i ph ph') : Still (t.put i ph') f := by
  apply m.still hstill
  intro p l rt gr r hph hfam hr
  have hi := m.here
  rw [hph] at hi
  exact hst.marks i p l rt gr hi hfam r hr

/-- Nobody mints for a family that has a token that is handed out and not used. -/
theorem Inv.still_of_unused (h : Inv pkce s) {l : ℕ} {y : Issue} {r : RefreshRecord} (hy : Issued s l y)
    (hr : s.refreshTokens l = some r) (hunused : r.used = false) : Still s r.family := by
  intro k q x g hk hx hf
  have hlk : l = k := h.minting k q x g hk hx l r hr hf.symm hunused
  subst hlk
  cases hy.symm.trans hk
  cases hx

/-- The active token of a grant stays revoked. -/
theorem Rev.revoked_step (hrev : Rev s) (m : Moves s t i ph ph') {g : Grant} {a : ℕ} (hg : s.grants f = some g)
    (ha : g.activeTokenId = some a) (hra : Revoked s a) : Revoked (t.put i ph') a := by
  obtain ⟨q, y, hq, hcreated, -⟩ := hrev.owner f g a hg ha
  exact m.revoked a q hq hcreated hra

/-! ### The other calls -/

/-- What a call relies on outlives the steps of the others. -/
theorem RLocal.step {k : ℕ} {q : Phase} (hk : s.calls[k]? = some q) (hne : k ≠ i) (h : Inv pkce s) (hrev : Rev s)
    (hord : Orderly s) (m : Moves s t i ph ph') : RLocal (t.put i ph') q := by
  have hl := hrev.rloc k q hk
  cases q with
  | getGrant p l rt =>
    intro hunused
    obtain ⟨htoken, -, y, hy, hyf, -⟩ := h.loc k _ hk
    obtain ⟨r, hr, hru⟩ | ⟨g, hg, hstamp⟩ := hl hunused
    · obtain hkept | hholds | ⟨-, hgone, -⟩ := m.kept l r hr hru
      · exact .inl hkept
      · exact absurd (hrev.held k i _ ph (.drawn l) hk m.here (congrArg some htoken) hholds) hne
      · rw [(h.record_of_issued hy hr).1, hyf] at hgone
        exact .inr hgone
    · obtain ⟨g', hg', -, hkeep, -⟩ := m.grants _ g hg
      exact .inr ⟨g', hg', hkeep hstamp⟩
  | mark p l rt gr =>
    obtain ⟨htoken, -, -, ⟨y, hy, hyf, -⟩, -⟩ := h.loc k _ hk
    obtain ⟨⟨g, hg, hact⟩, hfree⟩ := hl
    -- Nobody mints for the family, so the active token stays.
    have hstill : Still s rt.family := by
      obtain ⟨r, hr, hru⟩ | hspent := hfree
      · have hstill := h.still_of_unused hy hr hru
        rw [(h.record_of_issued hy hr).1, hyf] at hstill
        exact hstill
      · exact hspent.still
    refine ⟨?_, ?_⟩
    · obtain ⟨g', hg', -, -, hsame | ⟨x, gr', hx, hf⟩⟩ := m.grants _ g hg
      · exact ⟨g', hg', hsame.trans hact⟩
      · exact absurd hf (hstill i ph x gr' m.here hx)
    · obtain ⟨r, hr, hru⟩ | hspent := hfree
      · obtain hkept | hholds | ⟨hgone, -, hnone⟩ := m.kept l r hr hru
        · exact .inl hkept
        · exact absurd (hrev.held k i _ ph (.drawn l) hk m.here (congrArg some htoken) hholds) hne
        · obtain ⟨z, hz, -⟩ := h.root_of_issued hy
          rw [(h.record_of_issued hy hr).1, hyf] at hgone
          rw [hyf] at hz
          refine .inr ⟨fun l' r' hr' hf => absurd hf (hgone l' r' hr'), ?_, z, m.issued hz⟩
          intro k' q' x g' hk' hx
          obtain ⟨rfl, rfl⟩ | ⟨-, hk'⟩ := m.cases hk'
          · rw [hnone] at hx
            cases hx
          · exact hstill k' q' x g' hk' hx
      · exact .inr (hspent.step h m)
  | saveNext x gr =>
    obtain ⟨-, -, g, hg, hact⟩ := h.loc k _ hk
    exact fun a ha => hrev.revoked_step m hg (hact.trans ha) (hl a ha)
  | update x gr now =>
    obtain ⟨-, -, g, hg, hact⟩ := h.loc k _ hk
    exact fun a ha => hrev.revoked_step m hg (hact.trans ha) (hl a ha)
  | revoking ops rel out =>
    cases out with
    | revoked f =>
      obtain ⟨g, hg, hfamily, hactive⟩ := hl
      obtain ⟨g', hg', hterms, -, hsame⟩ := m.grants f g hg
      refine ⟨g', hg', hfamily.imp id fun hst => hst.step h m, ?_⟩
      by_cases hread : RevokeOp.activeOf f ∈ ops
      · exact .inl hread
      · obtain hact | ⟨x, gr, hx, hf⟩ := hsame
        · refine .inr fun a ha => ?_
          rw [hact] at ha
          rw [hterms]
          exact ((hactive.resolve_left hread) a ha).imp (hrev.revoked_step m hg ha) id
        · have hrevokes : (Phase.revoking ops rel (.revoked f)).revokes? = some f := if_neg hread
          exact absurd hf (hord k i _ ph f x gr hk m.here hrevokes hx)
    | _ => trivial
  | release token out => exact hl
  | done out =>
    cases out with
    | revoked f =>
      obtain ⟨hst, hstill, g, hg, hactive⟩ := hl
      obtain ⟨g', hg', -, -, hact | ⟨x, gr, hx, hf⟩⟩ := m.grants f g hg
      · refine ⟨hst.step h m, hst.still hstill m, g', hg', fun a ha => ?_⟩
        rw [hact] at ha
        exact hrev.revoked_step m hg ha (hactive a ha)
      · exact absurd hf (hstill i ph x gr m.here hx)
    | _ => trivial
  | _ => trivial

/-- What a step of call `i` does to what is known of the live tokens. -/
structure Settles (s t : State) (i : ℕ) (ph ph' : Phase) : Prop where
  loc : RLocal (t.put i ph') ph'
  owner : ∀ (f : ℕ) (g : Grant) (a : ℕ), t.grants f = some g → g.activeTokenId = some a →
    (∃ g₀, s.grants f = some g₀ ∧ g₀.activeTokenId = some a) ∨
      (a = i ∧ ph'.created = true ∧ ∃ y, ph'.issue? = some y ∧ y.family = f)
  replaced : ∀ (f : ℕ) (g : Grant) (a : ℕ), s.grants f = some g → g.activeTokenId = some a →
    (∃ g', t.grants f = some g' ∧ g'.activeTokenId = some a) ∨ Revoked t a
  live : ∀ x, ph'.created = true → ph'.issue? = some x →
    Revoked t i ∨ (∃ g, t.grants x.family = some g ∧ g.activeTokenId = some i) ∨ ph'.minting?.isSome = true ∨
      ∃ e n, ph' = .saveGrant x e n
  created : ph.created = true → ph'.created = true ∧ ph'.issue? = ph.issue?
  holds : ph'.holds? = none ∨ ph'.holds? = ph.holds?
  active : ∀ token ∈ s.activeRefreshes, token ∈ t.activeRefreshes ∨ (ph.holds? = some token ∧ ph'.holds? = none)
  consumed : ∀ (c : ℕ) (e : Consumed), (c, e) ∈ t.consumed → (c, e) ∈ s.consumed ∨
    ∃ z, Issued (t.put i ph') e.family z ∧ z.family = e.family ∧ e.userId = z.terms.userId

theorem Rev.step (hrev : Rev s) (h : Inv pkce s) (hord : Orderly s) (m : Moves s t i ph ph')
    (hs : Settles s t i ph ph') : Rev (t.put i ph') := by
  -- Who holds a token after the step has held it before.
  have hholds : ∀ {k : ℕ} {q : Phase} {token : Secret}, (t.put i ph').calls[k]? = some q → q.holds? = some token →
      ∃ q', s.calls[k]? = some q' ∧ q'.holds? = some token := by
    intro k q token hk hq
    obtain ⟨rfl, rfl⟩ | ⟨-, hk⟩ := m.cases hk
    · obtain hnone | hsame := hs.holds
      · rw [hnone] at hq
        cases hq
      · exact ⟨ph, m.here, hsame.symm.trans hq⟩
    · exact ⟨q, hk, hq⟩
  constructor
  case rloc =>
    intro k q hk
    obtain ⟨rfl, rfl⟩ | ⟨hne, hk⟩ := m.cases hk
    · exact hs.loc
    · exact RLocal.step hk hne h hrev hord m
  case owner =>
    intro f g a hg ha
    obtain ⟨g₀, hg₀, ha₀⟩ | ⟨rfl, hcreated, y, hy, hf⟩ := hs.owner f g a hg ha
    · obtain ⟨q, y, hq, hcreated, hy, hf⟩ := hrev.owner f g₀ a hg₀ ha₀
      by_cases hai : a = i
      · subst hai
        cases m.here.symm.trans hq
        obtain ⟨hcreated', hsame⟩ := hs.created hcreated
        exact ⟨ph', y, put_self (by rw [m.calls]; exact hq), hcreated', hsame.trans hy, hf⟩
      · exact ⟨q, y, put_other hai (by rw [m.calls]; exact hq), hcreated, hy, hf⟩
    · exact ⟨ph', y, put_self (by rw [m.calls]; exact m.here), hcreated, hy, hf⟩
  case live =>
    intro k q x hk hcreated hx
    obtain ⟨rfl, rfl⟩ | ⟨-, hk⟩ := m.cases hk
    · exact hs.live x hcreated hx
    · obtain hdead | ⟨g, hg, ha⟩ | hrest := hrev.live k q x hk hcreated hx
      · exact .inl (m.revoked k q hk hcreated hdead)
      · obtain hsame | hdead := hs.replaced _ g k hg ha
        · exact .inr (.inl hsame)
        · exact .inl hdead
      · exact .inr (.inr hrest)
  case held =>
    intro k l q q' token hk hl hq hq'
    obtain ⟨q₀, hk₀, hq₀⟩ := hholds hk hq
    obtain ⟨q₁, hl₁, hq₁⟩ := hholds hl hq'
    exact hrev.held k l q₀ q₁ token hk₀ hl₁ hq₀ hq₁
  case active =>
    intro k q token hk hq
    obtain ⟨q₀, hk₀, hq₀⟩ := hholds hk hq
    obtain hin | ⟨hmine, hnone⟩ := hs.active token (hrev.active k q₀ token hk₀ hq₀)
    · exact hin
    · obtain rfl := hrev.held k i q₀ ph token hk₀ m.here hq₀ hmine
      obtain ⟨-, rfl⟩ | ⟨hne, -⟩ := m.cases hk
      · rw [hnone] at hq
        cases hq
      · exact absurd rfl hne
  case consumed =>
    intro c e he
    obtain hold | hnew := hs.consumed c e he
    · obtain ⟨z, hz, huser⟩ := hrev.consumed c e hold
      exact ⟨z, m.issued hz, huser⟩
    · exact hnew

end Plur1bus.OAuth
