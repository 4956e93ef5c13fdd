import Plur1bus.Rbac.BreakGlass
import Mathlib.Data.List.Induction

/-!
Every grant that is kept was written down when its holder asked for it, and has not been revoked
since. Access by break-glass is access by such a grant, now, and is written down itself.
-/

namespace Plur1bus.Rbac

open Program List

namespace Registry

variable {T : Type} {o : Outside T} {s s' : Registry T}

/-! ### What each call does to the grants and the log -/

variable {action target : String}

theorem record_cases {actor : Option String} {detail : Detail T} {written : Bool}
    (h : s.record o action actor target detail = (written, s')) :
    s'.grants = s.grants ∧ s.reads ≤ s'.reads ∧
      s'.log = s.log ++ if written then [⟨o.clock s.reads, actor, o.host, action, target, detail⟩] else [] := by
  unfold record at h
  dsimp only at h
  split at h
  · cases h
    exact ⟨rfl, Nat.le_succ _, rfl⟩
  · cases h
    exact ⟨rfl, Nat.le_succ _, (append_nil _).symm⟩

theorem limits_spec : (s.limits o).2.grants = s.grants ∧ (s.limits o).2.log = s.log := by
  unfold Registry.limits
  split
  · exact ⟨rfl, rfl⟩
  · exact ⟨rfl, rfl⟩

theorem revoke_grants {actor : Caller T} {id : String} :
    (∀ g ∈ (s.revoke o actor id).2.grants, g ∈ s.grants) ∧
      ((s.revoke o actor id).1 = .ok () → ∀ g ∈ (s.revoke o actor id).2.grants, g.id ≠ id) := by
  unfold revoke
  split
  · exact ⟨fun _ hg => hg, fun h => (by cases h)⟩
  next g hg =>
    split
    next p =>
      split
      · exact ⟨fun _ hg => hg, fun h => (by cases h)⟩
      · split
        · exact ⟨fun _ hg => hg, fun h => (by cases h)⟩
        · split
          next s₁ hrecord =>
            refine ⟨fun x hx => ?_, fun h => (by cases h)⟩
            rwa [(record_cases hrecord).1] at hx
          next s₁ hrecord =>
            have hgrants := (record_cases hrecord).1
            have hid := (Keyed.rowAt_some hg).2
            refine ⟨fun x hx => ?_, fun _ x hx => ?_⟩
            · rw [← hgrants]
              exact (mem_filter.mp hx).1
            · rw [← hid]
              exact of_decide_eq_true (mem_filter.mp hx).2
    · exact ⟨fun _ hg => hg, fun h => (by cases h)⟩

variable [Instants T]

theorem sweepLoop_spec {now : T} {gs : List (BreakGlassGrant T)} {n : ℕ} :
    (∀ g ∈ (sweepLoop o now gs s n).2.grants, g ∈ s.grants) ∧ s.reads ≤ (sweepLoop o now gs s n).2.reads ∧
      ∃ swept, (sweepLoop o now gs s n).2.log = s.log ++ swept := by
  induction gs generalizing s n with
  | nil => exact ⟨fun _ hg => hg, Nat.le_refl _, [], (append_nil _).symm⟩
  | cons g gs ih =>
    rw [sweepLoop]
    split
    · exact ih
    · split
      next s₁ hrecord =>
        obtain ⟨hgrants, hreads, hlog⟩ := record_cases hrecord
        obtain ⟨hsub, hmore, swept, hswept⟩ := @ih s₁ n
        rw [hlog, append_assoc] at hswept
        exact ⟨fun x hx => hgrants ▸ hsub x hx, Nat.le_trans hreads hmore, _, hswept⟩
      next s₁ hrecord =>
        obtain ⟨hgrants, hreads, hlog⟩ := record_cases hrecord
        obtain ⟨hsub, hmore, swept, hswept⟩ := @ih (s₁.delete g.id) (n + 1)
        have hdelete : (s₁.delete g.id).log = s₁.log := rfl
        rw [hdelete, hlog, append_assoc] at hswept
        refine ⟨fun x hx => ?_, Nat.le_trans hreads hmore, _, hswept⟩
        rw [← hgrants]
        exact (mem_filter.mp (hsub x hx)).1

/-- A sweep takes grants away and adds entries. -/
theorem sweep_spec : (∀ g ∈ (s.sweep o).2.grants, g ∈ s.grants) ∧ s.reads ≤ (s.sweep o).2.reads ∧
      ∃ swept, (s.sweep o).2.log = s.log ++ swept := by
  obtain ⟨hsub, hreads, hlog⟩ := @sweepLoop_spec T o { s with reads := s.reads + 1 } _ (o.clock s.reads) s.grants 0
  exact ⟨hsub, Nat.le_trans (Nat.le_succ _) hreads, hlog⟩

/-- The entry of a grant. -/
def grantedEvent (o : Outside T) (g : BreakGlassGrant T) (ttlMs : ℕ) (written : T) : AuditEvent T :=
  ⟨written, some g.holderUserId, o.host, "break-glass.granted", g.targetUserId,
    .granted g.id g.reason g.issuedAt g.expiresAt ttlMs⟩

theorem grant_spec {holder reason : String} {ttlMs : ℕ} :
    ∀ g ∈ (s.grant o holder target reason ttlMs).2.grants, g ∈ s.grants ∨
      (g.holderUserId = holder ∧ g.targetUserId = target ∧
        ∃ before written after, (s.grant o holder target reason ttlMs).2.log =
          s.log ++ before ++ grantedEvent o g ttlMs written :: after) := by
  obtain ⟨hsub, -, swept, hswept⟩ := @sweep_spec T o s _
  unfold grant
  dsimp only [clock]
  generalize (s.sweep o).2 = s₀ at hsub hswept ⊢
  generalize hrecord : record o _ "break-glass.granted" _ _ _ = r
  obtain ⟨written, s₁⟩ := r
  obtain ⟨hgrants, -, hlog⟩ := record_cases hrecord
  intro g hg
  cases written with
  | false => exact .inl (hsub g (hgrants ▸ hg))
  | true =>
    rw [if_pos rfl, hswept] at hlog
    dsimp only [put] at hg ⊢
    -- whatever the notice does, the grants are at most those of the map, and the log grows
    have hwhole : ∀ (s₂ : Registry T) after, s₂.log = s₁.log ++ after →
        (∀ x ∈ s₂.grants, x ∈ Keyed.upsert BreakGlassGrant.id (fun _ new => new)
          ⟨o.idGen s₀.ids, holder, target, reason, o.clock s₀.reads, Instants.plus (o.clock s₀.reads) ttlMs, none⟩
          s₁.grants) →
        g ∈ s₂.grants → g ∈ s.grants ∨ (g.holderUserId = holder ∧ g.targetUserId = target ∧
          ∃ before written after, s₂.log = s.log ++ before ++ grantedEvent o g ttlMs written :: after) := by
      intro s₂ after hafter hfew hmem
      obtain rfl | ⟨hold, -⟩ := Keyed.mem_upsert_replace (hfew g hmem)
      · refine .inr ⟨rfl, rfl, swept, o.clock (s₀.reads + 1), after, ?_⟩
        rw [hafter, hlog, append_assoc, singleton_append]
        rfl
      · rw [hgrants] at hold
        exact .inl (hsub g hold)
    generalize o.notify s₁.notices _ = told at hg ⊢
    cases told with
    | none => exact hwhole _ [] (append_nil _).symm (fun _ hx => hx) hg
    | some e =>
      dsimp only at hg ⊢
      generalize hfailed : record o _ "break-glass.notify-failed" _ _ _ = r at hg ⊢
      obtain ⟨written, s₃⟩ := r
      obtain ⟨hkept, -, hlast⟩ := record_cases hfailed
      cases hreq : o.requireNotification with
      | true =>
        simp only [hreq, if_true] at hg hkept hlast ⊢
        refine hwhole s₃ _ hlast (fun x hx => ?_) hg
        rw [hkept] at hx
        exact (mem_filter.mp hx).1
      | false => grind

/-- A grant that is there after a request was there before, or is the one that was asked for. -/
theorem request_spec {holder : Caller T} {req : BreakGlassRequest} :
    ∀ g ∈ (s.request o holder req).2.grants, g ∈ s.grants ∨
      ∃ p, holder = .object p ∧ p.userId = some g.holderUserId ∧ req.targetUserId = some g.targetUserId ∧
        ∃ ttlMs before written after, (s.request o holder req).2.log =
          s.log ++ before ++ grantedEvent o g ttlMs written :: after := by
  unfold request
  dsimp only [Registry.clock]
  split
  · exact fun g hg => .inl hg
  next htarget =>
    split
    next p =>
      split
      · exact fun g hg => .inl hg
      · split
        next userId _ huser =>
          split
          · exact fun g hg => .inl hg
          · obtain ⟨hgrants, hlog⟩ := @limits_spec T o { s with reads := s.reads + 1 }
            dsimp only at hgrants hlog
            split
            · exact fun g hg => .inl (hgrants ▸ hg)
            · split
              next ttlMs _ =>
                split
                · exact fun g hg => .inl (hgrants ▸ hg)
                · intro g hg
                  obtain hold | ⟨rfl, hto, before, written, after, hgranted⟩ := grant_spec g hg
                  · exact .inl (hgrants ▸ hold)
                  · refine .inr ⟨p, rfl, huser, ?_, ttlMs.toNat, before, written, after, ?_⟩
                    · cases hreq : req.targetUserId with
                      | none =>
                        rw [hreq] at htarget
                        exact absurd rfl htarget
                      | some target =>
                        rw [hreq] at hto
                        rw [hto]
                        rfl
                    · rw [hgranted, hlog]
              · exact fun g hg => .inl (hgrants ▸ hg)
        · exact fun g hg => .inl hg
    · exact fun g hg => .inl hg

theorem live_spec {holderUserId : Option String} :
    (∀ g ∈ (s.live o holderUserId).1, g ∈ s.grants) ∧ (s.live o holderUserId).2.grants = s.grants ∧
      (s.live o holderUserId).2.log = s.log :=
  ⟨fun _ hg => (mem_filter.mp hg).1, rfl, rfl⟩

variable {principal : Caller T} {resource : Resource}

theorem authorize_grants : ∀ g ∈ (s.authorize o principal action resource).2.grants, g ∈ s.grants := by
  obtain ⟨hsub, -, -⟩ := @sweep_spec T o s _
  unfold authorize
  dsimp only [Registry.clock, live]
  split
  · split
    · split
      next s₁ hrecord => exact fun g hg => hsub g ((record_cases hrecord).1 ▸ hg)
      next s₁ hrecord => exact fun g hg => hsub g ((record_cases hrecord).1 ▸ hg)
    · exact hsub
  · exact hsub

/-- An allowance by break-glass: the grant that opens the cards is kept, and its use is the last entry. -/
theorem authorize_spec {gid : Option String}
    (h : s.authorize o principal action resource = (.allow .breakGlass gid, s')) :
    ∃ p holder target g k swept written, principal = .object p ∧ p.userId = some holder ∧
      action = "memory.user.read" ∧ resource = .memoryUser (some target) ∧ g ∈ s.grants ∧ gid = some g.id ∧
      s.reads ≤ k ∧ k < s'.reads ∧ g.Opens holder target (o.clock k) ∧
      s'.log = s.log ++ swept ++
        [⟨written, some holder, o.host, "break-glass.used", target, .used (some g.id) action⟩] := by
  obtain ⟨hsub, hreads, swept, hswept⟩ := @sweep_spec T o s _
  unfold authorize at h
  dsimp only [Registry.clock, live] at h
  generalize (s.sweep o).2 = s₀ at hsub hreads hswept h
  split at h
  next p =>
    split at h
    next gid' hallow =>
      obtain ⟨rfl, grants, t, g, holder, target, hgrants, hnow, hmem, rfl, hholder, rfl, hopens⟩ :=
        authorize_breakGlass hallow
      cases hgrants
      cases hnow
      split at h
      · cases h
      next s₁ hrecord =>
        cases h
        obtain ⟨-, hmore, hlog⟩ := record_cases hrecord
        rw [if_pos rfl] at hlog
        have hkept : g ∈ s₀.grants := (mem_filter.mp hmem).1
        have hholder : p.userId = some holder := hholder
        refine ⟨p, holder, target, g, s₀.reads, swept, o.clock (s₀.reads + 2), rfl, hholder, rfl, rfl, hsub g hkept, rfl,
          hreads, ?_, hopens, ?_⟩
        · dsimp only at hmore
          omega
        · rw [hlog, hswept, hholder]
          rfl
    next d hother =>
      obtain ⟨hd, -⟩ := Prod.mk.inj h
      exact absurd hd (hother _)
  next caller hcaller =>
    obtain ⟨hd, -⟩ := Prod.mk.inj h
    cases principal with
    | missing => cases hd
    | object p => exact absurd rfl (hcaller p)
    | other => cases hd

/-- What the principal brings along decides nothing. -/
theorem authorize_carried (p : Principal T) (carried : Option (List (BreakGlassGrant T))) (action : String)
    (resource : Resource) :
    s.authorize o (.object { p with breakGlass := carried }) action resource =
      s.authorize o (.object p) action resource := rfl

end Registry

/-! ### Histories -/

section

variable {T : Type} [Instants T] {o : Outside T}

/-- The registry after some calls. -/
def after (o : Outside T) (ops : List (Op T)) : Registry T := ops.foldl (act o) {}

theorem after_snoc (ops : List (Op T)) (op : Op T) : after o (ops ++ [op]) = act o (after o ops) op := by
  rw [after, foldl_append]
  rfl

/-- The holder of the grant asked for it, the request wrote it down, and every attempt to revoke it
since has failed. -/
def Recorded (o : Outside T) (ops : List (Op T)) (g : BreakGlassGrant T) : Prop :=
  ∃ before p req later, ops = before ++ .request (.object p) req :: later ∧
    p.userId = some g.holderUserId ∧ req.targetUserId = some g.targetUserId ∧
    (∃ ttlMs first written last, (act o (after o before) (.request (.object p) req)).log =
      (after o before).log ++ first ++ Registry.grantedEvent o g ttlMs written :: last) ∧
    ∀ mid actor rest, later = mid ++ .revoke actor g.id :: rest →
      ((after o (before ++ .request (.object p) req :: mid)).revoke o actor g.id).1 ≠ .ok ()

theorem Recorded.snoc {ops : List (Op T)} {g : BreakGlassGrant T} (h : Recorded o ops g) {op : Op T}
    (hop : ∀ actor, op = .revoke actor g.id → ((after o ops).revoke o actor g.id).1 ≠ .ok ()) :
    Recorded o (ops ++ [op]) g := by
  obtain ⟨before, p, req, later, rfl, huser, htarget, hlog, hrevoke⟩ := h
  refine ⟨before, p, req, later ++ [op], by rw [append_assoc, cons_append], huser, htarget, hlog, ?_⟩
  intro mid actor rest hsplit
  obtain rfl | ⟨rest', last, rfl⟩ := eq_nil_or_concat rest
  · simp_all
  · rw [concat_eq_append, ← cons_append, ← append_assoc] at hsplit
    exact hrevoke mid actor rest' (append_inj' hsplit rfl).1

/-- One more call: what is kept was kept before, or is the grant of a request. -/
theorem act_recorded {ops : List (Op T)} (op : Op T) (h : ∀ g ∈ (after o ops).grants, Recorded o ops g) :
    ∀ g ∈ (act o (after o ops) op).grants, Recorded o (ops ++ [op]) g := by
  have hkept : ∀ g ∈ (after o ops).grants, (∀ actor id, op ≠ .revoke actor id) → Recorded o (ops ++ [op]) g :=
    fun g hg hno => (h g hg).snoc fun actor hop => absurd hop (hno actor g.id)
  intro g hg
  cases op with
  | request holder req =>
    obtain hold | ⟨p, rfl, huser, htarget, hlog⟩ := Registry.request_spec g hg
    · exact hkept g hold fun _ _ hno => (by cases hno)
    · refine ⟨ops, p, req, [], rfl, huser, htarget, hlog, fun mid actor rest hsplit => ?_⟩
      simp at hsplit
  | revoke actor id =>
    obtain ⟨hsub, hgone⟩ := @Registry.revoke_grants T o (after o ops) actor id
    refine (h g (hsub g hg)).snoc ?_
    rintro actor' heq hok
    cases heq
    exact hgone hok g hg rfl
  | sweep => exact hkept g (Registry.sweep_spec.1 g hg) fun _ _ hno => (by cases hno)
  | active holderUserId => exact hkept g (Registry.sweep_spec.1 g hg) fun _ _ hno => (by cases hno)
  | authorize principal action resource =>
    exact hkept g (Registry.authorize_grants g hg) fun _ _ hno => (by cases hno)

theorem grants_recorded (ops : List (Op T)) : ∀ g ∈ (after o ops).grants, Recorded o ops g := by
  induction ops using List.reverseRecOn with
  | nil => exact fun g hg => absurd hg not_mem_nil
  | append_singleton ops op ih =>
    rw [after_snoc]
    exact act_recorded op ih

/-- Access by break-glass, after any history: the holder asked for the grant and the request wrote it
down, the grant has not been revoked, the clock reads an instant at which it opens the cards of the
target, and the use is the last entry of the log. What the principal brings along decides nothing. -/
theorem breakGlass_recorded (o : Outside T) :
    (∀ ops principal action resource gid s', (after o ops).authorize o principal action resource =
        (.allow .breakGlass gid, s') →
      ∃ p holder target g k swept written, principal = .object p ∧ p.userId = some holder ∧
        action = "memory.user.read" ∧ resource = .memoryUser (some target) ∧ gid = some g.id ∧
        Recorded o ops g ∧
        (after o ops).reads ≤ k ∧ k < s'.reads ∧ g.Opens holder target (o.clock k) ∧
        s'.log = (after o ops).log ++ swept ++
          [⟨written, some holder, o.host, "break-glass.used", target, .used (some g.id) action⟩]) ∧
    ∀ (s : Registry T) p carried action resource,
      s.authorize o (.object { p with breakGlass := carried }) action resource =
        s.authorize o (.object p) action resource := by
  refine ⟨?_, fun s p carried action resource => Registry.authorize_carried p carried action resource⟩
  intro ops principal action resource gid s' h
  obtain ⟨p, holder, target, g, k, swept, written, rfl, hholder, rfl, rfl, hg, rfl, hlow, hhigh, hopens, hlog⟩ :=
    Registry.authorize_spec h
  exact ⟨p, holder, target, g, k, swept, written, rfl, hholder, rfl, rfl, rfl, grants_recorded ops g hg, hlow, hhigh,
    hopens, hlog⟩

end

/-- Whole milliseconds. -/
instance instInstantsNat : Instants ℕ where
  before a b := a < b
  notBefore a b := b ≤ a
  isFinite _ := true
  plus a b := a + b

def quietOutside : Outside ℕ where
  clock n := 1000 + n
  append _ _ := true
  notify _ _ := none
  idGen n := "g" ++ toString n
  limits := none
  requireNotification := true
  host := "local"

def adminPrincipal : Principal ℕ := ⟨some "ada", some (some .person), some .admin, none, none, none, none⟩

def sampleHistory : List (Op ℕ) :=
  [.request (.object adminPrincipal) ⟨some "bob", some "a reason that is long enough", none⟩]

theorem breakGlass_recorded_sample : ∃ g : BreakGlassGrant ℕ, g.id = "g0" ∧ Recorded quietOutside sampleHistory g := by
  have hallow : ((after quietOutside sampleHistory).authorize quietOutside (.object adminPrincipal) "memory.user.read"
      (.memoryUser (some "bob"))).1 = .allow .breakGlass (some "g0") := by
    decide
  obtain ⟨p, holder, target, g, k, swept, written, -, -, -, -, hid, hrecorded, -⟩ :=
    (breakGlass_recorded quietOutside).1 sampleHistory (.object adminPrincipal) "memory.user.read"
      (.memoryUser (some "bob")) (some "g0") _ (Prod.ext hallow rfl)
  exact ⟨g, (Option.some.inj hid).symm, hrecorded⟩

end Plur1bus.Rbac
