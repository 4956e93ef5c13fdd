import Plur1bus.Api.Totp

/-!
What is spent stays spent. The writes on the record of a user are a history, so it is enough to
say what one write can do to a record, and to follow it from write to write: while the factor
is on, the newest step only grows and the backup codes only become fewer.
-/

namespace Plur1bus.Api

open Program Serial List

variable {crypto : Crypto}

/-! ### What a call can write -/

/-- A step that is accepted is of the window, and newer than the newest before it. -/
theorem newestHit_spec (key : List ℕ) (given : List Char) (lastStep : ℤ) (steps : List ℤ) :
    newestHit crypto key given lastStep steps = -1 ∨ lastStep < newestHit crypto key given lastStep steps := by
  have hkeep : ∀ hit : ℤ, hit = -1 ∨ lastStep < hit → let out := steps.foldl (fun hit step =>
        if given = hotp crypto key step.toNat ∧ step > lastStep ∧ step > hit then step else hit) hit
      out = -1 ∨ lastStep < out := by
    induction steps with
    | nil => exact fun hit h => h
    | cons step steps ih =>
      intro hit h
      apply ih
      dsimp only
      split
      next hnew => exact .inr hnew.2.1
      next => exact h
  exact hkeep (-1) (.inl rfl)

variable {code : Option (List Char)} {now step : ℤ}

theorem lt_of_verifyTotp {secret : List Char} {lastStep : ℤ}
    (h : verifyTotp crypto secret code now lastStep = .ok step) : lastStep < step := by
  unfold verifyTotp at h
  cases code with
  | none => cases h
  | some code =>
    dsimp only at h
    split at h
    · cases h
    next key _ =>
      split at h
      · split at h
        · cases h
        · split at h
          next hhit =>
            injection h with h
            subst h
            have hspec := @newestHit_spec crypto key (code.filter fun ch => !isWhite ch) lastStep
              [stepOf now - 1, stepOf now, stepOf now + 1]
            omega
          · cases h
      · cases h

variable {r : TotpRecord}

theorem mem_of_spendable {code : List Char} {h : String} (hspend : spendable crypto r code = some h) :
    h = crypto.sha256hex (normBackup crypto code) ∧ h ∈ r.backupHashes := by
  unfold spendable at hspend
  dsimp only at hspend
  split at hspend
  next hmem =>
    cases hspend
    exact ⟨rfl, hmem.2⟩
  next => cases hspend

/-- What a write can be. -/
inductive Move (crypto : Crypto) : Op → Option TotpRecord → Option TotpRecord → Answer → Prop
  | begun (secret : List Char) (now : ℤ) (cur : Option TotpRecord) (hoff : cur.any TotpRecord.enabled = false) :
    Move crypto (.begin secret) cur (some ⟨secret, false, now, none, []⟩) .begun
  | confirmed (r : TotpRecord) (code : Option (List Char)) (codes : List (List Char)) (step : ℤ)
    (hashes : List String) (hoff : r.enabled = false) :
    Move crypto (.confirm code codes) (some r)
      (some { r with enabled := true, lastStep := some step, backupHashes := hashes }) (.confirmed step hashes)
  | totp (r : TotpRecord) (code : List Char) (step : ℤ) (hon : r.enabled = true) (hnew : r.last < step) :
    Move crypto (.verify (some code)) (some r) (some { r with lastStep := some step }) (.totp step)
  | backup (r : TotpRecord) (code : List Char) (h : String) (hon : r.enabled = true)
    (hcode : h = crypto.sha256hex (normBackup crypto code)) (hmem : h ∈ r.backupHashes) :
    Move crypto (.verify (some code)) (some r) (some { r with backupHashes := r.backupHashes.erase h }) (.backup h)
  | disabledByStep (r : TotpRecord) (code : List Char) (step : ℤ) (hon : r.enabled = true)
    (hnew : r.last < step) : Move crypto (.disable (some code)) (some r) none (.disabledByStep step)
  | disabledByBackup (r : TotpRecord) (code : List Char) (h : String) (hon : r.enabled = true)
    (hcode : h = crypto.sha256hex (normBackup crypto code)) (hmem : h ∈ r.backupHashes) :
    Move crypto (.disable (some code)) (some r) none (.disabledByBackup h)

variable {a : Answer}

theorem move_of_planVerify {cur next : Option TotpRecord}
    (h : planVerify crypto code now cur = .write next a) : Move crypto (.verify code) cur next a := by
  cases cur with
  | none => cases h
  | some r =>
    simp only [planVerify] at h
    split at h
    next text hon =>
      split at h
      · cases h
      next step hok =>
        cases h
        exact .totp r text step hon (lt_of_verifyTotp hok)
      · split at h
        · cases h
        next hash hspend =>
          cases h
          obtain ⟨hcode, hmem⟩ := mem_of_spendable hspend
          exact .backup r text hash hon hcode hmem
    · cases h

theorem move_of_planDisable {cur next : Option TotpRecord}
    (h : planDisable crypto code now cur = .write next a) : Move crypto (.disable code) cur next a := by
  cases cur with
  | none => cases h
  | some r =>
    simp only [planDisable] at h
    split at h
    next text hon =>
      split at h
      · cases h
      next step hok =>
        cases h
        exact .disabledByStep r text step hon (lt_of_verifyTotp hok)
      · split at h
        · cases h
        next hash hspend =>
          cases h
          obtain ⟨hcode, hmem⟩ := mem_of_spendable hspend
          exact .disabledByBackup r text hash hon hcode hmem
    · cases h

variable {op : Op}

theorem move_of_plan {cur next : Option TotpRecord} (h : plan crypto op now cur = .write next a) :
    Move crypto op cur next a := by
  cases op with
  | begin secret =>
    change planBegin secret now cur = _ at h
    unfold planBegin at h
    split at h
    · cases h
    next hoff =>
      cases h
      exact .begun secret now cur (Bool.eq_false_iff.mpr hoff)
  | confirm code codes =>
    change planConfirm crypto code codes now cur = _ at h
    cases cur with
    | none => cases h
    | some r =>
      simp only [planConfirm] at h
      split at h
      · cases h
      next hoff =>
        split at h
        · cases h
        · cases h
        next step hok =>
          cases h
          exact .confirmed r code codes step _ (Bool.eq_false_iff.mpr hoff)
  | verify code => exact move_of_planVerify h
  | disable code => exact move_of_planDisable h

theorem Move.ne_no {cur next : Option TotpRecord} (h : Move crypto op cur next a) : a ≠ .no := by
  intro ha
  cases h with
  | begun => cases ha
  | confirmed => cases ha
  | totp => cases ha
  | backup => cases ha
  | disabledByStep => cases ha
  | disabledByBackup => cases ha

/-! ### While the factor is on -/

variable {U : Type}

abbrev TotpWrite (U : Type) := Entry U TotpRecord Op ℤ Answer

/-- The step that confirm or verify accepted. -/
def Answer.step? : Answer → Option ℤ
  | .confirmed step _ | .totp step => some step
  | _ => none

/-- The backup code that verify accepted, as its hash. -/
def Answer.backup? : Answer → Option String
  | .backup h => some h
  | _ => none

def steps (log : List (TotpWrite U)) : List ℤ := log.filterMap fun e => e.answer.step?

def spent (log : List (TotpWrite U)) : List String := log.filterMap fun e => e.answer.backup?

/-- The backup codes at the start of a stretch of writes: those that its confirm issued, or
those that the record had. -/
def issued : List (TotpWrite U) → List String
  | [] => []
  | e :: _ =>
    match e.answer with
    | .confirmed _ hashes => hashes
    | _ => (e.before.map TotpRecord.backupHashes).getD []

/-- Every write leaves the factor on. -/
def StaysOn (log : List (TotpWrite U)) : Prop := ∀ e ∈ log, e.after.any TotpRecord.enabled = true

/-- Every write is one that a call can make. -/
def Moves (crypto : Crypto) (log : List (TotpWrite U)) : Prop :=
  ∀ e ∈ log, Move crypto e.op e.before e.after e.answer

/-- What has become of a record over writes that left the factor on. -/
structure WornTo (r : TotpRecord) (log : List (TotpWrite U)) (r' : TotpRecord) : Prop where
  enabled : r'.enabled = true
  secret : r'.secret = r.secret
  newer : ∀ step ∈ steps log, r.last < step ∧ step ≤ r'.last
  grows : r.last ≤ r'.last
  increasing : (steps log).Pairwise (· < ·)
  fewer : (spent log ++ r'.backupHashes).Perm r.backupHashes

variable {r' : TotpRecord} {log : List (TotpWrite U)} {e : TotpWrite U}

theorem WornTo.totp (h : WornTo { r with lastStep := some step } log r') (ha : e.answer = .totp step)
    (hnew : r.last < step) : WornTo r (e :: log) r' := by
  have hsteps : steps (e :: log) = step :: steps log := by
    simp only [steps, filterMap_cons, ha, Answer.step?]
  have hspent : spent (e :: log) = spent log := by
    simp only [spent, filterMap_cons, ha, Answer.backup?]
  have hlast : step ≤ r'.last := h.grows
  refine ⟨h.enabled, h.secret, ?_, ?_, ?_, ?_⟩
  · rw [hsteps]
    intro x hx
    obtain rfl | hx := mem_cons.mp hx
    · exact ⟨hnew, hlast⟩
    · have hlt : step < x := (h.newer x hx).1
      exact ⟨Int.lt_trans hnew hlt, (h.newer x hx).2⟩
  · omega
  · rw [hsteps, pairwise_cons]
    exact ⟨fun x hx => (h.newer x hx).1, h.increasing⟩
  · rw [hspent]
    exact h.fewer

theorem WornTo.backup {hash : String}
    (h : WornTo { r with backupHashes := r.backupHashes.erase hash } log r')
    (ha : e.answer = .backup hash) (hmem : hash ∈ r.backupHashes) : WornTo r (e :: log) r' := by
  have hsteps : steps (e :: log) = steps log := by
    simp only [steps, filterMap_cons, ha, Answer.step?]
  have hspent : spent (e :: log) = hash :: spent log := by
    simp only [spent, filterMap_cons, ha, Answer.backup?]
  refine ⟨h.enabled, h.secret, ?_, h.grows, ?_, ?_⟩
  · rw [hsteps]
    exact h.newer
  · rw [hsteps]
    exact h.increasing
  · rw [hspent, cons_append]
    exact (h.fewer.cons hash).trans (perm_cons_erase hmem).symm

/-- Over writes that leave the factor on, by induction on the writes. -/
theorem worn {after : Option TotpRecord} (hon : r.enabled = true) (hlinked : Linked (some r) log after)
    (hmoves : Moves crypto log) (hstays : StaysOn log) : ∃ r', after = some r' ∧ WornTo r log r' := by
  induction log generalizing r with
  | nil =>
    have hafter : some r = after := hlinked
    subst hafter
    exact ⟨r, rfl, hon, rfl, fun _ h => absurd h not_mem_nil, Int.le_refl _, List.Pairwise.nil, List.Perm.refl _⟩
  | cons e log ih =>
    obtain ⟨hbefore, hlinked⟩ := hlinked
    have hmove := hmoves e mem_cons_self
    have hleft := hstays e mem_cons_self
    have hmoves' : Moves crypto log := fun x hx => hmoves x (mem_cons_of_mem _ hx)
    have hstays' : StaysOn log := fun x hx => hstays x (mem_cons_of_mem _ hx)
    obtain ⟨call, key, op, env, before, next, answer⟩ := e
    dsimp only at hbefore hmove hleft hlinked
    subst hbefore
    cases hmove with
    | begun secret now cur hoff =>
      rw [Option.any_some, hon] at hoff
      cases hoff
    | confirmed r code codes step hashes hoff =>
      rw [hon] at hoff
      cases hoff
    | totp r code step _ hnew =>
      obtain ⟨r', hafter, hworn⟩ := ih (by exact hon) hlinked hmoves' hstays'
      exact ⟨r', hafter, hworn.totp rfl hnew⟩
    | backup r code h _ hcode hmem =>
      obtain ⟨r', hafter, hworn⟩ := ih (by exact hon) hlinked hmoves' hstays'
      exact ⟨r', hafter, hworn.backup rfl hmem⟩
    | disabledByStep r code step _ hnew => cases hleft
    | disabledByBackup r code h _ hcode hmem => cases hleft

/-- A stretch of writes starts with the factor on, or with the confirm that turns it on. -/
theorem spent_of_staysOn {before after : Option TotpRecord} (hlinked : Linked before log after)
    (hmoves : Moves crypto log) (hstays : StaysOn log) :
    (steps log).Pairwise (· < ·) ∧ (spent log).Subperm (issued log) := by
  cases log with
  | nil => exact ⟨List.Pairwise.nil, nil_subperm⟩
  | cons e log =>
    have hwhole := hlinked
    obtain ⟨hbefore, hlinked⟩ := hlinked
    have hmove := hmoves e mem_cons_self
    have hleft := hstays e mem_cons_self
    have hon : ∀ r, before = some r → r.enabled = true → (∀ step hashes, e.answer ≠ .confirmed step hashes) →
        (steps (e :: log)).Pairwise (· < ·) ∧ (spent (e :: log)).Subperm (issued (e :: log)) := by
      rintro r rfl hr hne
      obtain ⟨r', -, hworn⟩ := worn hr hwhole hmoves hstays
      have hissued : issued (e :: log) = r.backupHashes := by
        rw [issued]
        split
        next step hashes ha => exact absurd ha (hne step hashes)
        next => rw [hbefore, Option.map_some, Option.getD_some]
      rw [hissued]
      exact ⟨hworn.increasing, ((sublist_append_left _ _).subperm).trans hworn.fewer.subperm⟩
    obtain ⟨call, key, op, env, before', next, answer⟩ := e
    dsimp only at hbefore hmove hleft hlinked
    subst hbefore
    cases hmove with
    | begun secret now cur hoff => cases hleft
    | confirmed r code codes step hashes hoff =>
      obtain ⟨r', -, hworn⟩ := worn (by rfl) hlinked (fun x hx => hmoves x (mem_cons_of_mem _ hx))
        (fun x hx => hstays x (mem_cons_of_mem _ hx))
      refine ⟨pairwise_cons.mpr ⟨fun x hx => (hworn.newer x hx).1, hworn.increasing⟩, ?_⟩
      exact ((sublist_append_left _ _).subperm).trans hworn.fewer.subperm
    | totp r code step hr hnew => exact hon r rfl hr (fun _ _ h => (by cases h))
    | backup r code h hr hcode hmem => exact hon r rfl hr (fun _ _ h => (by cases h))
    | disabledByStep r code step hr hnew => cases hleft
    | disabledByBackup r code h hr hcode hmem => cases hleft

/-! ### Turning it off -/

/-- A disable with a code newer than every code accepted since `r`, or with a backup code that
none of them spent. -/
structure TurnsOff (crypto : Crypto) (r : TotpRecord) (on : List (TotpWrite U)) (e : TotpWrite U) : Prop where
  before : ∃ r₀, e.before = some r₀ ∧ WornTo r on r₀
  after : e.after = none
  disabled : ∃ code, e.op = .disable (some code) ∧
    ((∃ step, e.answer = .disabledByStep step ∧ r.last < step ∧ ∀ x ∈ steps on, x < step) ∨
      (∃ h, e.answer = .disabledByBackup h ∧ h = crypto.sha256hex (normBackup crypto code) ∧
        (h :: spent on).Subperm r.backupHashes))

/-- The secret is another one only after the factor was turned off, by induction on the writes. -/
theorem turnsOff_of_secret (hon : r.enabled = true) (hlinked : Linked (some r) log (some r'))
    (hmoves : Moves crypto log) (hne : r'.secret ≠ r.secret) :
    ∃ on e rest, log = on ++ e :: rest ∧ StaysOn on ∧ TurnsOff crypto r on e := by
  induction log generalizing r with
  | nil =>
    obtain rfl : r = r' := Option.some.inj hlinked
    exact absurd rfl hne
  | cons e log ih =>
    obtain ⟨hbefore, hlinked⟩ := hlinked
    have hmove := hmoves e mem_cons_self
    have hmoves' : Moves crypto log := fun x hx => hmoves x (mem_cons_of_mem _ hx)
    obtain ⟨call, key, op, env, before, next, answer⟩ := e
    dsimp only at hbefore hmove hlinked
    subst hbefore
    have hfresh : WornTo r ([] : List (TotpWrite U)) r :=
      ⟨hon, rfl, fun _ h => absurd h not_mem_nil, Int.le_refl _, List.Pairwise.nil, List.Perm.refl _⟩
    have hnil : StaysOn ([] : List (TotpWrite U)) := fun _ h => absurd h not_mem_nil
    cases hmove with
    | begun secret now cur hoff =>
      rw [Option.any_some, hon] at hoff
      cases hoff
    | confirmed r code codes step hashes hoff =>
      rw [hon] at hoff
      cases hoff
    | totp r code step _ hnew =>
      obtain ⟨on, e, rest, rfl, hstays, hoff⟩ := ih (by exact hon) hlinked hmoves' hne
      refine ⟨_ :: on, e, rest, rfl, ?_, ?_⟩
      · intro x hx
        obtain rfl | hx := mem_cons.mp hx
        · exact hon
        · exact hstays x hx
      · obtain ⟨r₀, hr₀, hworn⟩ := hoff.before
        refine ⟨⟨r₀, hr₀, hworn.totp rfl hnew⟩, hoff.after, ?_⟩
        obtain ⟨code', hop, ⟨x, ha, hlt, hall⟩ | ⟨h, ha, hcode, hsub⟩⟩ := hoff.disabled
        · refine ⟨code', hop, .inl ⟨x, ha, Int.lt_trans hnew hlt, ?_⟩⟩
          intro y hy
          obtain rfl | hy := mem_cons.mp hy
          · exact hlt
          · exact hall y hy
        · exact ⟨code', hop, .inr ⟨h, ha, hcode, hsub⟩⟩
    | backup r code hash _ hcode hmem =>
      obtain ⟨on, e, rest, rfl, hstays, hoff⟩ := ih (by exact hon) hlinked hmoves' hne
      refine ⟨_ :: on, e, rest, rfl, ?_, ?_⟩
      · intro x hx
        obtain rfl | hx := mem_cons.mp hx
        · exact hon
        · exact hstays x hx
      · obtain ⟨r₀, hr₀, hworn⟩ := hoff.before
        refine ⟨⟨r₀, hr₀, hworn.backup rfl hmem⟩, hoff.after, ?_⟩
        obtain ⟨code', hop, ⟨x, ha, hlt, hall⟩ | ⟨h, ha, hcode', hsub⟩⟩ := hoff.disabled
        · exact ⟨code', hop, .inl ⟨x, ha, hlt, hall⟩⟩
        · refine ⟨code', hop, .inr ⟨h, ha, hcode', ?_⟩⟩
          have hswap : (h :: hash :: spent on).Perm (hash :: h :: spent on) := List.Perm.swap _ _ _
          have herase : (hash :: h :: spent on).Subperm (hash :: r.backupHashes.erase hash) := (subperm_cons hash).mpr hsub
          exact (hswap.subperm.trans herase).trans (perm_cons_erase hmem).symm.subperm
    | disabledByStep r code step _ hnew =>
      refine ⟨[], _, log, rfl, hnil, ⟨r, rfl, hfresh⟩, rfl, code, rfl, .inl ⟨step, rfl, hnew, ?_⟩⟩
      exact fun _ h => absurd h not_mem_nil
    | disabledByBackup r code h _ hcode hmem =>
      refine ⟨[], _, log, rfl, hnil, ⟨r, rfl, hfresh⟩, rfl, code, rfl, .inr ⟨h, rfl, hcode, ?_⟩⟩
      exact singleton_subperm_iff.mpr hmem

/-! ### Every run -/

/-- The writes on the record of a user. -/
def history [DecidableEq U] (s : TotpService U) (u : U) : List (TotpWrite U) := s.log.filter fun e => e.key = u

/-- What holds of a record and the writes on it. `Linked` says that nothing else changes a record. -/
structure SpentOnce [DecidableEq U] (crypto : Crypto) (store₀ : U → Option TotpRecord) (s : TotpService U) (u : U) : Prop where
  linked : Linked (store₀ u) (history s u) (s.store u)
  /-- While the factor stays on, steps increase, and a backup code is accepted as often as it was issued. -/
  once : ∀ earlier log later, history s u = earlier ++ log ++ later → StaysOn log →
    (steps log).Pairwise (· < ·) ∧ (spent log).Subperm (issued log)
  /-- A secret changes after a disable that had a code to present. -/
  secret : ∀ earlier log later r r', history s u = earlier ++ log ++ later → Linked (some r) log (some r') →
    r.enabled = true → r'.secret ≠ r.secret →
    ∃ on e rest, log = on ++ e :: rest ∧ StaysOn on ∧ TurnsOff crypto r on e
  /-- A call that threw or answered no wrote nothing. -/
  unchanged : ∀ (i : ℕ) (c : Call U TotpRecord Op ℤ Answer), s.calls[i]? = some c →
    c.phase = .done none ∨ c.phase = .done (some .no) → ∀ e ∈ s.log, e.call ≠ i

/-- Whatever the calls, the times and the failures of the store, from any records at the start. -/
theorem codes_spent_once [DecidableEq U] (crypto : Crypto) (store₀ : U → Option TotpRecord)
    (acts : List (Act U Op ℤ)) (u : U) :
    SpentOnce crypto store₀ (acts.foldl (State.act (plan crypto)) { store := store₀ }) u := by
  have hsound : Sound (plan crypto) store₀ (acts.foldl (State.act (plan crypto)) { store := store₀ }) :=
    sound_run store₀ acts
  set s := acts.foldl (State.act (plan crypto)) { store := store₀ }
  have hmoves : Moves crypto (history s u) := by
    intro e he
    exact move_of_plan (hsound.planned e (mem_filter.mp he).1)
  have hpart : ∀ {earlier log later : List (TotpWrite U)}, history s u = earlier ++ log ++ later →
      Moves crypto log := by
    intro earlier log later hsplit e he
    apply hmoves e
    rw [hsplit]
    exact mem_append_left _ (mem_append_right _ he)
  refine ⟨hsound.history u, ?_, ?_, ?_⟩
  · intro earlier log later hsplit hstays
    have hlinked := hsound.history u
    change Linked _ (history s u) _ at hlinked
    rw [hsplit, append_assoc] at hlinked
    obtain ⟨before, -, hlinked⟩ := linked_append.mp hlinked
    obtain ⟨after, hlinked, -⟩ := linked_append.mp hlinked
    exact spent_of_staysOn hlinked (hpart hsplit) hstays
  · intro earlier log later r r' hsplit hlinked hon hne
    exact turnsOff_of_secret hon hlinked (hpart hsplit) hne
  · rintro i c hc hphase e he rfl
    obtain ⟨c', hc', -, -, hdone⟩ := hsound.succeeded e he
    cases hc.symm.trans hc'
    have hmove := move_of_plan (hsound.planned e he)
    obtain hphase | hphase := hphase
    · rw [hphase] at hdone
      cases hdone
    · -- No write answers no.
      rw [hphase] at hdone
      injection hdone with hdone
      exact hmove.ne_no (Option.some.inj hdone).symm

end Plur1bus.Api
