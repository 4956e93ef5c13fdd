import Plur1bus.Approvals.Finality
import Mathlib.Data.List.Induction

/-!
What the replay rules remember, said in the terms the stores use. The stores
look a request's entries up by kind; `semantic` folds the rows into maps. Over
rows it accepts, the maps and the look-ups agree (`Reflects`), and so the
entry each store operation appends passes the rules.
-/

namespace Plur1bus.Approvals

open Program List Option

/-- The tuple an entry's payload is bound to. -/
def ChainEntry.tuple (e : ChainEntry) : Option (List String) :=
  e.payload.parsed.bind (fun p => bindingTuple (p.get "bound"))

def ChainEntry.decision (e : ChainEntry) : Option Json := e.payload.parsed.bind (·.get "decision")

/-- The two texts the rules keep for a decision. -/
def ChainEntry.verdict (e : ChainEntry) : String := if e.decision = some approve then "approve" else "deny"

def ChainEntry.asRequested (e : ChainEntry) : Option Requested := e.tuple.map (⟨·, e.nonce⟩)

/-- The entry of a kind under an id, as the stores find it. -/
def lookup (rows : List ChainEntry) (id : String) (kind : Kind) : Option ChainEntry :=
  find (rows.filter (fun e => e.refId = id)) kind

section Lookup

variable {rows : List ChainEntry} {e r : ChainEntry} {id : String} {kind : Kind}

theorem lookup_append : lookup (rows ++ [e]) id kind =
    (lookup rows id kind).or (if e.refId = id ∧ e.kind = kind then some e else none) := by
  unfold lookup find
  rw [filter_append, List.find?_append]
  congr 1
  by_cases hid : e.refId = id <;> by_cases hk : e.kind = kind <;> simp [hid, hk]

theorem lookup_append_of_kind (h : e.kind ≠ kind) : lookup (rows ++ [e]) id kind = lookup rows id kind := by
  simp [lookup_append, h]

theorem lookup_append_of_id (h : e.refId ≠ id) : lookup (rows ++ [e]) id kind = lookup rows id kind := by
  simp [lookup_append, h]

theorem lookup_append_new (h : lookup rows e.refId e.kind = none) :
    lookup (rows ++ [e]) e.refId e.kind = some e := by
  simp [lookup_append, h]

theorem lookup_append_some (h : lookup rows id kind = some r) : lookup (rows ++ [e]) id kind = some r := by
  simp [lookup_append, h]

end Lookup

/-! ### The rules, read backwards -/

section Rules

variable {st st' : Replay} {e : ChainEntry} {tuple : Option (List String)}

theorem boundRequest_eq_some {r : Requested} : boundRequest st e tuple = some r ↔
      st.requested.lookup e.refId = some r ∧ tuple = some r.tuple := by
  grind [boundRequest]

theorem replayRequested_ok (h : replayRequested st e tuple = .ok st') :
    ∃ t, tuple = some t ∧ st.requested.lookup e.refId = none ∧
      st' = { st with requested := (e.refId, ⟨t, e.nonce⟩) :: st.requested } := by
  unfold replayRequested at h
  split at h
  · cases h
  · rename_i t
    split at h
    · cases h
    · rename_i hnew
      cases h
      exact ⟨t, rfl, not_isSome_iff_eq_none.mp hnew, rfl⟩

theorem replayDecided_ok {decision : Option Json}
    (h : replayDecided st e tuple decision = .ok st') :
    ∃ n r, e.nonce = some n ∧ st.requested.lookup e.refId = some r ∧ r.nonce = some n ∧
      st.decided.lookup e.refId = none ∧
      st' = { st with nonces := n :: st.nonces,
                      decided := (e.refId, if decision = some approve then "approve" else "deny") ::
                        st.decided } := by
  unfold replayDecided at h
  split at h
  · cases h
  · rename_i n hn
    split at h
    · cases h
    · split at h
      · cases h
      · rename_i hbound
        split at h
        · cases h
        · rename_i hundecided
          split at h
          · cases h
          · obtain ⟨r, hr, hrn⟩ : ∃ r, boundRequest st e tuple = some r ∧ r.nonce = some n := by
              cases hb : boundRequest st e tuple with
              | none => simp [hb] at hbound
              | some r => exact ⟨r, rfl, by simpa [hb, Option.filter] using hbound⟩
            refine ⟨n, r, hn, (boundRequest_eq_some.mp hr).1, hrn, not_isSome_iff_eq_none.mp hundecided, ?_⟩
            split at h
            · rename_i happrove
              cases h
              simp [happrove]
            · rename_i happrove
              split at h
              · cases h
                simp [happrove]
              · cases h

theorem replayCancelled_ok (h : replayCancelled st e tuple = .ok st') :
    st' = { st with cancelled := e.refId :: st.cancelled } := by
  unfold replayCancelled at h
  split at h
  · cases h
  · cases h
    rfl

theorem replayUsed_ok (h : replayUsed st e tuple = .ok st') :
    st' = { st with used := e.refId :: st.used } := by
  unfold replayUsed at h
  split at h
  · cases h
  · split at h
    · cases h
    · cases h
      rfl

/-- What a turn of the loop can do. -/
theorem replayEntry_cases (h : replayEntry st e = .ok st') :
    (e.kind ≠ .requested ∧ e.kind ≠ .decided ∧ e.kind ≠ .cancelled ∧ e.kind ≠ .used ∧ st' = st) ∨
    (∃ t, e.kind = .requested ∧ e.tuple = some t ∧ st.requested.lookup e.refId = none ∧
      st' = { st with requested := (e.refId, ⟨t, e.nonce⟩) :: st.requested }) ∨
    (∃ n r, e.kind = .decided ∧ st.requested.lookup e.refId = some r ∧ r.nonce = some n ∧
      st.decided.lookup e.refId = none ∧
      st' = { st with nonces := n :: st.nonces, decided := (e.refId, e.verdict) :: st.decided }) ∨
    (e.kind = .cancelled ∧ st' = { st with cancelled := e.refId :: st.cancelled }) ∨
    (e.kind = .used ∧ st' = { st with used := e.refId :: st.used }) := by
  unfold replayEntry at h
  split at h
  case isFalse hk =>
    left
    cases h
    refine ⟨?_, ?_, ?_, ?_, rfl⟩ <;>
      · intro hk'
        rw [hk'] at hk
        exact hk rfl
  case isTrue =>
    split at h
    · cases h
    · rename_i p hp
      split at h
      · have htuple : e.tuple = bindingTuple (p.get "bound") := by simp [ChainEntry.tuple, hp]
        have hdecision : e.decision = p.get "decision" := by simp [ChainEntry.decision, hp]
        dsimp only at h
        rw [← htuple, ← hdecision] at h
        cases hk : e.kind <;> rw [hk] at h <;> dsimp only at h
        case requested =>
          obtain ⟨t, ht, hnew, hst⟩ := replayRequested_ok h
          exact .inr (.inl ⟨t, rfl, ht, hnew, hst⟩)
        case decided =>
          obtain ⟨n, r, -, hr, hrn, hnew, hst⟩ := replayDecided_ok h
          exact .inr (.inr (.inl ⟨n, r, rfl, hr, hrn, hnew, hst⟩))
        case cancelled => exact .inr (.inr (.inr (.inl ⟨rfl, replayCancelled_ok h⟩)))
        case used => exact .inr (.inr (.inr (.inr ⟨rfl, replayUsed_ok h⟩)))
        all_goals
          cases h
          exact .inl ⟨nofun, nofun, nofun, nofun, rfl⟩
      · cases h

end Rules

/-! ### The maps are the look-ups -/

/-- The maps of the rules, as what the stores look up. -/
structure Reflects (rows : List ChainEntry) (st : Replay) : Prop where
  requested : ∀ id, (lookup rows id .requested).map ChainEntry.asRequested =
    (st.requested.lookup id).map some
  decided : ∀ id, (lookup rows id .decided).map ChainEntry.verdict = st.decided.lookup id
  used : ∀ id, (lookup rows id .used).isSome = true ↔ id ∈ st.used
  cancelled : ∀ id, (lookup rows id .cancelled).isSome = true ↔ id ∈ st.cancelled
  nonces : ∀ n ∈ st.nonces, ∃ id e, lookup rows id .requested = some e ∧ e.nonce = some n ∧
    (lookup rows id .decided).isSome = true

theorem reflects_nil : Reflects [] {} where
  requested := fun _ => rfl
  decided := fun _ => rfl
  used := fun _ => by simp [lookup, find]
  cancelled := fun _ => by simp [lookup, find]
  nonces := by simp

section Step

variable {rows : List ChainEntry} {st st' : Replay} {e : ChainEntry}

variable {id : String}

theorem Reflects.lookup_requested (h : Reflects rows st) (hid : st.requested.lookup id = none) :
    lookup rows id .requested = none := by
  have := h.requested id
  rw [hid] at this
  simpa using this

theorem Reflects.lookup_decided (h : Reflects rows st) (hid : st.decided.lookup id = none) :
    lookup rows id .decided = none := by
  have := h.decided id
  rw [hid] at this
  simpa using this

/-- Look-ups of the other kinds do not see a new entry. -/
theorem Reflects.frame (h : Reflects rows st) (hr : e.kind ≠ .requested) (hd : e.kind ≠ .decided)
    (hc : e.kind ≠ .cancelled) (hu : e.kind ≠ .used) : Reflects (rows ++ [e]) st := by
  refine ⟨fun id => ?_, fun id => ?_, fun id => ?_, fun id => ?_, fun n hn => ?_⟩
  · rw [lookup_append_of_kind hr, h.requested]
  · rw [lookup_append_of_kind hd, h.decided]
  · rw [lookup_append_of_kind hu, h.used]
  · rw [lookup_append_of_kind hc, h.cancelled]
  · obtain ⟨id, r, hlook, hrn, hdec⟩ := h.nonces n hn
    exact ⟨id, r, lookup_append_some hlook, hrn, by rwa [lookup_append_of_kind hd]⟩

theorem isSome_lookup_append_iff {kind : Kind} (hk : e.kind = kind) (id : String) :
    (lookup (rows ++ [e]) id kind).isSome = true ↔ (lookup rows id kind).isSome = true ∨ id = e.refId := by
  by_cases hid : id = e.refId
  · cases hl : lookup rows id kind <;> simp [lookup_append, hk, ← hid, hl]
  · rw [lookup_append_of_id (Ne.symm hid)]
    simp [hid]

theorem Reflects.requested_step (h : Reflects rows st) {t : List String}
    (hk : e.kind = .requested) (ht : e.tuple = some t)
    (hnew : st.requested.lookup e.refId = none) :
    Reflects (rows ++ [e])
      { st with requested := (e.refId, ⟨t, e.nonce⟩) :: st.requested } := by
  have hother : ∀ kind, kind ≠ .requested → e.kind ≠ kind := fun kind hne hk' => hne (hk'.symm.trans hk)
  refine ⟨fun id => ?_, fun id => ?_, fun id => ?_, fun id => ?_, fun n hn => ?_⟩
  · by_cases hid : id = e.refId
    · have hnone := h.lookup_requested hnew
      rw [hid, ← hk, lookup_append_new (by rwa [hk])]
      simp [ChainEntry.asRequested, ht]
    · have hne : (id == e.refId) = false := by simpa using hid
      rw [lookup_append_of_id (Ne.symm hid), h.requested, lookup_cons, hne]
  · rw [lookup_append_of_kind (hother _ (by decide)), h.decided]
  · rw [lookup_append_of_kind (hother _ (by decide)), h.used]
  · rw [lookup_append_of_kind (hother _ (by decide)), h.cancelled]
  · obtain ⟨id, r, hlook, hrn, hdec⟩ := h.nonces n hn
    exact ⟨id, r, lookup_append_some hlook, hrn, by rwa [lookup_append_of_kind (hother _ (by decide))]⟩

theorem Reflects.decided_step (h : Reflects rows st) {n : String} {r : Requested}
    (hk : e.kind = .decided) (hr : st.requested.lookup e.refId = some r) (hrn : r.nonce = some n)
    (hnew : st.decided.lookup e.refId = none) :
    Reflects (rows ++ [e])
      { st with nonces := n :: st.nonces, decided := (e.refId, e.verdict) :: st.decided } := by
  have hother : ∀ kind, kind ≠ .decided → e.kind ≠ kind := fun kind hne hk' => hne (hk'.symm.trans hk)
  have hnone := h.lookup_decided hnew
  refine ⟨fun id => ?_, fun id => ?_, fun id => ?_, fun id => ?_, fun m hm => ?_⟩
  · rw [lookup_append_of_kind (hother _ (by decide)), h.requested]
  · by_cases hid : id = e.refId
    · rw [hid, ← hk, lookup_append_new (by rwa [hk])]
      simp
    · have hne : (id == e.refId) = false := by simpa using hid
      rw [lookup_append_of_id (Ne.symm hid), h.decided, lookup_cons, hne]
  · rw [lookup_append_of_kind (hother _ (by decide)), h.used]
  · rw [lookup_append_of_kind (hother _ (by decide)), h.cancelled]
  · rcases mem_cons.mp hm with rfl | hm
    · -- the nonce is that of the decided request
      obtain ⟨q, hq, hqn⟩ : ∃ q, lookup rows e.refId .requested = some q ∧ q.nonce = some m := by
        have hreq := h.requested e.refId
        rw [hr] at hreq
        cases hq : lookup rows e.refId .requested with
        | none => simp [hq] at hreq
        | some q =>
            refine ⟨q, rfl, ?_⟩
            simp only [hq, map_some, Option.some.injEq, ChainEntry.asRequested, map_eq_some_iff] at hreq
            obtain ⟨t, -, rfl⟩ := hreq
            exact hrn
      exact ⟨e.refId, q, lookup_append_some hq, hqn, by
        rw [isSome_lookup_append_iff hk]
        exact .inr rfl⟩
    · obtain ⟨id, q, hlook, hqn, hdec⟩ := h.nonces m hm
      exact ⟨id, q, lookup_append_some hlook, hqn, by
        rw [isSome_lookup_append_iff hk]
        exact .inl hdec⟩

theorem Reflects.cancelled_step (h : Reflects rows st) (hk : e.kind = .cancelled) :
    Reflects (rows ++ [e]) { st with cancelled := e.refId :: st.cancelled } := by
  have hother : ∀ kind, kind ≠ .cancelled → e.kind ≠ kind := fun kind hne hk' => hne (hk'.symm.trans hk)
  refine ⟨fun id => ?_, fun id => ?_, fun id => ?_, fun id => ?_, fun m hm => ?_⟩
  · rw [lookup_append_of_kind (hother _ (by decide)), h.requested]
  · rw [lookup_append_of_kind (hother _ (by decide)), h.decided]
  · rw [lookup_append_of_kind (hother _ (by decide)), h.used]
  · rw [isSome_lookup_append_iff hk, h.cancelled, mem_cons, or_comm]
  · obtain ⟨id, q, hlook, hqn, hdec⟩ := h.nonces m hm
    exact ⟨id, q, lookup_append_some hlook, hqn, by rwa [lookup_append_of_kind (hother _ (by decide))]⟩

theorem Reflects.used_step (h : Reflects rows st) (hk : e.kind = .used) :
    Reflects (rows ++ [e]) { st with used := e.refId :: st.used } := by
  have hother : ∀ kind, kind ≠ .used → e.kind ≠ kind := fun kind hne hk' => hne (hk'.symm.trans hk)
  refine ⟨fun id => ?_, fun id => ?_, fun id => ?_, fun id => ?_, fun m hm => ?_⟩
  · rw [lookup_append_of_kind (hother _ (by decide)), h.requested]
  · rw [lookup_append_of_kind (hother _ (by decide)), h.decided]
  · rw [isSome_lookup_append_iff hk, h.used, mem_cons, or_comm]
  · rw [lookup_append_of_kind (hother _ (by decide)), h.cancelled]
  · obtain ⟨id, q, hlook, hqn, hdec⟩ := h.nonces m hm
    exact ⟨id, q, lookup_append_some hlook, hqn, by rwa [lookup_append_of_kind (hother _ (by decide))]⟩

theorem Reflects.step (h : Reflects rows st) (he : replayEntry st e = .ok st') :
    Reflects (rows ++ [e]) st' := by
  rcases replayEntry_cases he with ⟨hr, hd, hc, hu, rfl⟩ | ⟨t, hk, ht, hnew, rfl⟩ |
    ⟨n, r, hk, hr, hrn, hnew, rfl⟩ | ⟨hk, rfl⟩ | ⟨hk, rfl⟩
  · exact h.frame hr hd hc hu
  · exact h.requested_step hk ht hnew
  · exact h.decided_step hk hr hrn hnew
  · exact h.cancelled_step hk
  · exact h.used_step hk

end Step

theorem semantic_append (rows : List ChainEntry) (e : ChainEntry) :
    semantic (rows ++ [e]) = (semantic rows).bind (replayEntry · e) := by
  unfold semantic
  rw [foldlM_append]
  cases List.foldlM replayEntry {} rows with
  | error trouble => rfl
  | ok st => cases h : replayEntry st e <;> simp [h, Except.bind, bind, pure, Except.pure]

/-- Over rows the rules accept, the maps and the look-ups agree. -/
theorem reflects_semantic {rows : List ChainEntry} {st : Replay} (h : semantic rows = .ok st) :
    Reflects rows st := by
  induction rows using List.reverseRecOn generalizing st with
  | nil =>
      cases h
      exact reflects_nil
  | append_singleton rows e ih =>
      rw [semantic_append] at h
      cases hst : semantic rows with
      | error trouble =>
          rw [hst] at h
          cases h
      | ok st₀ =>
          rw [hst] at h
          exact (ih hst).step h

/-! ### What the rules accept -/

/-- The rules accept the entry after the rows they have accepted. -/
def Accepts (st : Replay) (e : ChainEntry) : Prop := ∃ st', replayEntry st e = .ok st'

section Accepts

variable {rows : List ChainEntry} {st : Replay} {e : ChainEntry} {p : Json}

theorem accepts_of_not_approval (hk : e.kind.isApproval = false) : Accepts st e :=
  ⟨st, by simp [replayEntry, hk]⟩

variable {id : String}

theorem Reflects.requested_eq_none (h : Reflects rows st) (hid : lookup rows id .requested = none) :
    st.requested.lookup id = none := by
  have := h.requested id
  rw [hid] at this
  simpa using this.symm

variable {req : ChainEntry}

theorem Reflects.requested_eq_some (h : Reflects rows st) (hreq : lookup rows id .requested = some req) :
    ∃ t, req.tuple = some t ∧ st.requested.lookup id = some ⟨t, req.nonce⟩ := by
  have := h.requested id
  rw [hreq, map_some] at this
  obtain ⟨r, hr, hreq'⟩ := map_eq_some_iff.mp this.symm
  obtain ⟨t, ht, rfl⟩ := map_eq_some_iff.mp hreq'.symm
  exact ⟨t, ht, hr⟩

theorem Reflects.boundRequest_eq (h : Reflects rows st)
    (hreq : lookup rows e.refId .requested = some req) (htuple : e.tuple = req.tuple) :
    ∃ t, boundRequest st e e.tuple = some ⟨t, req.nonce⟩ := by
  obtain ⟨t, ht, hlook⟩ := h.requested_eq_some hreq
  exact ⟨t, boundRequest_eq_some.mpr ⟨hlook, htuple.trans ht⟩⟩

theorem Reflects.decided_eq_none (h : Reflects rows st) (hid : lookup rows id .decided = none) :
    st.decided.lookup id = none := by
  rw [← h.decided, hid]
  rfl

/-- The rule for the entry's own kind is what decides. -/
theorem replayEntry_of_object (hk : e.kind.isApproval = true) (hp : e.payload.parsed = some p)
    (hobj : p.isObject = true) :
    replayEntry st e = match e.kind with
      | .requested => replayRequested st e e.tuple
      | .decided => replayDecided st e e.tuple e.decision
      | .cancelled => replayCancelled st e e.tuple
      | .used => replayUsed st e e.tuple
      | _ => .ok st := by
  have htuple : e.tuple = bindingTuple (p.get "bound") := by simp [ChainEntry.tuple, hp]
  have hdecision : e.decision = p.get "decision" := by simp [ChainEntry.decision, hp]
  unfold replayEntry
  rw [if_pos hk, hp, htuple, hdecision]
  exact (if_pos hobj).trans (by cases e.kind <;> rfl)

theorem Reflects.accepts_requested (h : Reflects rows st) (hk : e.kind = .requested)
    (hp : e.payload.parsed = some p) (hobj : p.isObject = true) (htuple : e.tuple.isSome = true)
    (hnew : lookup rows e.refId .requested = none) : Accepts st e := by
  obtain ⟨t, ht⟩ := isSome_iff_exists.mp htuple
  unfold Accepts
  rw [replayEntry_of_object (by rw [hk]; rfl) hp hobj, hk]
  simp [replayRequested, ht, h.requested_eq_none hnew]

theorem Reflects.accepts_decided (h : Reflects rows st) (hk : e.kind = .decided)
    (hp : e.payload.parsed = some p) (hobj : p.isObject = true) {n : String}
    (hreq : lookup rows e.refId .requested = some req) (htuple : e.tuple = req.tuple)
    (hn : e.nonce = some n) (hrn : req.nonce = some n) (hfresh : n ∉ st.nonces)
    (hdecided : lookup rows e.refId .decided = none)
    (hcancelled : lookup rows e.refId .cancelled = none)
    (hdecision : e.decision = some approve ∨ e.decision = some deny) : Accepts st e := by
  obtain ⟨t, hbound⟩ := h.boundRequest_eq hreq htuple
  have hopen : e.refId ∉ st.cancelled := by
    rw [← h.cancelled, hcancelled]
    simp
  unfold Accepts
  rw [replayEntry_of_object (by rw [hk]; rfl) hp hobj, hk]
  simp only [replayDecided, hn, hfresh, if_false, hbound, hrn, h.decided_eq_none hdecided, hopen,
    isSome_none, Bool.false_eq_true]
  rcases hdecision with hd | hd
  · simp [hd]
  · simp [hd, approve, deny]

theorem Reflects.accepts_cancelled (h : Reflects rows st) (hk : e.kind = .cancelled)
    (hp : e.payload.parsed = some p) (hobj : p.isObject = true)
    (hreq : lookup rows e.refId .requested = some req) (htuple : e.tuple = req.tuple)
    (hdecided : lookup rows e.refId .decided = none) : Accepts st e := by
  obtain ⟨t, hbound⟩ := h.boundRequest_eq hreq htuple
  unfold Accepts
  rw [replayEntry_of_object (by rw [hk]; rfl) hp hobj, hk]
  simp [replayCancelled, hbound, h.decided_eq_none hdecided]

theorem Reflects.accepts_used (h : Reflects rows st) (hk : e.kind = .used)
    (hp : e.payload.parsed = some p) (hobj : p.isObject = true) {dec : ChainEntry}
    (hreq : lookup rows e.refId .requested = some req) (htuple : e.tuple = req.tuple)
    (hdec : lookup rows e.refId .decided = some dec) (happrove : dec.decision = some approve)
    (hunused : lookup rows e.refId .used = none) : Accepts st e := by
  obtain ⟨t, hbound⟩ := h.boundRequest_eq hreq htuple
  have hdecided : st.decided.lookup e.refId = some "approve" := by
    rw [← h.decided, hdec, map_some, ChainEntry.verdict, if_pos happrove]
  have hnew : e.refId ∉ st.used := by
    rw [← h.used, hunused]
    simp
  unfold Accepts
  rw [replayEntry_of_object (by rw [hk]; rfl) hp hobj, hk]
  simp [replayUsed, hbound, hdecided, hnew]

end Accepts

end Plur1bus.Approvals
