import Plur1bus.Api.SessionMoves
import Plur1bus.Program.Runs

/-!
Whole sequences of calls on the session store, and what holds after each of them.
-/

namespace Plur1bus.Api.Sessions

open List

variable {secrets : Secrets} {limits : SessionLimits} {s : SessionStore} {b : Book}

theorem Sound.step (h : Sound secrets limits s b) (op : Op) :
    Sound secrets limits (s.step secrets limits op) (b.step secrets limits s op) := by
  cases op with
  | create principal o now => exact h.create principal o now
  | get id now now' => exact h.get id now now'
  | peek id now =>
    show Sound secrets limits (s.entry secrets id now).1 b
    cases hentry : (s.entry secrets id now).2 with
    | none => exact h.entry_none hentry
    | some e =>
      obtain ⟨-, -, -, -, heq⟩ := entry_some hentry
      rw [heq]
      exact h
  | rotate id authVersion now => exact h.rotate id authVersion now
  | markRotate principalId => exact h.markRotate principalId
  | destroy id =>
    show Sound secrets limits (s.destroy secrets id).1 b
    cases id with
    | none => exact h
    | some v => exact h.remove _
  | destroyAllFor principalId => exact h.removeAll fun e => e.principal.id = principalId
  | countFor principalId now => exact h.removeAll fun e => e.over now
  | isLive session now => exact h.removeAll fun e => e.over now
  | issueCsrf id now now' => exact h.issueCsrf id now now'
  | consumeCsrf id token now now' => exact h.consumeCsrf id token now now'

theorem sound_init : Sound secrets limits {} {} where
  framed := Framed.nil
  good := by simp
  issued := by simp
  tokens := nodup_nil
  evicted := by simp

theorem sound_foldl (h : Sound secrets limits s b) (ops : List Op) :
    Sound secrets limits (ops.foldl (act secrets limits) (s, b)).1
      (ops.foldl (act secrets limits) (s, b)).2 := by
  induction ops generalizing s b with
  | nil => exact h
  | cons op ops ih => exact ih (h.step op)

theorem sound_run (ops : List Op) :
    Sound secrets limits (run secrets limits ops).1 (run secrets limits ops).2 :=
  sound_foldl sound_init ops

/-! ### A key that went does not come back -/

/-- The value was drawn and its key is not in the map. -/
structure Gone (secrets : Secrets) (s : SessionStore) (v : String) : Prop where
  drawn : ∃ i < s.drawn, v = secrets.draw i
  absent : ∀ r ∈ s.byId, r.1 ≠ secrets.sha256 v

/-- Keys after a call are keys from before it, of the same sessions, or of values that are
drawn in it. -/
def KeysFrom (secrets : Secrets) (s s' : SessionStore) : Prop :=
  s.drawn ≤ s'.drawn ∧ ∀ r ∈ s'.byId, (∃ r' ∈ s.byId, r'.1 = r.1 ∧ r'.2.session = r.2.session) ∨
    ∃ i, s.drawn ≤ i ∧ r.1 = secrets.sha256 (secrets.draw i)

variable {s' : SessionStore} {v : String}

theorem Gone.keysFrom (h : Gone secrets s v) (hk : KeysFrom secrets s s') : Gone secrets s' v := by
  obtain ⟨i, hi, rfl⟩ := h.drawn
  refine ⟨⟨i, lt_of_lt_of_le hi hk.1, rfl⟩, ?_⟩
  intro r hr hkey
  rcases hk.2 r hr with ⟨r', hr', hsame, -⟩ | ⟨j, hj, hfresh⟩
  · exact h.absent r' hr' (hsame.trans hkey)
  · have := secrets.draw_injective (secrets.sha256_injective (hkey.symm.trans hfresh))
    omega

theorem keysFrom_of_sublist (hsub : s'.byId.Sublist s.byId) (hd : s'.drawn = s.drawn) :
    KeysFrom secrets s s' :=
  ⟨le_of_eq hd.symm, fun r hr => Or.inl ⟨r, hsub.subset hr, rfl, rfl⟩⟩

theorem keysFrom_remove (s : SessionStore) (hash : String) : KeysFrom secrets s (s.remove hash).1 := by
  apply keysFrom_of_sublist
  · rw [remove_byId]
    exact filter_sublist
  · rw [remove_eq]

theorem keysFrom_removeAll (s : SessionStore) (p : Entry → Prop) [DecidablePred p] :
    KeysFrom secrets s (s.removeAll p) := keysFrom_of_sublist filter_sublist rfl

variable {id : Option String} {now : ℤ}

theorem keysFrom_entry_none (h : (s.entry secrets id now).2 = none) :
    KeysFrom secrets s (s.entry secrets id now).1 := by
  rcases @entry_spec secrets s id now with ⟨v, e, -, -, -, heq⟩ | ⟨-, heq | ⟨hash, heq⟩⟩
  · rw [heq] at h
    cases h
  · rw [heq]
    exact keysFrom_of_sublist (List.Sublist.refl _) rfl
  · rw [heq]
    exact keysFrom_remove s hash

theorem keysFrom_set {hash : String} {e e' : Entry} (he : (hash, e) ∈ s.byId)
    (hsession : e.session = e'.session) {drawn' : ℕ} (hd : s.drawn ≤ drawn') : KeysFrom secrets s { s with byId := set hash e' s.byId, drawn := drawn' } := by
  refine ⟨hd, fun r hr => Or.inl ?_⟩
  rcases mem_set hr with rfl | ⟨hmem, -⟩
  · exact ⟨_, he, rfl, hsession⟩
  · exact ⟨r, hmem, rfl, rfl⟩

theorem Sound.keysFrom (h : Sound secrets limits s b) (op : Op) :
    KeysFrom secrets s (s.step secrets limits op) := by
  cases op with
  | create principal o now =>
    have hswept : Sound secrets limits (s.sweep now) b := h.removeAll _
    obtain ⟨hshrunk, -, -⟩ := makeRoom_spec limits principal hswept.keys
    show KeysFrom secrets s (s.create secrets limits principal o now).1
    rw [create_eq]
    have hd : (roomed limits s principal now).drawn = s.drawn := hshrunk.drawn
    refine ⟨?_, fun r hr => ?_⟩
    · show s.drawn ≤ (roomed limits s principal now).drawn + 1
      omega
    · rcases mem_set hr with rfl | ⟨hmem, -⟩
      · exact Or.inr ⟨_, le_of_eq hd.symm, rfl⟩
      · exact Or.inl ⟨r, mem_of_mem_filter (hshrunk.sublist.subset hmem), rfl, rfl⟩
  | get id now now' =>
    show KeysFrom secrets s (s.get secrets limits id now now').1
    cases hentry : (s.entry secrets id now).2 with
    | none =>
      rw [get_none hentry]
      exact keysFrom_entry_none hentry
    | some e =>
      obtain ⟨v, rfl, hfind, -, heq⟩ := entry_some hentry
      rw [get_some heq]
      exact keysFrom_set (find_some hfind) (by rfl) (le_refl _)
  | peek id now =>
    show KeysFrom secrets s (s.entry secrets id now).1
    cases hentry : (s.entry secrets id now).2 with
    | none => exact keysFrom_entry_none hentry
    | some e =>
      obtain ⟨-, -, -, -, heq⟩ := entry_some hentry
      rw [heq]
      exact keysFrom_of_sublist (List.Sublist.refl _) rfl
  | rotate id authVersion now =>
    show KeysFrom secrets s (s.rotate secrets id authVersion now).1
    cases hentry : (s.entry secrets id now).2 with
    | none =>
      rw [rotate_none hentry]
      exact keysFrom_entry_none hentry
    | some e =>
      obtain ⟨v, rfl, -, -, heq⟩ := entry_some hentry
      rw [(rotate_some heq authVersion).2]
      refine ⟨Nat.le_add_right _ _, fun r hr => ?_⟩
      rcases mem_set hr with rfl | ⟨hmem, -⟩
      · exact Or.inr ⟨s.drawn, le_refl _, rfl⟩
      · exact Or.inl ⟨r, mem_of_mem_filter hmem, rfl, rfl⟩
  | markRotate principalId =>
    refine ⟨le_refl _, fun r hr => ?_⟩
    obtain ⟨r', hr', rfl⟩ := mem_map.mp hr
    refine Or.inl ⟨r', hr', ?_⟩
    split_ifs <;> exact ⟨rfl, rfl⟩
  | destroy id =>
    show KeysFrom secrets s (s.destroy secrets id).1
    cases id with
    | none => exact keysFrom_of_sublist (List.Sublist.refl _) rfl
    | some v => exact keysFrom_remove s _
  | destroyAllFor principalId => exact keysFrom_removeAll s fun e => e.principal.id = principalId
  | countFor principalId now => exact keysFrom_removeAll s fun e => e.over now
  | isLive session now => exact keysFrom_removeAll s fun e => e.over now
  | issueCsrf id now now' =>
    show KeysFrom secrets s (s.issueCsrf secrets limits id now now').1
    cases hentry : (s.entry secrets (some id) now).2 with
    | none =>
      rw [issueCsrf_none hentry]
      exact keysFrom_entry_none hentry
    | some e =>
      obtain ⟨v, hv, hfind, -, heq⟩ := entry_some hentry
      cases hv
      rw [issueCsrf_some heq]
      exact keysFrom_set (find_some hfind) (by rfl) (Nat.le_add_right _ _)
  | consumeCsrf id token now now' =>
    show KeysFrom secrets s (s.consumeCsrf secrets id token now now').1
    rcases @consumeCsrf_spec secrets s id token now now' with
      ⟨-, hstore⟩ | ⟨e, t, exp, hentry, -, -, heq⟩
    · rw [hstore]
      cases hentry : (s.entry secrets (some id) now).2 with
      | none => exact keysFrom_entry_none hentry
      | some e =>
        obtain ⟨-, -, -, -, heq⟩ := entry_some hentry
        rw [heq]
        exact keysFrom_of_sublist (List.Sublist.refl _) rfl
    · obtain ⟨v, hv, hfind, -, -⟩ := entry_some (by rw [hentry])
      cases hv
      rw [heq]
      exact keysFrom_set (find_some hfind) (by rfl) (le_refl _)

/-- A value that is gone stays gone. -/
theorem Gone.foldl (hgone : Gone secrets s v) (h : Sound secrets limits s b) (ops : List Op) :
    Gone secrets (ops.foldl (act secrets limits) (s, b)).1 v := by
  induction ops generalizing s b with
  | nil => exact hgone
  | cons op ops ih => exact ih (hgone.keysFrom (h.keysFrom op)) (h.step op)

theorem run_append (before after : List Op) : run secrets limits (before ++ after) =
    after.foldl (act secrets limits) (run secrets limits before) := foldl_append

/-- The call ends a cookie value: it rotates or destroys it, evicts its session, or
leaves it without an entry otherwise. -/
def Ends (secrets : Secrets) (limits : SessionLimits) (s : SessionStore) (op : Op) (id : String) : Prop :=
  (∃ authVersion now, op = .rotate (some id) authVersion now ∧
    (s.rotate secrets (some id) authVersion now).2 ≠ none) ∨
  (op = .destroy (some id) ∧ (s.destroy secrets (some id)).2 = true) ∨
  (∃ e, find (secrets.sha256 id) s.byId = some e ∧
    ∃ ev ∈ (s.step secrets limits op).evicted, ev.session.session = e.session) ∨
  (find (secrets.sha256 id) s.byId ≠ none ∧ find (secrets.sha256 id) (s.step secrets limits op).byId = none)

theorem Sound.drawn_of_find (h : Sound secrets limits s b) {e : Entry}
    (hfind : find (secrets.sha256 v) s.byId = some e) : ∃ i < s.drawn, v = secrets.draw i := by
  obtain ⟨i, hi, hkey⟩ := h.framed.drawn_lt _ (mem_map_of_mem (find_some hfind))
  exact ⟨i, hi, secrets.sha256_injective hkey⟩

/-- After the call that ends it a value is gone. -/
theorem Sound.gone (h : Sound secrets limits s b) {op : Op} (hends : Ends secrets limits s op v) :
    Gone secrets (s.step secrets limits op) v := by
  have hlater := (h.keysFrom op).1
  have hnext := h.step op
  -- it is enough that there was an entry and there is none
  have hleft : ∀ e, find (secrets.sha256 v) s.byId = some e →
      (∀ r ∈ (s.step secrets limits op).byId, r.1 ≠ secrets.sha256 v) →
      Gone secrets (s.step secrets limits op) v := by
    intro e hfind habsent
    obtain ⟨i, hi, hdraw⟩ := h.drawn_of_find hfind
    exact ⟨⟨i, lt_of_lt_of_le hi hlater, hdraw⟩, habsent⟩
  rcases hends with ⟨authVersion, now, rfl, hrotated⟩ | ⟨rfl, hdestroyed⟩ |
    ⟨e, hfind, ev, hev, hsession⟩ | ⟨hbefore, hafter⟩
  · cases hentry : (s.entry secrets (some v) now).2 with
    | none =>
      rw [rotate_none hentry] at hrotated
      exact absurd rfl hrotated
    | some e =>
      obtain ⟨v', hv, hfind, -, heq⟩ := entry_some hentry
      cases hv
      apply hleft e hfind
      intro r hr
      rw [SessionStore.step, (rotate_some heq authVersion).2] at hr
      rcases mem_set hr with rfl | ⟨hmem, -⟩
      · exact (h.framed.key_fresh _ (mem_map_of_mem (find_some hfind))).symm
      · simpa using (mem_filter.mp hmem).2
  · cases hfind : find (secrets.sha256 v) s.byId with
    | none =>
      rw [SessionStore.destroy, SessionStore.remove, hfind] at hdestroyed
      cases hdestroyed
    | some e =>
      apply hleft e hfind
      intro r hr
      rw [SessionStore.step, SessionStore.destroy, remove_byId] at hr
      simpa using (mem_filter.mp hr).2
  · apply hleft e hfind
    intro r hr hkey
    obtain ⟨-, hgone, -⟩ := hnext.evicted ev hev
    apply hgone r hr
    rw [hsession]
    -- an entry under the same key is the session's own
    obtain ⟨i, hi, hdraw⟩ := h.drawn_of_find hfind
    rcases (h.keysFrom op).2 r hr with ⟨r', hr', hsame, hsession'⟩ | ⟨j, hj, hfresh⟩
    · have hown : r'.2 = e := entry_unique h.keys (hsame.trans hkey ▸ hr') (find_some hfind)
      rw [← hsession', hown]
    · rw [hkey, hdraw] at hfresh
      have := secrets.draw_injective (secrets.sha256_injective hfresh)
      omega
  · cases hfind : find (secrets.sha256 v) s.byId with
    | none => exact absurd hfind hbefore
    | some e => exact hleft e hfind (find_eq_none.mp hafter)

/-! ### What holds after every sequence of calls -/

end Plur1bus.Api.Sessions
