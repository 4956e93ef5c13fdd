import Mathlib.Logic.Function.Basic
import Plur1bus.Api.SessionRoom

/-!
What is known of the sessions beside the store: when each one was made and last
asked for, and of each one-time token which session it was issued to, when it
expires, and whether it was consumed or its session rotated since.

The store keeps to its book. Of an entry only its key, its session and its account
matter to the others; that part, the frame, is what the caps and the freshness of
keys are about, and most calls leave it alone or make it smaller.
-/

namespace Plur1bus.Api.Sessions

open Program.Keyed List

structure Issued where
  token : String
  session : ℕ
  expiresAt : ℤ
  consumed : Bool := false
  rotated : Bool := false
  deriving DecidableEq, Repr

structure Book where
  created : ℕ → ℤ := fun _ => 0
  /-- The last `get`, or the creation. -/
  used : ℕ → ℤ := fun _ => 0
  tokens : List Issued := []

section Calls

variable (secrets : Secrets) (limits : SessionLimits)

/-- The book after a call, by what the call answers in the state it is made in. -/
def Book.step (b : Book) (s : SessionStore) : Op → Book
  | .create principal o now =>
    let session := (s.create secrets limits principal o now).2.2.session
    { b with created := Function.update b.created session now, used := Function.update b.used session now }
  | .get id now now' =>
    match (s.get secrets limits id now now').2 with
    | none => b
    | some e => { b with used := Function.update b.used e.session now' }
  | .rotate id authVersion now =>
    match (s.rotate secrets id authVersion now).2 with
    | none => b
    | some (_, e) =>
      let rotated := fun i : Issued => if i.session = e.session then { i with rotated := true } else i
      { b with tokens := b.tokens.map rotated }
  | .issueCsrf id now now' =>
    match (s.peek secrets (some id) now).2, (s.issueCsrf secrets limits id now now').2 with
    | some e, some (token, expiresAt) =>
      { b with tokens := b.tokens ++ [{ token, session := e.session, expiresAt }] }
    | _, _ => b
  | .consumeCsrf id token now now' =>
    if (s.consumeCsrf secrets id token now now').2 then
      let consumed := fun i : Issued => if token = some i.token then { i with consumed := true } else i
      { b with tokens := b.tokens.map consumed }
    else b
  | _ => b

def act (s : SessionStore × Book) (op : Op) : SessionStore × Book :=
  (s.1.step secrets limits op, s.2.step secrets limits s.1 op)

def run (ops : List Op) : SessionStore × Book := ops.foldl (act secrets limits) ({}, {})

end Calls

variable {secrets : Secrets} {limits : SessionLimits} {s s' : SessionStore} {b b' : Book} {rows : Rows}

/-! ### Frames -/

/-- Of an entry: its key, its session, its account. -/
def frame (r : String × Entry) : String × ℕ × String := (r.1, r.2.session, r.2.principal.id)

structure Framed (secrets : Secrets) (limits : SessionLimits) (frames : List (String × ℕ × String))
    (drawn made : ℕ) : Prop where
  keys : (frames.map fun k => k.1).Nodup
  sessions : (frames.map fun k => k.2.1).Nodup
  drawn_lt : ∀ k ∈ frames, ∃ i < drawn, k.1 = secrets.sha256 (secrets.draw i)
  made_lt : ∀ k ∈ frames, k.2.1 < made
  owned : ∀ p : String, ((frames.filter fun k => k.2.2 = p).length : ℤ) ≤ limits.perPrincipal
  size : (frames.length : ℤ) ≤ max 1 limits.maxSessions

namespace Framed

variable {frames frames' : List (String × ℕ × String)} {drawn drawn' made made' : ℕ}

theorem nil : Framed secrets limits [] drawn made where
  keys := nodup_nil
  sessions := nodup_nil
  drawn_lt := by simp
  made_lt := by simp
  owned := fun _ => le_trans (Int.natCast_nonneg _) (by have := one_le_perPrincipal limits; omega)
  size := le_trans (by decide) (le_max_left _ _)

theorem sublist (h : Framed secrets limits frames drawn made) (hsub : frames'.Sublist frames) :
    Framed secrets limits frames' drawn made where
  keys := h.keys.sublist (hsub.map _)
  sessions := h.sessions.sublist (hsub.map _)
  drawn_lt := fun k hk => h.drawn_lt k (hsub.subset hk)
  made_lt := fun k hk => h.made_lt k (hsub.subset hk)
  owned := fun p => le_trans (Int.ofNat_le.mpr (hsub.filter _).length_le) (h.owned p)
  size := le_trans (Int.ofNat_le.mpr hsub.length_le) h.size

/-- Values drawn and sessions made meanwhile do not matter. -/
theorem mono (h : Framed secrets limits frames drawn made) (hd : drawn ≤ drawn') (hm : made ≤ made') :
    Framed secrets limits frames drawn' made' where
  keys := h.keys
  sessions := h.sessions
  drawn_lt := fun k hk => by
    obtain ⟨i, hi, hkey⟩ := h.drawn_lt k hk
    exact ⟨i, lt_of_lt_of_le hi hd, hkey⟩
  made_lt := fun k hk => lt_of_lt_of_le (h.made_lt k hk) hm
  owned := h.owned
  size := h.size

/-- The key of a value that is drawn next is new. -/
theorem key_fresh (h : Framed secrets limits frames drawn made) :
    ∀ k ∈ frames, k.1 ≠ secrets.sha256 (secrets.draw drawn) := by
  intro k hk hkey
  obtain ⟨i, hi, hkey'⟩ := h.drawn_lt k hk
  have := secrets.draw_injective (secrets.sha256_injective (hkey'.symm.trans hkey))
  omega

/-- One more entry behind the others, with a new key. -/
theorem snoc (h : Framed secrets limits frames drawn made) {session : ℕ} {p : String}
    (hsession : ∀ k ∈ frames, k.2.1 ≠ session) (hmade : session < made')
    (hm : made ≤ made') (howned : ((frames.filter fun k => k.2.2 = p).length : ℤ) < limits.perPrincipal)
    (hsize : (frames.length : ℤ) + 1 ≤ max 1 limits.maxSessions) :
    Framed secrets limits (frames ++ [(secrets.sha256 (secrets.draw drawn), session, p)])
      (drawn + 1) made' where
  keys := by
    rw [map_append, nodup_append]
    refine ⟨h.keys, nodup_singleton _, ?_⟩
    intro k hk k' hk'
    obtain ⟨f, hf, rfl⟩ := mem_map.mp hk
    rw [map_singleton, mem_singleton] at hk'
    rw [hk']
    exact h.key_fresh f hf
  sessions := by
    rw [map_append, nodup_append]
    refine ⟨h.sessions, nodup_singleton _, ?_⟩
    intro k hk k' hk'
    obtain ⟨f, hf, rfl⟩ := mem_map.mp hk
    rw [map_singleton, mem_singleton] at hk'
    rw [hk']
    exact hsession f hf
  drawn_lt := by
    intro k hk
    rcases mem_append.mp hk with hk | hk
    · obtain ⟨i, hi, hkey⟩ := h.drawn_lt k hk
      exact ⟨i, by omega, hkey⟩
    · rw [mem_singleton.mp hk]
      exact ⟨drawn, Nat.lt_add_one drawn, rfl⟩
  made_lt := by
    intro k hk
    rcases mem_append.mp hk with hk | hk
    · exact lt_of_lt_of_le (h.made_lt k hk) hm
    · rw [mem_singleton.mp hk]
      exact hmade
  owned := by
    intro q
    have hq := h.owned q
    rw [filter_append, length_append, filter_singleton]
    by_cases hpq : p = q
    · subst hpq
      simp only [decide_true, cond_true, length_singleton]
      push_cast
      omega
    · simp only [hpq, decide_false, cond_false, length_nil]
      exact hq
  size := by
    rw [length_append, length_singleton]
    push_cast
    exact hsize

end Framed

/-! ### Entries and the book -/

/-- An entry is as the book says. -/
structure Good (secrets : Secrets) (limits : SessionLimits) (b : Book) (e : Entry) : Prop where
  created : e.createdAt = b.created e.session
  absolute : e.absoluteExpiresAt = e.createdAt + limits.absoluteMs
  idle : e.idleExpiresAt ≤ b.used e.session + limits.idleMs
  once : (e.csrf.map Prod.fst).Nodup
  csrf : ∀ t ∈ e.csrf, ∃ i ∈ b.tokens, t.1 = secrets.sha256 i.token ∧ i.session = e.session ∧
    i.expiresAt = t.2 ∧ i.consumed = false ∧ i.rotated = false

structure Sound (secrets : Secrets) (limits : SessionLimits) (s : SessionStore) (b : Book) : Prop where
  framed : Framed secrets limits (s.byId.map frame) s.drawn s.made
  good : ∀ r ∈ s.byId, Good secrets limits b r.2
  issued : ∀ i ∈ b.tokens, ∃ j < s.drawn, i.token = secrets.draw j
  tokens : (b.tokens.map Issued.token).Nodup
  evicted : ∀ ev ∈ s.evicted, ev.session.session < s.made ∧
    (∀ r ∈ s.byId, r.2.session ≠ ev.session.session) ∧
    (ev.reason = .principalCap → ev.session.principal.id = ev.by_.id)

namespace Sound

theorem keys (h : Sound secrets limits s b) : (s.byId.map Prod.fst).Nodup := by
  have hkeys := h.framed.keys
  rw [List.map_map] at hkeys
  exact hkeys

/-- Two entries of one session are one. -/
theorem session_unique (h : Sound secrets limits s b) {r r' : String × Entry} (hr : r ∈ s.byId)
    (hr' : r' ∈ s.byId) (hsame : r.2.session = r'.2.session) : r = r' := by
  have hn := h.framed.sessions
  rw [List.map_map] at hn
  exact inj_on_of_nodup_map hn hr hr' hsame

/-- The token that is drawn next was not issued. -/
theorem token_fresh (h : Sound secrets limits s b) : ∀ i ∈ b.tokens, i.token ≠ secrets.draw s.drawn := by
  intro i hi htoken
  obtain ⟨j, hj, hdraw⟩ := h.issued i hi
  have := secrets.draw_injective (hdraw.symm.trans htoken)
  omega

/-- Entries may go. -/
theorem shrink (h : Sound secrets limits s b) (hsub : s'.byId.Sublist s.byId) (hd : s'.drawn = s.drawn)
    (hm : s'.made = s.made) (hev : s'.evicted = s.evicted) : Sound secrets limits s' b where
  framed := by
    rw [hd, hm]
    exact h.framed.sublist (hsub.map _)
  good := fun r hr => h.good r (hsub.subset hr)
  issued := by
    rw [hd]
    exact h.issued
  tokens := h.tokens
  evicted := by
    rw [hev, hm]
    intro ev hin
    obtain ⟨hmade, hgone, hown⟩ := h.evicted ev hin
    exact ⟨hmade, fun r hr => hgone r (hsub.subset hr), hown⟩

theorem remove (h : Sound secrets limits s b) (hash : String) : Sound secrets limits (s.remove hash).1 b := by
  apply h.shrink
  · rw [remove_byId]
    exact filter_sublist
  all_goals rw [remove_eq]

theorem removeAll (h : Sound secrets limits s b) (p : Entry → Prop) [DecidablePred p] :
    Sound secrets limits (s.removeAll p) b :=
  h.shrink filter_sublist rfl rfl rfl

end Sound

end Plur1bus.Api.Sessions
