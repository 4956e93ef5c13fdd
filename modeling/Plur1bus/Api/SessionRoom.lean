import Mathlib.Data.List.Induction
import Plur1bus.Api.Sessions

/-!
What making room does to the map of sessions: entries go and nothing else changes,
the account of the new session keeps fewer than its cap, the map fewer than its
ceiling, and only sessions of that account go for its cap.
-/

namespace Plur1bus.Api.Sessions

open Program.Keyed List

variable {s : SessionStore} {rows : Rows}

/-! ### Looking a key up -/

variable {hash : String}

theorem find_eq_none : find hash rows = none ↔ ∀ r ∈ rows, r.1 ≠ hash := by
  rw [find, Option.map_eq_none_iff, rowAt_eq_none]

variable {e : Entry}

theorem find_some (h : find hash rows = some e) : (hash, e) ∈ rows := by
  obtain ⟨r, hr, rfl⟩ := Option.map_eq_some_iff.mp h
  obtain ⟨hmem, rfl⟩ := rowAt_some hr
  exact hmem

theorem find_eq_some (hn : (rows.map Prod.fst).Nodup) : find hash rows = some e ↔ (hash, e) ∈ rows := by
  refine ⟨find_some, fun h => ?_⟩
  rw [find, (rowAt_eq_some hn).mpr ⟨h, rfl⟩]
  rfl

/-- Two entries with one key are one. -/
theorem entry_unique {e' : Entry} (hn : (rows.map Prod.fst).Nodup) (h : (hash, e) ∈ rows)
    (h' : (hash, e') ∈ rows) : e = e' :=
  Option.some.inj (((find_eq_some hn).mpr h).symm.trans ((find_eq_some hn).mpr h'))

/-! ### Removing entries -/

@[simp] theorem remove_byId (s : SessionStore) (hash : String) :
    (s.remove hash).1.byId = s.byId.filter (fun r => r.1 ≠ hash) := by
  rw [SessionStore.remove]
  cases h : find hash s.byId with
  | none =>
    symm
    rw [filter_eq_self]
    intro r hr
    simpa using find_eq_none.mp h r hr
  | some e => rfl

theorem remove_eq (s : SessionStore) (hash : String) : (s.remove hash).1 =
    { s with byId := (s.remove hash).1.byId, ended := (s.remove hash).1.ended } := by
  rw [SessionStore.remove]
  cases find hash s.byId <;> rfl

theorem evict_eq (s : SessionStore) (hash : String) (reason : Reason) (by_ : Principal) :
    s.evict hash reason by_ = { s with
      byId := s.byId.filter (fun r => r.1 ≠ hash)
      ended := (s.remove hash).1.ended
      evicted := s.evicted ++ (find hash s.byId).toList.map fun e => ⟨e, reason, by_⟩ } := by
  rw [← remove_byId, SessionStore.evict]
  cases h : find hash s.byId with
  | none => simp [SessionStore.remove, h]
  | some e =>
    rw [remove_eq]
    rfl

theorem filter_key_lt (h : ∃ r ∈ rows, r.1 = hash) :
    (rows.filter (fun r => r.1 ≠ hash)).length < rows.length := by
  obtain ⟨r, hr, hkey⟩ := h
  apply length_filter_lt_length_iff_exists.mpr
  exact ⟨r, hr, by simp [hkey]⟩

/-! ### The account's own oldest session -/

/-- The entries of one account. -/
def ownedBy (principalId : String) (rows : Rows) : Rows :=
  rows.filter fun r => r.2.principal.id = principalId

theorem countOldest_spec (principalId : String) (rows : Rows) :
    (countOldest principalId rows).1 = (ownedBy principalId rows).length ∧
    ((countOldest principalId rows).2 = none ↔ ownedBy principalId rows = []) ∧
    ∀ oldest, (countOldest principalId rows).2 = some oldest →
      ∃ r ∈ ownedBy principalId rows, r.1 = oldest.1 := by
  unfold countOldest ownedBy
  induction rows using List.reverseRecOn with
  | nil => exact ⟨rfl, by simp, by simp⟩
  | append_singleton rows r ih =>
    rw [foldl_append, filter_append, foldl_cons, foldl_nil, filter_singleton]
    by_cases hmine : r.2.principal.id = principalId
    · rw [if_pos hmine]
      simp only [hmine, decide_true, cond_true, length_append, length_singleton]
      refine ⟨by rw [ih.1], ?_, ?_⟩
      · constructor
        · intro h
          revert h
          split
          · intro h
            cases h
          · split_ifs <;> exact fun h => by cases h
        · intro h
          simp at h
      · intro oldest h
        revert h
        split
        · intro h
          obtain rfl := Option.some.inj h
          exact ⟨r, by simp, rfl⟩
        · rename_i o ho
          split_ifs
          · intro h
            obtain rfl := Option.some.inj h
            exact ⟨r, by simp, rfl⟩
          · intro h
            obtain rfl := Option.some.inj h
            obtain ⟨r', hr', hkey⟩ := ih.2.2 o ho
            exact ⟨r', mem_append_left _ hr', hkey⟩
    · rw [if_neg hmine]
      simpa [hmine] using ih

/-! ### The account that holds the most -/

/-- One more entry: its account holds one more, and maybe an older one. -/
theorem heldBy_snoc (rows : Rows) (r : String × Entry) : heldBy (rows ++ [r]) = upsert Held.principalId
      (fun cur new => if new.createdAt < cur.createdAt then { new with n := cur.n + 1 }
        else { cur with n := cur.n + 1 })
      ⟨r.2.principal.id, 1, r.1, r.2.createdAt⟩ (heldBy rows) := by
  rw [heldBy, foldl_append]
  rfl

theorem heldBy_mem : ∀ held ∈ heldBy rows, ∃ r ∈ rows, r.1 = held.hash := by
  induction rows using List.reverseRecOn with
  | nil => simp [heldBy]
  | append_singleton rows r ih =>
    have hold : ∀ cur ∈ heldBy rows, ∃ r' ∈ rows ++ [r], r'.1 = cur.hash := by simp_all
    have hnew : ∃ r' ∈ rows ++ [r], r'.1 = r.1 := ⟨r, by simp, rfl⟩
    rw [heldBy_snoc]
    apply forall_mem_upsert hold hnew
    intro cur hcur _
    dsimp only
    split_ifs
    · exact hnew
    · exact hold cur hcur

theorem heldBy_eq_nil (h : heldBy rows = []) : rows = [] := by
  induction rows using List.reverseRecOn with
  | nil => rfl
  | append_singleton rows r _ =>
    rw [heldBy_snoc, upsert] at h
    split_ifs at h with hany
    · rw [map_eq_nil_iff] at h
      simp [h] at hany
    · simp at h

theorem pick_spec (held : List Held) :
    (pick held = none → held = []) ∧ ∀ c, pick held = some c → c ∈ held := by
  unfold pick
  induction held using List.reverseRecOn with
  | nil => simp
  | append_singleton held c ih =>
    rw [foldl_append, foldl_cons, foldl_nil]
    split
    · simp
    · rename_i p hp
      split_ifs
      · simp
      · simp_all

/-! ### The loops -/

theorem one_le_perPrincipal (limits : SessionLimits) : 1 ≤ limits.perPrincipal := le_max_left _ _

/-- The map shrinks, and what was told of evictions grows by sessions that left it, for
the cap of the account by its own. -/
structure Shrunk (principal : Principal) (s s' : SessionStore) : Prop where
  sublist : s'.byId.Sublist s.byId
  drawn : s'.drawn = s.drawn
  made : s'.made = s.made
  evicted : ∃ new, s'.evicted = s.evicted ++ new ∧ ∀ ev ∈ new,
    (∃ hash, (hash, ev.session) ∈ s.byId ∧ ∀ r ∈ s'.byId, r.1 ≠ hash) ∧ ev.by_ = principal ∧
    (ev.reason = .principalCap → ev.session.principal.id = principal.id)

namespace Shrunk

variable {principal : Principal} {s' s'' : SessionStore}

theorem refl : Shrunk principal s s := ⟨List.Sublist.refl _, rfl, rfl, [], by simp, by simp⟩

theorem trans (h : Shrunk principal s s') (h' : Shrunk principal s' s'') : Shrunk principal s s'' := by
  obtain ⟨new, hnew, hev⟩ := h.evicted
  obtain ⟨new', hnew', hev'⟩ := h'.evicted
  refine ⟨h'.sublist.trans h.sublist, h'.drawn.trans h.drawn, h'.made.trans h.made, new ++ new', ?_, ?_⟩
  · rw [hnew', hnew, append_assoc]
  · intro ev hin
    rcases mem_append.mp hin with hin | hin
    · obtain ⟨⟨hash, hmem, hgone⟩, hrest⟩ := hev ev hin
      exact ⟨⟨hash, hmem, fun r hr => hgone r (h'.sublist.subset hr)⟩, hrest⟩
    · obtain ⟨⟨hash, hmem, hgone⟩, hrest⟩ := hev' ev hin
      exact ⟨⟨hash, h.sublist.subset hmem, hgone⟩, hrest⟩

/-- One eviction, for the cap of the account only of a session of its own. -/
theorem evict (s : SessionStore) {hash : String} {reason : Reason}
    (hown : reason = .principalCap → ∀ e, (hash, e) ∈ s.byId → e.principal.id = principal.id) :
    Shrunk principal s (s.evict hash reason principal) := by
  rw [evict_eq]
  refine ⟨filter_sublist, rfl, rfl, _, rfl, ?_⟩
  intro ev hev
  obtain ⟨e, he, rfl⟩ := mem_map.mp hev
  have hmem := find_some (Option.mem_toList.mp he)
  refine ⟨⟨hash, hmem, ?_⟩, rfl, fun hreason => hown hreason e hmem⟩
  intro r hr
  simpa using (mem_filter.mp hr).2

end Shrunk

theorem length_evict_lt {reason : Reason} {by_ : Principal} (h : ∃ r ∈ s.byId, r.1 = hash) :
    (s.evict hash reason by_).byId.length < s.byId.length := by
  rw [evict_eq]
  exact filter_key_lt h

variable {rounds : ℕ}

theorem roomForOwn_spec (limits : SessionLimits) (principal : Principal)
    (hrounds : s.byId.length < rounds) (hn : (s.byId.map Prod.fst).Nodup) :
    Shrunk principal s (s.roomForOwn limits principal rounds) ∧
    ((ownedBy principal.id (s.roomForOwn limits principal rounds).byId).length : ℤ) <
      limits.perPrincipal := by
  induction rounds generalizing s with
  | zero => omega
  | succ rounds ih =>
    obtain ⟨hcount, hnone, hsome⟩ := countOldest_spec principal.id s.byId
    have hone := one_le_perPrincipal limits
    rw [SessionStore.roomForOwn]
    rcases hscan : countOldest principal.id s.byId with ⟨count, _ | oldest⟩
    · rw [hscan] at hnone
      refine ⟨Shrunk.refl, ?_⟩
      show ((ownedBy principal.id s.byId).length : ℤ) < _
      rw [hnone.mp rfl]
      exact hone
    · rw [hscan] at hcount hsome
      obtain ⟨r, hr, hkey⟩ := hsome oldest rfl
      obtain ⟨hmem, hmine⟩ := mem_filter.mp hr
      dsimp only
      split_ifs with hfew
      · refine ⟨Shrunk.refl, ?_⟩
        rw [← hcount]
        exact hfew
      · have hshrunk : Shrunk principal s (s.evict oldest.1 .principalCap principal) := by
          apply Shrunk.evict
          intro _ e he
          have hrow : (oldest.1, r.2) ∈ s.byId := hkey ▸ hmem
          rw [entry_unique hn he hrow]
          simpa using hmine
        have hlt : (s.evict oldest.1 .principalCap principal).byId.length < s.byId.length :=
          length_evict_lt ⟨r, hmem, hkey⟩
        obtain ⟨hrest, hcap⟩ := ih (by omega) (hn.sublist (hshrunk.sublist.map _))
        exact ⟨hshrunk.trans hrest, hcap⟩

theorem roomForAll_spec (limits : SessionLimits) (principal : Principal)
    (hrounds : s.byId.length < rounds) : Shrunk principal s (s.roomForAll limits principal rounds) ∧
    ((s.roomForAll limits principal rounds).byId = [] ∨
      ((s.roomForAll limits principal rounds).byId.length : ℤ) < limits.maxSessions) := by
  induction rounds generalizing s with
  | zero => omega
  | succ rounds ih =>
    rw [SessionStore.roomForAll]
    split_ifs with hfull
    · obtain ⟨hnone, hsome⟩ := pick_spec (heldBy s.byId)
      cases hpick : pick (heldBy s.byId) with
      | none => exact ⟨Shrunk.refl, Or.inl (heldBy_eq_nil (hnone hpick))⟩
      | some held =>
        have hshrunk : Shrunk principal s (s.evict held.hash .globalCap principal) :=
          Shrunk.evict s (fun h => by cases h)
        have hlt : (s.evict held.hash .globalCap principal).byId.length < s.byId.length :=
          length_evict_lt (heldBy_mem held (hsome held hpick))
        obtain ⟨hrest, hcap⟩ := ih (s := s.evict held.hash .globalCap principal) (by omega)
        exact ⟨hshrunk.trans hrest, hcap⟩
    · exact ⟨Shrunk.refl, Or.inr (not_le.mp hfull)⟩

theorem makeRoom_spec (limits : SessionLimits) (principal : Principal)
    (hn : (s.byId.map Prod.fst).Nodup) :
    Shrunk principal s (s.makeRoom limits principal) ∧
    ((ownedBy principal.id (s.makeRoom limits principal).byId).length : ℤ) < limits.perPrincipal ∧
    ((s.makeRoom limits principal).byId.length : ℤ) + 1 ≤ max 1 limits.maxSessions := by
  obtain ⟨hown, hcap⟩ := roomForOwn_spec limits principal (Nat.lt_add_one s.byId.length) hn
  obtain ⟨hall, hsize⟩ := roomForAll_spec limits principal
    (Nat.lt_add_one (s.roomForOwn limits principal (s.byId.length + 1)).byId.length)
  refine ⟨hown.trans hall, ?_, ?_⟩
  · have hle := (hall.sublist.filter (fun r => decide (r.2.principal.id = principal.id))).length_le
    have hcap' : ((ownedBy principal.id (s.makeRoom limits principal).byId).length : ℤ) ≤
        (ownedBy principal.id (s.roomForOwn limits principal (s.byId.length + 1)).byId).length :=
      Int.ofNat_le.mpr hle
    omega
  · rw [SessionStore.makeRoom]
    rcases hsize with hnil | hlt
    · rw [hnil]
      exact le_max_left _ _
    · omega

end Plur1bus.Api.Sessions
