import Plur1bus.Api.SessionCalls

/-!
The two calls that put an entry with a new key behind the others: a rotation, which
takes the same session away under its old key, and the making of a session, for
which room is made first.
-/

namespace Plur1bus.Api.Sessions

open Program.Keyed List Function

variable {secrets : Secrets} {limits : SessionLimits} {s s' : SessionStore} {b : Book} {rows : Rows}

theorem owned_frames (p : String) (rows : Rows) :
    ((rows.map frame).filter fun k => k.2.2 = p).length = (ownedBy p rows).length := by
  rw [filter_map, length_map]
  rfl

theorem owned_filter_lt {hash : String} {e : Entry} (h : (hash, e) ∈ rows) :
    (ownedBy e.principal.id (rows.filter fun r => r.1 ≠ hash)).length <
      (ownedBy e.principal.id rows).length := by
  have hcomm : ownedBy e.principal.id (rows.filter fun r => r.1 ≠ hash) =
      (ownedBy e.principal.id rows).filter fun r => r.1 ≠ hash := filter_comm _ _ _
  rw [hcomm]
  exact filter_key_lt ⟨(hash, e), mem_filter.mpr ⟨h, by simp⟩, rfl⟩

/-! ### Rotation -/

/-- An entry after its rotation. -/
def Entry.turned (authVersion : Option ℤ) (e : Entry) : Entry :=
  { e with csrf := [], mustRotate := false, authVersion := authVersion.getD e.authVersion }

/-- The old key goes, the new one is put behind the others. -/
theorem rotate_some {v : String} {now : ℤ} {e : Entry}
    (h : s.entry secrets (some v) now = (s, some e)) (authVersion : Option ℤ) :
    (s.rotate secrets (some v) authVersion now).2 = some (secrets.draw s.drawn, e.turned authVersion) ∧
    (s.rotate secrets (some v) authVersion now).1 = { s with
      byId := set (secrets.sha256 (secrets.draw s.drawn)) (e.turned authVersion)
        (s.byId.filter fun r => r.1 ≠ secrets.sha256 v)
      ended := (s.remove (secrets.sha256 v)).1.ended
      drawn := s.drawn + 1 } := by
  unfold SessionStore.rotate
  rw [h]
  dsimp only
  rw [remove_eq, remove_byId]
  exact ⟨rfl, rfl⟩

theorem rotate_none {id : Option String} {now : ℤ} (h : (s.entry secrets id now).2 = none)
    (authVersion : Option ℤ) :
    s.rotate secrets id authVersion now = ((s.entry secrets id now).1, none) := by
  unfold SessionStore.rotate
  rcases hentry : s.entry secrets id now with ⟨s', _ | e⟩
  · cases id <;> rfl
  · rw [hentry] at h
    cases h

theorem Sound.rotate (h : Sound secrets limits s b) (id : Option String) (authVersion : Option ℤ)
    (now : ℤ) : Sound secrets limits (s.rotate secrets id authVersion now).1
      (b.step secrets limits s (.rotate id authVersion now)) := by
  rw [Book.step]
  cases hentry : (s.entry secrets id now).2 with
  | none =>
    rw [rotate_none hentry]
    exact h.entry_none hentry
  | some e =>
    obtain ⟨v, rfl, hfind, -, heq⟩ := entry_some hentry
    obtain ⟨hanswer, hstore⟩ := rotate_some heq authVersion
    have hmem := find_some hfind
    have hgood := h.good _ hmem
    have hother : ∀ r ∈ s.byId.filter (fun r => r.1 ≠ secrets.sha256 v), r.2.session ≠ e.session := by
      intro r hr hsame
      obtain ⟨hin, hne⟩ := mem_filter.mp hr
      have := h.session_unique hin hmem hsame
      simp [this] at hne
    have hfresh : ∀ r ∈ s.byId.filter (fun r => r.1 ≠ secrets.sha256 v),
        r.1 ≠ secrets.sha256 (secrets.draw s.drawn) := by
      intro r hr
      exact h.framed.key_fresh (frame r) (mem_map_of_mem (mem_filter.mp hr).1)
    rw [hanswer, hstore]
    dsimp only
    set mark := fun i : Issued => if i.session = (e.turned authVersion).session
      then { i with rotated := true } else i
    have hmark : ∀ i, (mark i).token = i.token := by grind
    rw [set_new hfresh]
    refine ⟨?_, ?_, h.issued_map hmark (Nat.le_add_right _ _), by rw [map_tokens hmark]; exact h.tokens, ?_⟩
    · rw [map_append]
      apply (h.framed.sublist (filter_sublist.map frame)).snoc
      · intro k hk
        obtain ⟨r, hr, rfl⟩ := mem_map.mp hk
        exact hother r hr
      · exact h.framed.made_lt (frame (secrets.sha256 v, e)) (mem_map_of_mem hmem)
      · exact le_refl _
      · have howned := h.framed.owned e.principal.id
        have hlt := owned_filter_lt hmem
        rw [owned_frames] at howned ⊢
        show ((ownedBy e.principal.id _).length : ℤ) < _
        omega
      · have hsize := h.framed.size
        have hlt : (s.byId.filter fun r => r.1 ≠ secrets.sha256 v).length < s.byId.length :=
          filter_key_lt ⟨_, hmem, rfl⟩
        rw [length_map] at hsize ⊢
        omega
    · intro r hr
      rcases mem_append.mp hr with hr | hr
      · apply (h.good r (mem_filter.mp hr).1).marked (List.Sublist.refl _)
        intro i _ hsession _
        exact if_neg fun hsame => hother r hr (hsession.symm.trans hsame)
      · rw [mem_singleton.mp hr]
        exact ⟨hgood.created, hgood.absolute, hgood.idle, nodup_nil, by simp [Entry.turned]⟩
    · intro ev hev
      obtain ⟨hmade, hgone, hown⟩ := h.evicted ev hev
      refine ⟨hmade, ?_, hown⟩
      intro r hr
      rcases mem_append.mp hr with hr | hr
      · exact hgone r (mem_filter.mp hr).1
      · rw [mem_singleton.mp hr]
        exact hgone (secrets.sha256 v, e) hmem

/-! ### A new session -/

theorem Sound.shrunk (h : Sound secrets limits s b) {principal : Principal}
    (hs : Shrunk principal s s') : Sound secrets limits s' b := by
  refine ⟨?_, fun r hr => h.good r (hs.sublist.subset hr), ?_, h.tokens, ?_⟩
  · rw [hs.drawn, hs.made]
    exact h.framed.sublist (hs.sublist.map frame)
  · rw [hs.drawn]
    exact h.issued
  · obtain ⟨new, hnew, hev⟩ := hs.evicted
    rw [hnew, hs.made]
    intro ev hin
    rcases mem_append.mp hin with hin | hin
    · obtain ⟨hmade, hgone, hown⟩ := h.evicted ev hin
      exact ⟨hmade, fun r hr => hgone r (hs.sublist.subset hr), hown⟩
    · obtain ⟨⟨hash, hmem, hgone⟩, hby, hown⟩ := hev ev hin
      refine ⟨h.framed.made_lt _ (mem_map_of_mem hmem), ?_, ?_⟩
      · intro r hr hsame
        exact hgone r hr (congrArg Prod.fst (h.session_unique (hs.sublist.subset hr) hmem hsame))
      · intro hreason
        rw [hby]
        exact hown hreason

/-- The entry of a new session. -/
def newEntry (limits : SessionLimits) (session : ℕ) (principal : Principal) (o : CreateOptions)
    (now : ℤ) : Entry where
  session
  principal
  createdAt := now
  absoluteExpiresAt := now + limits.absoluteMs
  idleExpiresAt := now + limits.idleMs
  authVersion := o.authVersion.getD 0
  device := o.device
  mustRotate := false
  stepUpAt := o.stepUpAt
  csrf := []

/-- The store when room is made for a session. -/
def roomed (limits : SessionLimits) (s : SessionStore) (principal : Principal) (now : ℤ) : SessionStore :=
  (s.sweep now).makeRoom limits principal

theorem create_eq (principal : Principal) (o : CreateOptions) (now : ℤ) :
    s.create secrets limits principal o now = (let r := roomed limits s principal now
       let e := newEntry limits r.made principal o now
       ({ r with byId := set (secrets.sha256 (secrets.draw r.drawn)) e r.byId,
                 drawn := r.drawn + 1, made := r.made + 1 }, (secrets.draw r.drawn, e))) := rfl

theorem Sound.create (h : Sound secrets limits s b) (principal : Principal) (o : CreateOptions)
    (now : ℤ) : Sound secrets limits (s.create secrets limits principal o now).1
      (b.step secrets limits s (.create principal o now)) := by
  have hswept : Sound secrets limits (s.sweep now) b := h.removeAll _
  obtain ⟨hshrunk, howned, hsize⟩ := makeRoom_spec limits principal hswept.keys
  have hroom : Sound secrets limits (roomed limits s principal now) b := hswept.shrunk hshrunk
  rw [Book.step, create_eq]
  set r := roomed limits s principal now
  dsimp only
  have hfresh : ∀ row ∈ r.byId, row.1 ≠ secrets.sha256 (secrets.draw r.drawn) := fun row hrow =>
    hroom.framed.key_fresh (frame row) (mem_map_of_mem hrow)
  have hold : ∀ row ∈ r.byId, row.2.session ≠ r.made := fun row hrow =>
    Nat.ne_of_lt (hroom.framed.made_lt (frame row) (mem_map_of_mem hrow))
  rw [set_new hfresh]
  refine ⟨?_, ?_, ?_, hroom.tokens, ?_⟩
  · rw [map_append]
    apply hroom.framed.snoc
    · intro k hk
      obtain ⟨row, hrow, rfl⟩ := mem_map.mp hk
      exact hold row hrow
    · exact Nat.lt_add_one _
    · exact Nat.le_add_right _ _
    · rw [owned_frames]
      exact howned
    · rw [length_map]
      exact hsize
  · intro row hrow
    rcases mem_append.mp hrow with hrow | hrow
    · have hgood := hroom.good row hrow
      have hne := hold row hrow
      refine ⟨?_, hgood.absolute, ?_, hgood.once, hgood.csrf⟩
      · show _ = Function.update b.created r.made now row.2.session
        rw [update_of_ne hne]
        exact hgood.created
      · show _ ≤ Function.update b.used r.made now row.2.session + limits.idleMs
        rw [update_of_ne hne]
        exact hgood.idle
    · rw [mem_singleton.mp hrow]
      refine ⟨?_, rfl, ?_, nodup_nil, by simp [newEntry]⟩
      · show now = Function.update b.created r.made now r.made
        rw [update_self]
      · show now + limits.idleMs ≤ Function.update b.used r.made now r.made + limits.idleMs
        rw [update_self]
  · intro i hi
    obtain ⟨j, hj, hdraw⟩ := hroom.issued i hi
    exact ⟨j, Nat.lt_succ_of_lt hj, hdraw⟩
  · intro ev hev
    obtain ⟨hmade, hgone, hown⟩ := hroom.evicted ev hev
    refine ⟨Nat.lt_succ_of_lt hmade, ?_, hown⟩
    intro row hrow
    rcases mem_append.mp hrow with hrow | hrow
    · exact hgone row hrow
    · rw [mem_singleton.mp hrow]
      exact Nat.ne_of_gt hmade

end Plur1bus.Api.Sessions
