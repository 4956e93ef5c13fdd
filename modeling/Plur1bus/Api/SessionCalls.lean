import Plur1bus.Api.SessionBook

/-!
Every call keeps the store in step with its book. A call either lets entries go,
or changes one entry in place, or takes one entry away and puts one with a new key
behind the others.
-/

namespace Plur1bus.Api.Sessions

open Program.Keyed List

variable {secrets : Secrets} {limits : SessionLimits} {s s' : SessionStore} {b b' : Book} {rows : Rows}

/-! ### Looking a cookie value up -/

/-- What `#entry` answers: an entry that is not over, and the store as it was; or none,
and at most one entry went. -/
theorem entry_spec (s : SessionStore) (id : Option String) (now : ℤ) :
    (∃ v e, id = some v ∧ find (secrets.sha256 v) s.byId = some e ∧ ¬ e.over now ∧
      s.entry secrets id now = (s, some e)) ∨
    ((s.entry secrets id now).2 = none ∧
      ((s.entry secrets id now).1 = s ∨ ∃ hash, (s.entry secrets id now).1 = (s.remove hash).1)) := by
  unfold SessionStore.entry
  cases id with
  | none => exact Or.inr ⟨rfl, Or.inl rfl⟩
  | some v => grind

variable {id : Option String} {now : ℤ} {e : Entry}

theorem entry_some (h : (s.entry secrets id now).2 = some e) :
    ∃ v, id = some v ∧ find (secrets.sha256 v) s.byId = some e ∧ ¬ e.over now ∧
      s.entry secrets id now = (s, some e) := by
  rcases entry_spec s id now with ⟨v, e', hid, hfind, hover, heq⟩ | ⟨hnone, -⟩
  · rw [heq] at h
    cases h
    exact ⟨v, hid, hfind, hover, heq⟩
  · rw [hnone] at h
    cases h

theorem Sound.entry_none (h : Sound secrets limits s b) (hnone : (s.entry secrets id now).2 = none) :
    Sound secrets limits (s.entry secrets id now).1 b := by
  rcases entry_spec s id now with ⟨v, e, -, -, -, heq⟩ | ⟨-, heq | ⟨hash, heq⟩⟩
  · rw [heq] at hnone
    cases hnone
  · rw [heq]
    exact h
  · rw [heq]
    exact h.remove hash

/-! ### Changing one entry -/

variable {hash : String}

theorem mem_set {r : String × Entry} (h : r ∈ set hash e rows) :
    r = (hash, e) ∨ (r ∈ rows ∧ r.1 ≠ hash) := mem_upsert_replace h

theorem set_new (h : ∀ r ∈ rows, r.1 ≠ hash) :
    set hash e rows = rows ++ [(hash, e)] := upsert_of_new (rowAt_eq_none.mpr h)

/-- An entry changed in place keeps its frame, if its session and its account stay. -/
theorem frame_set {e' : Entry} (hn : (rows.map Prod.fst).Nodup) (he : (hash, e) ∈ rows)
    (hsession : e'.session = e.session) (hprincipal : e'.principal = e.principal) :
    (set hash e' rows).map frame = rows.map frame := by
  have hold : rowAt Prod.fst hash rows = some (hash, e) := (rowAt_eq_some hn).mpr ⟨he, rfl⟩
  rw [set, upsert_of_old hold, List.map_map]
  apply map_congr_left
  intro r hr
  show frame (if r.1 = hash then (hash, e') else r) = frame r
  split_ifs with hkey
  · obtain rfl : r.2 = e := entry_unique hn (hkey ▸ hr) he
    simp [frame, hkey, hsession, hprincipal]
  · rfl

variable {drawn' : ℕ}

/-- One entry is changed in place, and the book with it: the book says what the entry now is,
and nothing else of the other sessions. -/
theorem Sound.edit (h : Sound secrets limits s b) {e' : Entry} (he : (hash, e) ∈ s.byId)
    (hgood : Good secrets limits b' e') (hsession : e'.session = e.session)
    (hprincipal : e'.principal = e.principal) (hd : s.drawn ≤ drawn')
    (hothers : ∀ o : Entry, o.session ≠ e.session → Good secrets limits b o → Good secrets limits b' o)
    (hissued : ∀ i ∈ b'.tokens, ∃ j < drawn', i.token = secrets.draw j)
    (htokens : (b'.tokens.map Issued.token).Nodup) :
    Sound secrets limits { s with byId := set hash e' s.byId, drawn := drawn' } b' := by
  have hframe := frame_set h.keys he hsession hprincipal
  refine ⟨?_, ?_, hissued, htokens, ?_⟩
  · show Framed secrets limits ((set hash e' s.byId).map frame) drawn' s.made
    rw [hframe]
    exact h.framed.mono hd (le_refl _)
  · intro r hr
    rcases mem_set hr with rfl | ⟨hmem, hne⟩
    · exact hgood
    · apply hothers r.2 ?_ (h.good r hmem)
      intro hsame
      exact hne (congrArg Prod.fst (h.session_unique hmem he hsame))
  · intro ev hev
    obtain ⟨hmade, hgone, hown⟩ := h.evicted ev hev
    refine ⟨hmade, ?_, hown⟩
    intro r hr
    rcases mem_set hr with rfl | ⟨hmem, -⟩
    · show e'.session ≠ _
      rw [hsession]
      exact hgone _ he
    · exact hgone r hmem

/-! ### Calls that change an entry in place -/

/-- An entry whose idle expiry is put off. -/
def Entry.renewed (limits : SessionLimits) (now : ℤ) (e : Entry) : Entry :=
  { e with idleExpiresAt := min (now + limits.idleMs) e.absoluteExpiresAt }

theorem get_some {v : String} (h : s.entry secrets (some v) now = (s, some e)) (now' : ℤ) :
    s.get secrets limits (some v) now now' =
      ({ s with byId := set (secrets.sha256 v) (e.renewed limits now') s.byId },
        some (e.renewed limits now')) := by
  unfold SessionStore.get
  rw [h]
  rfl

theorem get_none (h : (s.entry secrets id now).2 = none) (now' : ℤ) :
    s.get secrets limits id now now' = ((s.entry secrets id now).1, none) := by
  unfold SessionStore.get
  rcases hentry : s.entry secrets id now with ⟨s', _ | e⟩
  · cases id <;> rfl
  · rw [hentry] at h
    cases h

theorem Sound.get (h : Sound secrets limits s b) (id : Option String) (now now' : ℤ) :
    Sound secrets limits (s.get secrets limits id now now').1
      (b.step secrets limits s (.get id now now')) := by
  rw [Book.step]
  cases hentry : (s.entry secrets id now).2 with
  | none =>
    rw [get_none hentry]
    exact h.entry_none hentry
  | some e =>
    obtain ⟨v, rfl, hfind, -, heq⟩ := entry_some hentry
    rw [get_some heq]
    have hmem := find_some hfind
    have hgood := h.good _ hmem
    have hnew : Good secrets limits { b with used := Function.update b.used e.session now' }
        (e.renewed limits now') := by
      refine ⟨hgood.created, hgood.absolute, ?_, hgood.once, hgood.csrf⟩
      show min (now' + limits.idleMs) e.absoluteExpiresAt ≤
        Function.update b.used e.session now' e.session + limits.idleMs
      rw [Function.update_self]
      exact min_le_left _ _
    refine h.edit hmem hnew rfl rfl (le_refl _) ?_ h.issued h.tokens
    intro o ho hgood
    refine ⟨hgood.created, hgood.absolute, ?_, hgood.once, hgood.csrf⟩
    show _ ≤ Function.update b.used e.session now' o.session + limits.idleMs
    rw [Function.update_of_ne ho]
    exact hgood.idle

theorem Sound.markRotate (h : Sound secrets limits s b) (principalId : String) :
    Sound secrets limits (s.markRotate principalId).1 b := by
  have hrow : ∀ r : String × Entry, ∃ m, (if r.2.principal.id = principalId
      then (r.1, { r.2 with mustRotate := true }) else r) = (r.1, { r.2 with mustRotate := m }) := by
    intro r
    split_ifs
    · exact ⟨true, rfl⟩
    · exact ⟨r.2.mustRotate, rfl⟩
  refine ⟨?_, ?_, h.issued, h.tokens, ?_⟩
  · show Framed secrets limits ((s.byId.map _).map frame) s.drawn s.made
    have hsame : (s.byId.map fun r => if r.2.principal.id = principalId
        then (r.1, { r.2 with mustRotate := true }) else r).map frame = s.byId.map frame := by
      rw [List.map_map]
      apply map_congr_left
      intro r _
      obtain ⟨m, hm⟩ := hrow r
      rw [Function.comp_apply, hm]
      rfl
    rw [hsame]
    exact h.framed
  · intro r hr
    obtain ⟨r', hr', rfl⟩ := mem_map.mp hr
    obtain ⟨m, hm⟩ := hrow r'
    rw [hm]
    have hgood := h.good r' hr'
    exact ⟨hgood.created, hgood.absolute, hgood.idle, hgood.once, hgood.csrf⟩
  · intro ev hev
    obtain ⟨hmade, hgone, hown⟩ := h.evicted ev hev
    refine ⟨hmade, ?_, hown⟩
    intro r hr
    obtain ⟨r', hr', rfl⟩ := mem_map.mp hr
    obtain ⟨m, hm⟩ := hrow r'
    rw [hm]
    exact hgone r' hr'

/-! ### One-time tokens -/

theorem dropOldestCsrf_sublist (max : ℤ) (csrf : List (String × ℤ)) :
    (SessionStore.dropOldestCsrf max csrf).Sublist csrf := by
  induction csrf with
  | nil => exact List.Sublist.refl _
  | cons t csrf ih =>
    rw [SessionStore.dropOldestCsrf]
    split_ifs
    · exact ih.cons t
    · exact List.Sublist.refl _

/-- The tokens that are pending when one more is issued. -/
def Entry.pending (limits : SessionLimits) (now : ℤ) (e : Entry) : List (String × ℤ) :=
  SessionStore.dropOldestCsrf limits.maxCsrfPerSession (e.csrf.filter fun t => ¬ t.2 ≤ now)

theorem pending_sublist (now : ℤ) (e : Entry) : (e.pending limits now).Sublist e.csrf :=
  (dropOldestCsrf_sublist _ _).trans filter_sublist

/-- An entry with one more token, the one that is drawn next. -/
def Entry.given (secrets : Secrets) (limits : SessionLimits) (drawn : ℕ) (now : ℤ) (e : Entry) : Entry :=
  let t := (secrets.sha256 (secrets.draw drawn), now + limits.csrfTtlMs)
  { e with csrf := upsert Prod.fst (fun _ new => new) t (e.pending limits now) }

theorem issueCsrf_some {id : String} (h : s.entry secrets (some id) now = (s, some e)) (now' : ℤ) :
    s.issueCsrf secrets limits id now now' = ({ s with
          byId := set (secrets.sha256 id) (e.given secrets limits s.drawn now') s.byId
          drawn := s.drawn + 1 },
        some (secrets.draw s.drawn, now' + limits.csrfTtlMs)) := by
  unfold SessionStore.issueCsrf
  rw [h]
  rfl

theorem issueCsrf_none {id : String} (h : (s.entry secrets (some id) now).2 = none) (now' : ℤ) :
    s.issueCsrf secrets limits id now now' = ((s.entry secrets (some id) now).1, none) := by
  unfold SessionStore.issueCsrf
  rcases hentry : s.entry secrets (some id) now with ⟨s', _ | e⟩
  · rfl
  · rw [hentry] at h
    cases h

theorem Sound.issueCsrf (h : Sound secrets limits s b) (id : String) (now now' : ℤ) :
    Sound secrets limits (s.issueCsrf secrets limits id now now').1
      (b.step secrets limits s (.issueCsrf id now now')) := by
  rw [Book.step, SessionStore.peek]
  cases hentry : (s.entry secrets (some id) now).2 with
  | none =>
    rw [issueCsrf_none hentry]
    exact h.entry_none hentry
  | some e =>
    obtain ⟨v, hv, hfind, -, heq⟩ := entry_some hentry
    cases hv
    rw [issueCsrf_some heq]
    have hmem := find_some hfind
    have hgood := h.good _ hmem
    -- what was issued stays issued
    have hkept : ∀ o : Entry, (∀ t ∈ o.csrf, ∃ i ∈ b.tokens, t.1 = secrets.sha256 i.token ∧
        i.session = o.session ∧ i.expiresAt = t.2 ∧ i.consumed = false ∧ i.rotated = false) →
        ∀ t ∈ o.csrf, ∃ i ∈ b.tokens ++ [⟨secrets.draw s.drawn, e.session, now' + limits.csrfTtlMs, false, false⟩],
          t.1 = secrets.sha256 i.token ∧ i.session = o.session ∧ i.expiresAt = t.2 ∧
            i.consumed = false ∧ i.rotated = false := by
      intro o ho t ht
      obtain ⟨i, hi, hrest⟩ := ho t ht
      exact ⟨i, mem_append_left _ hi, hrest⟩
    have hfresh : ∀ t ∈ e.pending limits now', t.1 ≠ secrets.sha256 (secrets.draw s.drawn) := by
      intro t ht hsame
      obtain ⟨i, hi, htoken, -⟩ := hgood.csrf t ((pending_sublist now' e).subset ht)
      exact h.token_fresh i hi (secrets.sha256_injective (htoken.symm.trans hsame))
    have hgiven : (e.given secrets limits s.drawn now').csrf =
        e.pending limits now' ++ [(secrets.sha256 (secrets.draw s.drawn), now' + limits.csrfTtlMs)] := by
      show upsert Prod.fst (fun _ new => new) _ _ = _
      exact upsert_of_new (rowAt_eq_none.mpr hfresh)
    have hnew : Good secrets limits { b with tokens := b.tokens ++
          [⟨secrets.draw s.drawn, e.session, now' + limits.csrfTtlMs, false, false⟩] }
        (e.given secrets limits s.drawn now') := by
      refine ⟨hgood.created, hgood.absolute, hgood.idle, ?_, ?_⟩
      · rw [hgiven, map_append, nodup_append]
        refine ⟨hgood.once.sublist ((pending_sublist now' e).map _), nodup_singleton _, ?_⟩
        intro k hk k' hk'
        obtain ⟨t, ht, rfl⟩ := mem_map.mp hk
        rw [map_singleton, mem_singleton] at hk'
        rw [hk']
        exact hfresh t ht
      · intro t ht
        rw [hgiven] at ht
        rcases mem_append.mp ht with ht | ht
        · exact hkept e hgood.csrf t ((pending_sublist now' e).subset ht)
        · rw [mem_singleton.mp ht]
          exact ⟨_, mem_append_right _ (mem_singleton.mpr rfl), rfl, rfl, rfl, rfl, rfl⟩
    refine h.edit hmem hnew rfl rfl (Nat.le_add_right _ _) ?_ ?_ ?_
    · intro o _ hgood
      exact ⟨hgood.created, hgood.absolute, hgood.idle, hgood.once, hkept o hgood.csrf⟩
    · intro i hi
      rcases mem_append.mp hi with hi | hi
      · obtain ⟨j, hj, hdraw⟩ := h.issued i hi
        exact ⟨j, by omega, hdraw⟩
      · rw [mem_singleton.mp hi]
        exact ⟨s.drawn, Nat.lt_add_one _, rfl⟩
    · rw [map_append, nodup_append]
      refine ⟨h.tokens, nodup_singleton _, ?_⟩
      intro k hk k' hk'
      obtain ⟨i, hi, rfl⟩ := mem_map.mp hk
      rw [map_singleton, mem_singleton] at hk'
      rw [hk']
      exact h.token_fresh i hi

/-- An entry less one token. -/
def Entry.spent (hash : String) (e : Entry) : Entry := { e with csrf := e.csrf.filter fun t => t.1 ≠ hash }

/-- What spending a token does: nothing is found, or it is found and goes. -/
theorem consumeCsrf_spec (s : SessionStore) (id : String) (token : Option String) (now now' : ℤ) :
    ((s.consumeCsrf secrets id token now now').2 = false ∧
      (s.consumeCsrf secrets id token now now').1 = (s.entry secrets (some id) now).1) ∨
    ∃ e t exp, s.entry secrets (some id) now = (s, some e) ∧ token = some t ∧
      (secrets.sha256 t, exp) ∈ e.csrf ∧
      s.consumeCsrf secrets id token now now' =
        ({ s with byId := set (secrets.sha256 id) (e.spent (secrets.sha256 t)) s.byId },
          decide (exp > now')) := by
  unfold SessionStore.consumeCsrf
  cases hentry : (s.entry secrets (some id) now).2 with
  | none => grind
  | some e =>
    obtain ⟨v, hv, hfind, -, heq⟩ := entry_some hentry
    cases hv
    rw [heq]
    cases token with
    | none => exact Or.inl ⟨rfl, rfl⟩
    | some t =>
      dsimp only
      split_ifs with hempty
      · exact Or.inl ⟨rfl, rfl⟩
      · cases hrow : rowAt Prod.fst (secrets.sha256 t) e.csrf with
        | none => exact Or.inl ⟨rfl, rfl⟩
        | some row =>
          obtain ⟨k, exp⟩ := row
          obtain ⟨hmem, hkey⟩ := rowAt_some hrow
          obtain rfl : k = secrets.sha256 t := hkey
          exact Or.inr ⟨e, t, exp, rfl, rfl, hmem, rfl⟩

variable {f : Issued → Issued}

/-- Marks on issued tokens leave the tokens as they are. -/
theorem map_tokens (hf : ∀ i, (f i).token = i.token) (tokens : List Issued) :
    (tokens.map f).map Issued.token = tokens.map Issued.token := by
  rw [List.map_map]
  exact map_congr_left fun i _ => hf i

theorem Sound.issued_map (h : Sound secrets limits s b) (hf : ∀ i, (f i).token = i.token)
    (hd : s.drawn ≤ drawn') : ∀ i ∈ b.tokens.map f, ∃ j < drawn', i.token = secrets.draw j := by
  intro i hi
  obtain ⟨i', hi', rfl⟩ := mem_map.mp hi
  obtain ⟨j, hj, hdraw⟩ := h.issued i' hi'
  exact ⟨j, by omega, (hf i').trans hdraw⟩

/-- Of the pending tokens of an entry, those stay that a mark on issued tokens leaves. -/
theorem Good.marked (hgood : Good secrets limits b e) {csrf : List (String × ℤ)}
    (hsub : csrf.Sublist e.csrf)
    (hf : ∀ i ∈ b.tokens, i.session = e.session → secrets.sha256 i.token ∈ csrf.map Prod.fst → f i = i) :
    Good secrets limits { b with tokens := b.tokens.map f } { e with csrf := csrf } := by
  refine ⟨hgood.created, hgood.absolute, hgood.idle, hgood.once.sublist (hsub.map _), ?_⟩
  intro t ht
  obtain ⟨i, hi, htoken, hsession, hrest⟩ := hgood.csrf t (hsub.subset ht)
  have hsame := hf i hi hsession (htoken ▸ mem_map_of_mem ht)
  exact ⟨i, hsame ▸ mem_map_of_mem hi, htoken, hsession, hrest⟩

theorem Sound.consumeCsrf (h : Sound secrets limits s b) (id : String) (token : Option String)
    (now now' : ℤ) : Sound secrets limits (s.consumeCsrf secrets id token now now').1
      (b.step secrets limits s (.consumeCsrf id token now now')) := by
  rw [Book.step]
  rcases @consumeCsrf_spec secrets s id token now now' with
    ⟨hfalse, hstore⟩ | ⟨e, t, exp, hentry, rfl, hpending, heq⟩
  · rw [hfalse, hstore]
    cases hentry : (s.entry secrets (some id) now).2 with
    | none => exact h.entry_none hentry
    | some e =>
      obtain ⟨-, -, -, -, heq⟩ := entry_some hentry
      rw [heq]
      exact h
  · obtain ⟨v, hv, hfind, -, -⟩ := entry_some (by rw [hentry])
    cases hv
    rw [heq]
    have hmem := find_some hfind
    have hgood := h.good _ hmem
    have hsub : (e.csrf.filter fun u => u.1 ≠ secrets.sha256 t).Sublist e.csrf := filter_sublist
    by_cases hlive : exp > now'
    · simp only [hlive, decide_true, if_true]
      set mark := fun i : Issued => if some t = some i.token then { i with consumed := true } else i
      have hmark : ∀ i, (mark i).token = i.token := by grind
      have hother : ∀ i : Issued, i.token ≠ t → mark i = i := by
        intro i hne
        exact if_neg fun hsame => hne (Option.some.inj hsame).symm
      -- the token that is spent is this session's and no other's
      obtain ⟨i, hi, htoken, hsession, -⟩ := hgood.csrf _ hpending
      have hit : i.token = t := (secrets.sha256_injective htoken).symm
      have hnew : Good secrets limits { b with tokens := b.tokens.map mark }
          (e.spent (secrets.sha256 t)) := by
        apply hgood.marked hsub
        intro j _ _ hin
        obtain ⟨u, hu, hkey⟩ := mem_map.mp hin
        apply hother
        rintro rfl
        exact absurd hkey (by simpa using (mem_filter.mp hu).2)
      refine h.edit hmem hnew rfl rfl (le_refl _) ?_ (h.issued_map hmark (le_refl _)) ?_
      · intro o ho hgoodo
        apply hgoodo.marked (List.Sublist.refl _)
        intro j hj hjs _
        apply hother
        intro hjt
        have hsame := inj_on_of_nodup_map h.tokens hj hi (hjt.trans hit.symm)
        rw [hsame] at hjs
        exact ho (hjs.symm.trans hsession)
      · rw [map_tokens hmark]
        exact h.tokens
    · simp only [hlive, decide_false, Bool.false_eq_true, if_false]
      have hnew : Good secrets limits b (e.spent (secrets.sha256 t)) :=
        ⟨hgood.created, hgood.absolute, hgood.idle, hgood.once.sublist (hsub.map _),
          fun u hu => hgood.csrf u (hsub.subset hu)⟩
      exact h.edit hmem hnew rfl rfl (le_refl _) (fun _ _ hgoodo => hgoodo) h.issued h.tokens

end Plur1bus.Api.Sessions
