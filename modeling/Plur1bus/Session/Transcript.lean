import Mathlib.Logic.Relation
import Plur1bus.Program.Journal
import Plur1bus.Session.Store

/-!
What every history of calls keeps. Each operation of the store is a trail of
small changes: a message with the next number, an event with the next number,
a turn that starts, a turn that ends, a session that comes, is archived,
restored or erased. A change says under which conditions the code makes it, and
the facts about a database that every change keeps are facts about every
reachable database.

Rows are never rewritten: a message, an event or a turn that has ended is still
there after any further calls, unless its session was erased.
-/

namespace Plur1bus.Session

open Program List

variable {env : Env} {db db' : Db} {erasable : String → Prop}

/-! ### Changes -/

/-- One change to the rows of a database. Only sessions that are `erasable` may
go. -/
inductive Change (erasable : String → Prop) (db : Db) : Db → Prop
  | message {s : SessionRow} {m : MessageRecord} (hs : s ∈ db.sessions)
      (hown : m.sessionId = s.id) (hseq : m.seq = s.lastMessageSeq + 1)
      (hid : ∀ o ∈ db.messages, o.id ≠ m.id) :
      Change erasable db
        { db.setSession s.id (fun s => { s with lastMessageSeq := m.seq }) with
          messages := db.messages ++ [m] }
  | event {s : SessionRow} {e : EventRecord} (hs : s ∈ db.sessions)
      (hown : e.sessionId = s.id) (hseq : e.seq = s.lastEventSeq + 1) :
      Change erasable db
        { db.setSession s.id (fun s => { s with lastEventSeq := e.seq }) with
          events := db.events ++ [e] }
  | turn {s : SessionRow} {t : TurnRecord} {now : ℤ} (hs : s ∈ db.sessions)
      (hown : t.sessionId = s.id) (hseq : t.seq = s.turnCount + 1)
      (hid : ∀ o ∈ db.turns, o.id ≠ t.id) (hlive : s.archivedAt = none)
      (hidle : db.runningTurn s.id = none) :
      Change erasable db
        { db.setSession s.id
            (fun s => { s with turnCount := t.seq, lastTurnAt := some now, updatedAt := now }) with
          turns := db.turns ++ [t] }
  | ended {t : TurnRecord} {f : TurnRecord → TurnRecord} (ht : t ∈ db.turns)
      (hrun : t.state = .running) (hid : ∀ u, (f u).id = u.id)
      (hown : ∀ u, (f u).sessionId = u.sessionId) (hseq : ∀ u, (f u).seq = u.seq)
      (hend : ∀ u, (f u).state ≠ .running) :
      Change erasable db (db.setTurn t.id f)
  | session {s : SessionRow} (hid : ∀ o ∈ db.sessions, o.id ≠ s.id) (hturns : s.turnCount = 0)
      (hmessages : s.lastMessageSeq = 0) (hevents : s.lastEventSeq = 0) (hchat : db.chatFree s) :
      Change erasable db { db with sessions := db.sessions ++ [s] }
  | archive {id : String} {now : ℤ} (hidle : db.runningTurn id = none) :
      Change erasable db (db.setSession id (archivedRow now))
  | restore {s : SessionRow} {now : ℤ} (hs : s ∈ db.sessions)
      (hchat : db.chatFree { s with archivedAt := none }) :
      Change erasable db
        (db.setSession s.id (fun s => { s with archivedAt := none, updatedAt := now }))
  | touch {id : String} {now : ℤ} : Change erasable db (db.touch id now)
  | rewind {s : SessionRow} {m : MessageRecord} {r : RewindRecord} (hs : s ∈ db.sessions)
      (hown : m.sessionId = s.id) (hseq : m.seq = s.lastMessageSeq + 1)
      (hid : ∀ o ∈ db.messages, o.id ≠ m.id) (hturn : m.turnId = none)
      (hrid : ∀ o ∈ db.rewinds, o.id ≠ r.id) (hrown : r.sessionId = s.id)
      (hlesson : r.lessonMessageId = some m.id) (hfrom : r.hiddenFromSeq = r.parentSeq + 1)
      (hto : r.hiddenToSeq ≤ s.lastMessageSeq) :
      Change erasable db
        { db.setSession s.id (fun s => { s with lastMessageSeq := m.seq }) with
          messages := db.messages ++ [m], rewinds := db.rewinds ++ [r] }
  | undo {id : String} {at' : ℤ} : Change erasable db (db.setUndone id at')
  | beside {db' : Db} (hsessions : db'.sessions = db.sessions) (hturns : db'.turns = db.turns)
      (hmessages : db'.messages = db.messages) (hevents : db'.events = db.events)
      (hrewinds : db'.rewinds = db.rewinds) : Change erasable db db'
  | erase {id : String} (he : erasable id) : Change erasable db (db.deleteSession id)

/-- Changes one after the other. -/
abbrev Trail (erasable : String → Prop) : Db → Db → Prop := Relation.ReflTransGen (Change erasable)

theorem Change.mono {P Q : String → Prop} (hPQ : ∀ s, P s → Q s) (h : Change P db db') :
    Change Q db db' := by
  cases h with
  | message hs hown hseq hid => exact .message hs hown hseq hid
  | event hs hown hseq => exact .event hs hown hseq
  | turn hs hown hseq hid hlive hidle => exact .turn hs hown hseq hid hlive hidle
  | ended ht hrun hid hown hseq hend => exact .ended ht hrun hid hown hseq hend
  | session hid hturns hmessages hevents hchat =>
    exact .session hid hturns hmessages hevents hchat
  | archive hidle => exact .archive hidle
  | restore hs hchat => exact .restore hs hchat
  | touch => exact .touch
  | rewind hs hown hseq hid hturn hrid hrown hlesson hfrom hto =>
    exact .rewind hs hown hseq hid hturn hrid hrown hlesson hfrom hto
  | undo => exact .undo
  | beside hsessions hturns hmessages hevents hrewinds =>
    exact .beside hsessions hturns hmessages hevents hrewinds
  | erase he => exact .erase (hPQ _ he)

theorem Trail.mono {P Q : String → Prop} (hPQ : ∀ s, P s → Q s) (h : Trail P db db') : Trail Q db db' :=
  Relation.ReflTransGen.mono (fun _ _ hc => Change.mono hPQ hc) _ _ h

/-! ### Numbering -/

/-- Every session's messages, events and turns are numbered up to its counters,
and every row has its session. -/
structure Counted (db : Db) : Prop where
  ids : (db.sessions.map (·.id)).Nodup
  messageIds : (db.messages.map (·.id)).Nodup
  turnIds : (db.turns.map (·.id)).Nodup
  messages : ∀ s ∈ db.sessions,
    Numbered MessageRecord.sessionId MessageRecord.seq s.id s.lastMessageSeq db.messages
  events : ∀ s ∈ db.sessions, Numbered EventRecord.sessionId EventRecord.seq s.id s.lastEventSeq db.events
  turns : ∀ s ∈ db.sessions, Numbered TurnRecord.sessionId TurnRecord.seq s.id s.turnCount db.turns
  messageOwner : ∀ m ∈ db.messages, ∃ s ∈ db.sessions, s.id = m.sessionId
  eventOwner : ∀ e ∈ db.events, ∃ s ∈ db.sessions, s.id = e.sessionId
  turnOwner : ∀ t ∈ db.turns, ∃ s ∈ db.sessions, s.id = t.sessionId

variable {id : String} {f : SessionRow → SessionRow}

theorem mem_setSession {s' : SessionRow} : s' ∈ (db.setSession id f).sessions ↔
      ∃ s ∈ db.sessions, (if s.id = id then f s else s) = s' := by
  simp [Db.setSession]

/-- A row of an updated table is a row that was there, or the new state of one
with the id. -/
theorem forall_setSession {P : SessionRow → Prop} (hsame : ∀ s ∈ db.sessions, s.id = id → P (f s))
    (hother : ∀ s ∈ db.sessions, s.id ≠ id → P s) : ∀ s ∈ (db.setSession id f).sessions, P s := by
  intro s' hs'
  obtain ⟨s, hs, rfl⟩ := mem_setSession.mp hs'
  split
  · exact hsame s hs ‹_›
  · exact hother s hs ‹_›

theorem ids_setSession (hf : ∀ s, (f s).id = s.id) :
    (db.setSession id f).sessions.map (·.id) = db.sessions.map (·.id) := by
  simp only [Db.setSession, List.map_map]
  refine map_congr_left fun s _ => ?_
  simp only [Function.comp_apply]
  split
  · exact hf s
  · rfl

theorem nodup_ids_setSession (hf : ∀ s, (f s).id = s.id) (h : (db.sessions.map (·.id)).Nodup) :
    ((db.setSession id f).sessions.map (·.id)).Nodup := by
  rw [ids_setSession hf]
  exact h

theorem owner_setSession {k : String} (hf : ∀ s, (f s).id = s.id) (h : ∃ s ∈ db.sessions, s.id = k) :
    ∃ s ∈ (db.setSession id f).sessions, s.id = k := by
  have hmem : k ∈ (db.setSession id f).sessions.map (·.id) := by
    rw [ids_setSession hf]
    exact mem_map.mpr h
  exact mem_map.mp hmem

theorem nodup_ids_append {α : Type} {l : List α} {key : α → String} {a : α}
    (h : (l.map key).Nodup) (ha : ∀ o ∈ l, key o ≠ key a) : ((l ++ [a]).map key).Nodup := by
  rw [map_append, nodup_append]
  refine ⟨h, by simp, fun x hx y hy hxy => ?_⟩
  obtain ⟨o, ho, rfl⟩ := mem_map.mp hx
  exact ha o ho (by simpa [hxy] using hy)

namespace Counted

variable {id : String}

/-- Updates of the session rows that leave ids and counters alone. -/
theorem setSession (h : Counted db) {f : SessionRow → SessionRow} (hid : ∀ s, (f s).id = s.id)
    (hmessages : ∀ s, (f s).lastMessageSeq = s.lastMessageSeq)
    (hevents : ∀ s, (f s).lastEventSeq = s.lastEventSeq) (hturns : ∀ s, (f s).turnCount = s.turnCount) :
    Counted (db.setSession id f) where
  ids := nodup_ids_setSession hid h.ids
  messageIds := h.messageIds
  turnIds := h.turnIds
  messages := forall_setSession
    (fun s hs _ => by rw [hid, hmessages]; exact h.messages s hs) (fun s hs _ => h.messages s hs)
  events := forall_setSession
    (fun s hs _ => by rw [hid, hevents]; exact h.events s hs) (fun s hs _ => h.events s hs)
  turns := forall_setSession
    (fun s hs _ => by rw [hid, hturns]; exact h.turns s hs) (fun s hs _ => h.turns s hs)
  messageOwner m hm := owner_setSession hid (h.messageOwner m hm)
  eventOwner e he := owner_setSession hid (h.eventOwner e he)
  turnOwner t ht := owner_setSession hid (h.turnOwner t ht)

variable {s : SessionRow}

theorem message (h : Counted db) {m : MessageRecord} (hs : s ∈ db.sessions) (hown : m.sessionId = s.id)
    (hseq : m.seq = s.lastMessageSeq + 1) (hid : ∀ o ∈ db.messages, o.id ≠ m.id) :
    Counted { db.setSession s.id (fun s => { s with lastMessageSeq := m.seq }) with
      messages := db.messages ++ [m] } where
  ids := nodup_ids_setSession (fun _ => rfl) h.ids
  messageIds := nodup_ids_append h.messageIds hid
  turnIds := h.turnIds
  messages := by
    refine forall_setSession (fun o ho hoid => ?_) fun o ho hoid => ?_
    · -- the session the message goes to has the counter it was numbered with
      have hold := h.messages s hs
      rw [← hoid] at hold hown
      show Numbered _ _ o.id m.seq _
      rw [hseq]
      exact hold.append hown hseq
    · exact (h.messages o ho).append_other (hown ▸ hoid.symm)
  events := forall_setSession (fun s hs _ => h.events s hs) (fun s hs _ => h.events s hs)
  turns := forall_setSession (fun s hs _ => h.turns s hs) (fun s hs _ => h.turns s hs)
  messageOwner o ho := by
    refine owner_setSession (fun _ => rfl) ?_
    rcases mem_append.mp ho with ho | ho
    · exact h.messageOwner o ho
    · rw [mem_singleton.mp ho, hown]
      exact ⟨s, hs, rfl⟩
  eventOwner e he := owner_setSession (fun _ => rfl) (h.eventOwner e he)
  turnOwner t ht := owner_setSession (fun _ => rfl) (h.turnOwner t ht)

theorem event (h : Counted db) {e : EventRecord} (hs : s ∈ db.sessions) (hown : e.sessionId = s.id)
    (hseq : e.seq = s.lastEventSeq + 1) :
    Counted { db.setSession s.id (fun s => { s with lastEventSeq := e.seq }) with
      events := db.events ++ [e] } where
  ids := nodup_ids_setSession (fun _ => rfl) h.ids
  messageIds := h.messageIds
  turnIds := h.turnIds
  messages := forall_setSession (fun s hs _ => h.messages s hs) (fun s hs _ => h.messages s hs)
  events := by
    refine forall_setSession (fun o ho hoid => ?_) fun o ho hoid => ?_
    · have hold := h.events s hs
      rw [← hoid] at hold hown
      show Numbered _ _ o.id e.seq _
      rw [hseq]
      exact hold.append hown hseq
    · exact (h.events o ho).append_other (hown ▸ hoid.symm)
  turns := forall_setSession (fun s hs _ => h.turns s hs) (fun s hs _ => h.turns s hs)
  messageOwner m hm := owner_setSession (fun _ => rfl) (h.messageOwner m hm)
  eventOwner o ho := by
    refine owner_setSession (fun _ => rfl) ?_
    rcases mem_append.mp ho with ho | ho
    · exact h.eventOwner o ho
    · rw [mem_singleton.mp ho, hown]
      exact ⟨s, hs, rfl⟩
  turnOwner t ht := owner_setSession (fun _ => rfl) (h.turnOwner t ht)

theorem turn (h : Counted db) {t : TurnRecord} {now : ℤ} (hs : s ∈ db.sessions)
    (hown : t.sessionId = s.id) (hseq : t.seq = s.turnCount + 1) (hid : ∀ o ∈ db.turns, o.id ≠ t.id) :
    Counted { db.setSession s.id
        (fun s => { s with turnCount := t.seq, lastTurnAt := some now, updatedAt := now }) with
      turns := db.turns ++ [t] } where
  ids := nodup_ids_setSession (fun _ => rfl) h.ids
  messageIds := h.messageIds
  turnIds := nodup_ids_append h.turnIds hid
  messages := forall_setSession (fun s hs _ => h.messages s hs) (fun s hs _ => h.messages s hs)
  events := forall_setSession (fun s hs _ => h.events s hs) (fun s hs _ => h.events s hs)
  turns := by
    refine forall_setSession (fun o ho hoid => ?_) fun o ho hoid => ?_
    · have hold := h.turns s hs
      rw [← hoid] at hold hown
      show Numbered _ _ o.id t.seq _
      rw [hseq]
      exact hold.append hown hseq
    · exact (h.turns o ho).append_other (hown ▸ hoid.symm)
  messageOwner m hm := owner_setSession (fun _ => rfl) (h.messageOwner m hm)
  eventOwner e he := owner_setSession (fun _ => rfl) (h.eventOwner e he)
  turnOwner o ho := by
    refine owner_setSession (fun _ => rfl) ?_
    rcases mem_append.mp ho with ho | ho
    · exact h.turnOwner o ho
    · rw [mem_singleton.mp ho, hown]
      exact ⟨s, hs, rfl⟩

/-- Updates of a turn that leave its id, session and number alone. -/
theorem setTurn (h : Counted db) {f : TurnRecord → TurnRecord} (hid : ∀ u, (f u).id = u.id)
    (hown : ∀ u, (f u).sessionId = u.sessionId) (hseq : ∀ u, (f u).seq = u.seq) :
    Counted (db.setTurn id f) where
  ids := h.ids
  messageIds := h.messageIds
  turnIds := by
    have hsame : (db.setTurn id f).turns.map (·.id) = db.turns.map (·.id) := by
      simp only [Db.setTurn, List.map_map]
      refine map_congr_left fun t _ => ?_
      simp only [Function.comp_apply]
      split
      · exact hid t
      · rfl
    rw [hsame]
    exact h.turnIds
  messages := h.messages
  events := h.events
  turns s hs := by
    refine (h.turns s hs).map (fun t => ?_) fun t => ?_
    · split
      · exact hown t
      · rfl
    · split
      · exact hseq t
      · rfl
  messageOwner := h.messageOwner
  eventOwner := h.eventOwner
  turnOwner t ht := by
    obtain ⟨u, hu, rfl⟩ := mem_map.mp ht
    split
    · rw [hown]
      exact h.turnOwner u hu
    · exact h.turnOwner u hu

theorem session (h : Counted db) (hid : ∀ o ∈ db.sessions, o.id ≠ s.id) (hturns : s.turnCount = 0)
    (hmessages : s.lastMessageSeq = 0) (hevents : s.lastEventSeq = 0) :
    Counted { db with sessions := db.sessions ++ [s] } := by
  -- no row belongs to the new session: the row's own session is another
  have hnone : ∀ k, (∃ o ∈ db.sessions, o.id = k) → k ≠ s.id := by
    rintro k ⟨o, ho, rfl⟩
    exact hid o ho
  have hkeep : ∀ k, (∃ o ∈ db.sessions, o.id = k) → ∃ o ∈ db.sessions ++ [s], o.id = k := by
    rintro k ⟨o, ho, rfl⟩
    exact ⟨o, mem_append_left _ ho, rfl⟩
  refine ⟨nodup_ids_append h.ids hid, h.messageIds, h.turnIds, fun o ho => ?_, fun o ho => ?_,
    fun o ho => ?_, fun m hm => hkeep _ (h.messageOwner m hm),
    fun e he => hkeep _ (h.eventOwner e he), fun t ht => hkeep _ (h.turnOwner t ht)⟩
  all_goals rcases mem_append.mp ho with ho | ho
  · exact h.messages o ho
  · rw [mem_singleton.mp ho, hmessages]
    exact numbered_zero fun m hm => hnone _ (h.messageOwner m hm)
  · exact h.events o ho
  · rw [mem_singleton.mp ho, hevents]
    exact numbered_zero fun e he => hnone _ (h.eventOwner e he)
  · exact h.turns o ho
  · rw [mem_singleton.mp ho, hturns]
    exact numbered_zero fun t ht => hnone _ (h.turnOwner t ht)

theorem deleteSession (h : Counted db) (id : String) : Counted (db.deleteSession id) := by
  have hsub : ∀ {α : Type} (l : List α) (p : α → Bool) (key : α → String),
      (l.map key).Nodup → ((l.filter p).map key).Nodup :=
    fun l p key hn => hn.sublist (filter_sublist.map key)
  have hkept : ∀ k, k ≠ id → (∃ s ∈ db.sessions, s.id = k) →
      ∃ s ∈ (db.deleteSession id).sessions, s.id = k := by
    rintro k hk ⟨s, hs, rfl⟩
    exact ⟨s, mem_filter.mpr ⟨hs, by simpa using hk⟩, rfl⟩
  refine ⟨hsub _ _ _ h.ids, hsub _ _ _ h.messageIds, hsub _ _ _ h.turnIds, fun s hs => ?_,
    fun s hs => ?_, fun s hs => ?_, fun m hm => ?_, fun e he => ?_, fun t ht => ?_⟩
  · obtain ⟨hs, hne⟩ := mem_filter.mp hs
    exact (h.messages s hs).filter_other (Ne.symm (by simpa using hne))
  · obtain ⟨hs, hne⟩ := mem_filter.mp hs
    exact (h.events s hs).filter_other (Ne.symm (by simpa using hne))
  · obtain ⟨hs, hne⟩ := mem_filter.mp hs
    exact (h.turns s hs).filter_other (Ne.symm (by simpa using hne))
  · obtain ⟨hm, hne⟩ := mem_filter.mp hm
    exact hkept _ (by simpa using hne) (h.messageOwner m hm)
  · obtain ⟨he, hne⟩ := mem_filter.mp he
    exact hkept _ (by simpa using hne) (h.eventOwner e he)
  · obtain ⟨ht, hne⟩ := mem_filter.mp ht
    exact hkept _ (by simpa using hne) (h.turnOwner t ht)

/-- The numbering depends on no other table. -/
theorem congr (h : Counted db) (hsessions : db'.sessions = db.sessions)
    (hturns : db'.turns = db.turns) (hmessages : db'.messages = db.messages)
    (hevents : db'.events = db.events) : Counted db' := by
  obtain ⟨ids, messageIds, turnIds, messages, events, turns, messageOwner, eventOwner, turnOwner⟩ := h
  constructor <;> simpa only [hsessions, hturns, hmessages, hevents]

theorem change (h : Counted db) (hc : Change erasable db db') : Counted db' := by
  cases hc with
  | message hs hown hseq hid => exact h.message hs hown hseq hid
  | event hs hown hseq => exact h.event hs hown hseq
  | turn hs hown hseq hid _ _ => exact h.turn hs hown hseq hid
  | ended _ _ hid hown hseq _ => exact h.setTurn hid hown hseq
  | session hid hturns hmessages hevents _ => exact h.session hid hturns hmessages hevents
  | archive _ =>
    exact h.setSession (fun _ => rfl) (fun _ => rfl) (fun _ => rfl) (fun _ => rfl)
  | restore _ _ =>
    exact h.setSession (fun _ => rfl) (fun _ => rfl) (fun _ => rfl) (fun _ => rfl)
  | touch => exact h.setSession (fun _ => rfl) (fun _ => rfl) (fun _ => rfl) (fun _ => rfl)
  | rewind hs hown hseq hid _ _ _ _ _ _ =>
    exact (h.message hs hown hseq hid).congr rfl rfl rfl rfl
  | undo => exact h.congr rfl rfl rfl rfl
  | beside hsessions hturns hmessages hevents _ =>
    exact h.congr hsessions hturns hmessages hevents
  | erase _ => exact h.deleteSession _

theorem trail (h : Counted db) (ht : Trail erasable db db') : Counted db' := by
  induction ht with
  | refl => exact h
  | tail _ hc ih => exact ih.change hc

end Counted

/-! ### One at a time -/

/-- A session has at most one running turn and none while archived, and a chat
at most one unarchived session. -/
structure Exclusive (db : Db) : Prop where
  running : ∀ t ∈ db.turns, ∀ u ∈ db.turns, t.state = .running → u.state = .running →
    t.sessionId = u.sessionId → t = u
  live : ∀ t ∈ db.turns, t.state = .running → ∀ s ∈ db.sessions, s.id = t.sessionId → s.archivedAt = none
  chats : ∀ s ∈ db.sessions, ∀ o ∈ db.sessions, s.archivedAt = none → o.archivedAt = none →
    s.chatKey ≠ none → o.chatKey = s.chatKey → s.id = o.id

theorem runningTurn_none (h : db.runningTurn id = none) {t : TurnRecord} (ht : t ∈ db.turns)
    (hrun : t.state = .running) : t.sessionId ≠ id := by
  intro hid
  have := List.find?_eq_none.mp h t ht
  simp [hid, hrun] at this

theorem Counted.session_unique (h : Counted db) {s o : SessionRow} (hs : s ∈ db.sessions)
    (ho : o ∈ db.sessions) (hid : s.id = o.id) : s = o :=
  inj_on_of_nodup_map h.ids hs ho hid

namespace Exclusive

variable {id : String} {f : SessionRow → SessionRow}

/-- Updates of the session rows that leave ids, chats and archiving alone. -/
theorem setSession (h : Exclusive db) (hid : ∀ s, (f s).id = s.id)
    (hchat : ∀ s, (f s).chatKey = s.chatKey) (harchived : ∀ s, (f s).archivedAt = s.archivedAt) :
    Exclusive (db.setSession id f) where
  running := h.running
  live t ht hrun := by
    refine forall_setSession (fun s hs _ => ?_) fun s hs _ => h.live t ht hrun s hs
    rw [hid, harchived]
    exact h.live t ht hrun s hs
  chats := by
    refine forall_setSession (fun s hs _ => ?_) fun s hs _ => ?_
    · rw [hid, hchat, harchived]
      refine forall_setSession (fun o ho _ => ?_) fun o ho _ => h.chats s hs o ho
      rw [hid, hchat, harchived]
      exact h.chats s hs o ho
    · refine forall_setSession (fun o ho _ => ?_) fun o ho _ => h.chats s hs o ho
      rw [hid, hchat, harchived]
      exact h.chats s hs o ho

variable {s : SessionRow}

theorem turn (h : Exclusive db) (hcounted : Counted db) {t : TurnRecord} (hs : s ∈ db.sessions)
    (hown : t.sessionId = s.id) (hlive : s.archivedAt = none) (hidle : db.runningTurn s.id = none)
    (hid : ∀ s, (f s).id = s.id) (hchat : ∀ s, (f s).chatKey = s.chatKey)
    (harchived : ∀ s, (f s).archivedAt = s.archivedAt) :
    Exclusive { db.setSession s.id f with turns := db.turns ++ [t] } := by
  have hbase : Exclusive (db.setSession s.id f) := h.setSession hid hchat harchived
  refine ⟨fun a ha b hb harun hbrun hab => ?_, fun a ha harun => ?_, hbase.chats⟩
  · rcases mem_append.mp ha with ha | ha <;> rcases mem_append.mp hb with hb | hb
    · exact h.running a ha b hb harun hbrun hab
    · -- the other turn would be a running one of the same session
      rw [mem_singleton.mp hb, hown] at hab
      exact absurd hab (runningTurn_none hidle ha harun)
    · rw [mem_singleton.mp ha, hown] at hab
      exact absurd hab.symm (runningTurn_none hidle hb hbrun)
    · rw [mem_singleton.mp ha, mem_singleton.mp hb]
  · rcases mem_append.mp ha with ha | ha
    · exact hbase.live a ha harun
    · rw [mem_singleton.mp ha, hown]
      refine forall_setSession (fun o ho hoid _ => ?_) fun o ho hoid ho' => absurd ho' hoid
      rw [harchived, hcounted.session_unique ho hs hoid]
      exact hlive

theorem ended (h : Exclusive db) {id : String} {f : TurnRecord → TurnRecord}
    (hend : ∀ u, (f u).state ≠ .running) : Exclusive (db.setTurn id f) := by
  -- a turn that runs afterwards is one that ran before
  have hold : ∀ t ∈ (db.setTurn id f).turns, t.state = .running → t ∈ db.turns := by
    intro t ht hrun
    obtain ⟨u, hu, rfl⟩ := mem_map.mp ht
    split at hrun
    · exact absurd hrun (hend u)
    · rw [if_neg ‹_›]
      exact hu
  exact ⟨fun t ht u hu htr hur => h.running t (hold t ht htr) u (hold u hu hur) htr hur,
    fun t ht htr => h.live t (hold t ht htr) htr, h.chats⟩

theorem session (h : Exclusive db) (hcounted : Counted db) (hid : ∀ o ∈ db.sessions, o.id ≠ s.id)
    (hchat : db.chatFree s) : Exclusive { db with sessions := db.sessions ++ [s] } := by
  refine ⟨h.running, fun t ht hrun o ho hoid => ?_, fun a ha b hb harch hbarch hkey hab => ?_⟩
  · rcases mem_append.mp ho with ho | ho
    · exact h.live t ht hrun o ho hoid
    · obtain ⟨p, hp, hpid⟩ := hcounted.turnOwner t ht
      rw [mem_singleton.mp ho] at hoid
      exact absurd (hpid.trans hoid.symm) (hid p hp)
  · rcases mem_append.mp ha with ha | ha <;> rcases mem_append.mp hb with hb | hb
    · exact h.chats a ha b hb harch hbarch hkey hab
    · rw [mem_singleton.mp hb] at hab hbarch
      exact absurd hab.symm (hchat hbarch (hab ▸ hkey) a ha (hid a ha) harch)
    · rw [mem_singleton.mp ha] at hab harch hkey
      exact absurd hab (hchat harch hkey b hb (hid b hb) hbarch)
    · rw [mem_singleton.mp ha, mem_singleton.mp hb]

theorem archive (h : Exclusive db) {now : ℤ} (hidle : db.runningTurn id = none) :
    Exclusive (db.setSession id (archivedRow now)) := by
  refine ⟨h.running, fun t ht hrun => ?_, ?_⟩
  · refine forall_setSession (fun s _ hsid hst => ?_) fun s hs _ => h.live t ht hrun s hs
    exact absurd (hst.symm.trans hsid) (runningTurn_none hidle ht hrun)
  · refine forall_setSession (fun s _ _ => fun _ _ hs => absurd hs (by simp [archivedRow]))
      fun s hs _ => forall_setSession (fun o _ _ => fun _ ho => absurd ho (by simp [archivedRow]))
        fun o ho _ => h.chats s hs o ho

theorem restore (h : Exclusive db) (hcounted : Counted db) {now : ℤ} (hs : s ∈ db.sessions)
    (hchat : db.chatFree { s with archivedAt := none }) :
    Exclusive (db.setSession s.id (fun s => { s with archivedAt := none, updatedAt := now })) := by
  refine ⟨h.running, fun t ht hrun => ?_, ?_⟩
  · exact forall_setSession (fun o _ _ => fun _ => rfl) fun o ho _ => h.live t ht hrun o ho
  · refine forall_setSession (fun a ha haid => ?_) fun a ha haid => ?_
    · obtain rfl := hcounted.session_unique ha hs haid
      refine forall_setSession (fun b _ hbid => fun _ _ _ _ => hbid.symm) fun b hb hbid => ?_
      intro _ hbarch hkey hab
      exact absurd hab (hchat rfl hkey b hb hbid hbarch)
    · refine forall_setSession (fun b hb hbid => ?_) fun b hb _ => h.chats a ha b hb
      obtain rfl := hcounted.session_unique hb hs hbid
      intro harch _ hkey hab
      exact absurd hab.symm (hchat rfl (hab ▸ hkey) a ha haid harch)

theorem deleteSession (h : Exclusive db) (id : String) : Exclusive (db.deleteSession id) where
  running t ht u hu := h.running t (mem_of_mem_filter ht) u (mem_of_mem_filter hu)
  live t ht hrun s hs := h.live t (mem_of_mem_filter ht) hrun s (mem_of_mem_filter hs)
  chats s hs o ho := h.chats s (mem_of_mem_filter hs) o (mem_of_mem_filter ho)

theorem congr (h : Exclusive db) (hsessions : db'.sessions = db.sessions)
    (hturns : db'.turns = db.turns) : Exclusive db' := by
  obtain ⟨running, live, chats⟩ := h
  constructor <;> simpa only [hsessions, hturns]

theorem rows (h : Exclusive db) (hsessions : db'.sessions = (db.setSession id f).sessions)
    (hturns : db'.turns = db.turns) (hid : ∀ s, (f s).id = s.id)
    (hchat : ∀ s, (f s).chatKey = s.chatKey) (harchived : ∀ s, (f s).archivedAt = s.archivedAt) :
    Exclusive db' :=
  (h.setSession hid hchat harchived).congr hsessions hturns

theorem change (h : Exclusive db) (hcounted : Counted db) (hc : Change erasable db db') :
    Exclusive db' := by
  cases hc with
  | message _ _ _ _ =>
    exact h.rows rfl rfl (fun _ => rfl) (fun _ => rfl) (fun _ => rfl)
  | event _ _ _ =>
    exact h.rows rfl rfl (fun _ => rfl) (fun _ => rfl) (fun _ => rfl)
  | turn hs hown _ _ hlive hidle =>
    exact h.turn hcounted hs hown hlive hidle (fun _ => rfl) (fun _ => rfl) (fun _ => rfl)
  | ended _ _ _ _ _ hend => exact h.ended hend
  | session hid _ _ _ hchat => exact h.session hcounted hid hchat
  | archive hidle => exact h.archive hidle
  | restore hs hchat => exact h.restore hcounted hs hchat
  | touch => exact h.setSession (fun _ => rfl) (fun _ => rfl) (fun _ => rfl)
  | rewind _ _ _ _ _ _ _ _ _ _ =>
    exact h.rows rfl rfl (fun _ => rfl) (fun _ => rfl) (fun _ => rfl)
  | undo => exact h.congr rfl rfl
  | beside hsessions hturns _ _ _ => exact h.congr hsessions hturns
  | erase _ => exact h.deleteSession _

theorem trail (h : Exclusive db) (hcounted : Counted db) (ht : Trail erasable db db') : Exclusive db' := by
  induction ht with
  | refl => exact h
  | tail hab hc ih => exact ih.change (hcounted.trail hab) hc

end Exclusive

/-! ### Rows stay as they are -/

/-- The rows of `db` that are final, and whose session may not go, are rows of
`db'`. -/
structure Kept (erasable : String → Prop) (db db' : Db) : Prop where
  messages : ∀ m ∈ db.messages, ¬erasable m.sessionId → m ∈ db'.messages
  events : ∀ e ∈ db.events, ¬erasable e.sessionId → e ∈ db'.events
  turns : ∀ t ∈ db.turns, ¬erasable t.sessionId → t.state ≠ .running → t ∈ db'.turns

theorem Kept.of_eq (hmessages : db'.messages = db.messages) (hevents : db'.events = db.events)
    (hturns : db'.turns = db.turns) : Kept erasable db db' where
  messages _ hm _ := hmessages ▸ hm
  events _ he _ := hevents ▸ he
  turns _ ht _ _ := hturns ▸ ht

theorem Kept.change (hcounted : Counted db) (hc : Change erasable db db') : Kept erasable db db' := by
  cases hc with
  | message _ _ _ _ =>
    exact ⟨fun m hm _ => mem_append_left _ hm, fun e he _ => he, fun t ht _ _ => ht⟩
  | event _ _ _ =>
    exact ⟨fun m hm _ => hm, fun e he _ => mem_append_left _ he, fun t ht _ _ => ht⟩
  | turn _ _ _ _ _ _ =>
    exact ⟨fun m hm _ => hm, fun e he _ => he, fun t ht _ _ => mem_append_left _ ht⟩
  | @ended t f ht hrun _ _ _ _ =>
    refine ⟨fun m hm _ => hm, fun e he _ => he, fun u hu _ hdone => ?_⟩
    -- the turn that ends is running, so it is not `u`
    have hne : u.id ≠ t.id := by
      intro hid
      rw [inj_on_of_nodup_map hcounted.turnIds hu ht hid] at hdone
      exact hdone hrun
    exact mem_map.mpr ⟨u, hu, if_neg hne⟩
  | session _ _ _ _ _ => exact .of_eq rfl rfl rfl
  | archive _ => exact .of_eq rfl rfl rfl
  | restore _ _ => exact .of_eq rfl rfl rfl
  | touch => exact .of_eq rfl rfl rfl
  | rewind _ _ _ _ _ _ _ _ _ _ =>
    exact ⟨fun m hm _ => mem_append_left _ hm, fun e he _ => he, fun t ht _ _ => ht⟩
  | undo => exact .of_eq rfl rfl rfl
  | beside _ hturns hmessages hevents _ => exact .of_eq hmessages hevents hturns
  | @erase id he =>
    have hkeep : ∀ k, ¬erasable k → k ≠ id := fun k hk hid => hk (hid ▸ he)
    exact ⟨fun m hm hk => mem_filter.mpr ⟨hm, by simpa using hkeep _ hk⟩,
      fun e he hk => mem_filter.mpr ⟨he, by simpa using hkeep _ hk⟩,
      fun t ht hk _ => mem_filter.mpr ⟨ht, by simpa using hkeep _ hk⟩⟩

theorem Kept.trail (hcounted : Counted db) (ht : Trail erasable db db') : Kept erasable db db' := by
  induction ht with
  | refl => exact .of_eq rfl rfl rfl
  | tail hab hc ih =>
    have hlast := Kept.change (hcounted.trail hab) hc
    exact ⟨fun m hm hk => hlast.messages m (ih.messages m hm hk) hk,
      fun e he hk => hlast.events e (ih.events e he hk) hk,
      fun t ht hk hdone => hlast.turns t (ih.turns t ht hk hdone) hk hdone⟩

end Plur1bus.Session
