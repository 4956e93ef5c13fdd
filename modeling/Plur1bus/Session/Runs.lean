import Plur1bus.Session.Transcript

/-!
Histories. Every operation that answers is a trail of changes, whatever ids and
clock readings it was given; one that throws changes nothing, except that a
recovery keeps the turns it has already failed. The transcript facts follow for
every history of calls from the empty database.
-/

namespace Plur1bus.Session

open Program List

variable {env : Env} {db db' : Db} {erasable : String → Prop}

/-! ### What the statements do -/

variable {id : String} {s : SessionRow}

theorem getSession_some (h : db.getSession id = some s) : s ∈ db.sessions ∧ s.id = id :=
  ⟨mem_of_find?_eq_some h, by simpa using List.find?_some h⟩

variable {t : TurnRecord}

theorem getTurn_some (h : db.getTurn id = some t) : t ∈ db.turns ∧ t.id = id :=
  ⟨mem_of_find?_eq_some h, by simpa using List.find?_some h⟩

theorem requireSession_ok {message : String} {reason : Option String}
    (h : requireSession db id message reason = .ok s) : s ∈ db.sessions ∧ s.id = id := by
  unfold requireSession at h
  split at h
  · rename_i o ho
    cases h
    exact getSession_some ho
  · cases h

theorem counter_ok {f : SessionRow → ℕ} {n : ℕ} (h : db.counter id f = .ok n) :
    ∃ s ∈ db.sessions, s.id = id ∧ n = f s := by
  unfold Db.counter at h
  split at h
  · rename_i s hs
    obtain ⟨hmem, hid⟩ := getSession_some hs
    exact ⟨s, hmem, hid, (Except.ok.inj h).symm⟩
  · cases h

variable {sid text : String} {tid : Option String} {role : MessageRole} {tokens : ℕ}

/-- A stored message has its session's next number and an id of its own. -/
theorem insertMessage_ok {r : MessageRecord × Db}
    (h : db.insertMessage env sid tid role text tokens = .ok r) : ∃ s ∈ db.sessions, s.id = sid ∧
      r.1 = ⟨env.newId "msg" db.messages.length, sid, tid, s.lastMessageSeq + 1, role, text, tokens,
        db.stamp env⟩ ∧
      (∀ o ∈ db.messages, o.id ≠ r.1.id) ∧
      r.2 = { db.setSession s.id (fun s => { s with lastMessageSeq := r.1.seq }) with
        messages := db.messages ++ [r.1] } := by
  obtain ⟨n, hn, h⟩ := bind_ok.mp h
  obtain ⟨s, hs, hid, rfl⟩ := counter_ok hn
  obtain ⟨_, hfresh, h⟩ := bind_ok.mp h
  obtain ⟨_, _, h⟩ := bind_ok.mp h
  cases h
  subst hid
  exact ⟨s, hs, rfl, rfl, ensure_ok.mp hfresh, rfl⟩

variable {type : EventType} {data : Fields} {r : EventRecord × Db}

theorem insertEvent_ok (h : db.insertEvent env sid tid type data = .ok r) : ∃ s ∈ db.sessions, s.id = sid ∧
      r.1 = ⟨sid, tid, s.lastEventSeq + 1, type, data, db.stamp env⟩ ∧
      r.2 = { db.setSession s.id (fun s => { s with lastEventSeq := r.1.seq }) with
        events := db.events ++ [r.1] } := by
  obtain ⟨n, hn, h⟩ := bind_ok.mp h
  obtain ⟨s, hs, hid, rfl⟩ := counter_ok hn
  obtain ⟨_, _, h⟩ := bind_ok.mp h
  cases h
  subst hid
  exact ⟨s, hs, rfl, rfl, rfl⟩

theorem trail_message {r : MessageRecord × Db}
    (h : db.insertMessage env sid tid role text tokens = .ok r) : Trail erasable db r.2 := by
  obtain ⟨s, hs, hid, hm, hfresh, hdb⟩ := insertMessage_ok h
  rw [hdb]
  refine .single (.message hs ?_ ?_ hfresh)
  · rw [hm, hid]
  · rw [hm]

theorem trail_event (h : db.insertEvent env sid tid type data = .ok r) : Trail erasable db r.2 := by
  obtain ⟨s, hs, hid, he, hdb⟩ := insertEvent_ok h
  rw [hdb]
  refine .single (.event hs ?_ ?_)
  · rw [he, hid]
  · rw [he]

/-! ### What the operations do -/

variable {i : CreateSessionInput}

theorem trail_replaceActive {now : ℤ} (h : replaceActive db now i = .ok db') : Trail erasable db db' := by
  unfold replaceActive at h
  split at h
  · cases h
    exact .refl
  · split at h
    · cases h
      exact .refl
    · obtain ⟨_, _, h⟩ := bind_ok.mp h
      obtain ⟨_, hidle, h⟩ := bind_ok.mp h
      cases h
      exact .single (.archive (ensure_ok.mp hidle))

theorem trail_createSession {r : SessionRow × Db} (h : createSession env db i = .ok r) :
    Trail erasable db r.2 := by
  obtain ⟨kind, _, h⟩ := bind_ok.mp h
  obtain ⟨origin, _, h⟩ := bind_ok.mp h
  obtain ⟨_, _, h⟩ := bind_ok.mp h
  obtain ⟨_, _, h⟩ := bind_ok.mp h
  obtain ⟨_, _, h⟩ := bind_ok.mp h
  obtain ⟨_, _, h⟩ := bind_ok.mp h
  obtain ⟨db₁, hreplace, h⟩ := bind_ok.mp h
  obtain ⟨db₂, hinsert, h⟩ := bind_ok.mp h
  cases h
  obtain ⟨_, hid, hinsert⟩ := bind_ok.mp hinsert
  obtain ⟨_, _, hinsert⟩ := bind_ok.mp hinsert
  obtain ⟨_, hchat, hinsert⟩ := bind_ok.mp hinsert
  cases hinsert
  exact (trail_replaceActive hreplace).tail
    (.session (ensure_ok.mp hid) rfl rfl rfl (ensure_ok.mp hchat))

theorem trail_createContinuation {i : ContinuationInput} {r : SessionRow × Db}
    (h : createContinuation env db i = .ok r) : Trail erasable db r.2 := by
  obtain ⟨_, _, h⟩ := bind_ok.mp h
  obtain ⟨⟨s, db₁⟩, hcreate, h⟩ := bind_ok.mp h
  obtain ⟨⟨m, db₂⟩, hmessage, h⟩ := bind_ok.mp h
  cases h
  exact (trail_createSession hcreate).trans (trail_message hmessage)

theorem trail_archiveSession (h : archiveSession env db id = .ok db') : Trail erasable db db' := by
  obtain ⟨s, _, h⟩ := bind_ok.mp h
  split at h
  · cases h
    exact .refl
  · obtain ⟨_, hidle, h⟩ := bind_ok.mp h
    cases h
    exact .single (.archive (ensure_ok.mp hidle))

theorem trail_restoreSession (h : restoreSession env db id = .ok db') : Trail erasable db db' := by
  obtain ⟨s, hs, h⟩ := bind_ok.mp h
  obtain ⟨hmem, rfl⟩ := requireSession_ok hs
  obtain ⟨_, _, h⟩ := bind_ok.mp h
  obtain ⟨_, hchat, h⟩ := bind_ok.mp h
  cases h
  exact .single (.restore hmem (ensure_ok.mp hchat))

theorem trail_forkMessages {next : String} {lessons : List (Option String)}
    {copied : List MessageRecord} (h : forkMessages env next lessons copied db = .ok db') :
    Trail erasable db db' := by
  induction copied generalizing db with
  | nil =>
    cases h
    exact .refl
  | cons m ms ih =>
    obtain ⟨⟨m', db₁⟩, hmessage, h⟩ := bind_ok.mp h
    exact (trail_message hmessage).trans (ih h)

theorem trail_forkSession {title : Option String} {beforeSeq : Option ℤ} {r : SessionRow × Db}
    (h : forkSession env db id title beforeSeq = .ok r) : Trail erasable db r.2 := by
  obtain ⟨source, _, h⟩ := bind_ok.mp h
  obtain ⟨_, _, h⟩ := bind_ok.mp h
  obtain ⟨⟨next, created⟩, hcreate, h⟩ := bind_ok.mp h
  obtain ⟨db₁, hmessages, h⟩ := bind_ok.mp h
  cases h
  exact (trail_createSession hcreate).trans (trail_forkMessages hmessages)

theorem trail_eraseSession {actor reason : String} (h : eraseSession env db id actor reason = .ok db')
    (he : erasable id) : Trail erasable db db' := by
  obtain ⟨_, _, h⟩ := bind_ok.mp h
  obtain ⟨s, _, h⟩ := bind_ok.mp h
  obtain ⟨_, _, h⟩ := bind_ok.mp h
  obtain ⟨_, _, h⟩ := bind_ok.mp h
  cases h
  have herase : Trail erasable db (db.deleteSession id) := .single (.erase he)
  exact herase.tail (.beside rfl rfl rfl rfl rfl)

theorem trail_setModelProfile {profile : String} {expected : ℕ} {reasoning : Option (Option String)}
    {person : Option String} {details : Option ModelDetails} {r : ℕ × Db}
    (h : setModelProfile env db sid profile expected reasoning person details = .ok r) :
    Trail erasable db r.2 := by
  obtain ⟨session, _, h⟩ := bind_ok.mp h
  obtain ⟨_, _, h⟩ := bind_ok.mp h
  obtain ⟨n, _, h⟩ := bind_ok.mp h
  obtain ⟨⟨e, db₁⟩, hevent, h⟩ := bind_ok.mp h
  cases h
  exact (Relation.ReflTransGen.single (.beside rfl rfl rfl rfl rfl)).trans (trail_event hevent)

theorem trail_beginTurn {command : Bool} {origin : Option Json} {r : String × Db}
    (h : beginTurn env db sid text tokens command origin = .ok r) : Trail erasable db r.2 := by
  obtain ⟨s, hs, h⟩ := bind_ok.mp h
  obtain ⟨hmem, rfl⟩ := requireSession_ok hs
  obtain ⟨_, hlive, h⟩ := bind_ok.mp h
  obtain ⟨_, _, h⟩ := bind_ok.mp h
  obtain ⟨_, hidle, h⟩ := bind_ok.mp h
  obtain ⟨db₁, hinsert, h⟩ := bind_ok.mp h
  obtain ⟨⟨m, db₂⟩, hmessage, h⟩ := bind_ok.mp h
  obtain ⟨⟨e, db₃⟩, hevent, h⟩ := bind_ok.mp h
  cases h
  obtain ⟨_, hid, hinsert⟩ := bind_ok.mp hinsert
  obtain ⟨_, _, hinsert⟩ := bind_ok.mp hinsert
  obtain ⟨_, _, hinsert⟩ := bind_ok.mp hinsert
  cases hinsert
  -- the row of the turn and the count on the session's row are one change
  refine Relation.ReflTransGen.head ?_ ((trail_message hmessage).trans (trail_event hevent))
  exact .turn hmem rfl rfl (ensure_ok.mp hid) (ensure_ok.mp hlive) (ensure_ok.mp hidle)

theorem running?_some (h : db.running? id = some t) : t ∈ db.turns ∧ t.id = id ∧ t.state = .running := by
  obtain ⟨hget, hrun⟩ := Option.filter_eq_some_iff.mp h
  obtain ⟨hmem, hid⟩ := getTurn_some hget
  exact ⟨hmem, hid, by simpa using hrun⟩

theorem trail_completeTurn {r : Option MessageRecord × Db}
    (h : completeTurn env db id text tokens data = .ok r) : Trail erasable db r.2 := by
  unfold completeTurn at h
  split at h
  · cases h
    exact .refl
  · rename_i t ht
    obtain ⟨hmem, rfl, hrun⟩ := running?_some ht
    obtain ⟨⟨m, db₁⟩, hmessage, h⟩ := bind_ok.mp h
    obtain ⟨⟨e, db₂⟩, hevent, h⟩ := bind_ok.mp h
    cases h
    have hmem' : t ∈ db₁.turns := by
      obtain ⟨s, _, _, _, _, hdb⟩ := insertMessage_ok hmessage
      rw [show db₁ = _ from hdb]
      exact hmem
    have hend : Trail erasable db₁ (db₁.setTurn t.id
        (fun t => { t with state := .completed, endedAt := some (db.now env) })) :=
      .single (.ended hmem' hrun (fun _ => rfl) (fun _ => rfl) (fun _ => rfl) (fun _ => nofun))
    exact (((trail_message hmessage).trans hend).tail .touch).trans (trail_event hevent)

theorem trail_failTurn {error : String} {r : Option EventRecord × Db}
    (h : failTurn env db id error data = .ok r) : Trail erasable db r.2 := by
  unfold failTurn at h
  split at h
  · cases h
    exact .refl
  · rename_i t ht
    obtain ⟨hmem, rfl, hrun⟩ := running?_some ht
    obtain ⟨⟨e, db₁⟩, hevent, h⟩ := bind_ok.mp h
    cases h
    have hend : Trail erasable db (db.setTurn t.id
        (fun t => { t with state := .failed, endedAt := some (db.now env), error := some error })) :=
      .single (.ended hmem hrun (fun _ => rfl) (fun _ => rfl) (fun _ => rfl) (fun _ => nofun))
    exact (hend.tail .touch).trans (trail_event hevent)

theorem trail_recoverTurns (ids : List String) : Trail erasable db (recoverTurns env ids db).1 := by
  induction ids generalizing db with
  | nil => exact .refl
  | cons id ids ih =>
    rw [recoverTurns]
    split
    · rename_i r hfail
      exact (trail_failTurn hfail).trans ih
    · exact .refl

theorem trail_appendEvent (h : appendEvent env db id type data = .ok r) : Trail erasable db r.2 := by
  unfold appendEvent at h
  split at h
  · cases h
  · obtain ⟨_, _, h⟩ := bind_ok.mp h
    exact trail_event h

theorem trail_proposeRewind {p : Proposal} (h : proposeRewind env db sid p = .ok db') :
    Trail erasable db db' := by
  obtain ⟨_, _, h⟩ := bind_ok.mp h
  split at h
  · cases h
    exact .refl
  · obtain ⟨⟨e, db₁⟩, hevent, h⟩ := bind_ok.mp h
    cases h
    exact trail_event hevent

variable {commandTurnId : Option String}

theorem trail_undoRewind {rewindId actor : String} {audit : Option Bool}
    (h : undoRewind env db sid rewindId actor audit commandTurnId = .ok db') :
    Trail erasable db db' := by
  obtain ⟨_, _, h⟩ := bind_ok.mp h
  obtain ⟨r, _, h⟩ := bind_ok.mp h
  obtain ⟨_, _, h⟩ := bind_ok.mp h
  split at h
  · cases h
    exact .refl
  · obtain ⟨_, _, h⟩ := bind_ok.mp h
    obtain ⟨⟨e, db₁⟩, hevent, h⟩ := bind_ok.mp h
    cases h
    exact ((Relation.ReflTransGen.single .undo).tail .touch).trans (trail_event hevent)

/-! ### Rewinding -/

/-- A message that no live rewind hides and that is no undone rewind's lesson. -/
def shown (rewinds : List RewindRecord) (m : MessageRecord) : Prop :=
  (∀ r ∈ rewinds, r.undoneAt ≠ none → r.lessonMessageId ≠ some m.id) ∧
    ∀ r ∈ rewinds, r.undoneAt = none → ¬(r.hiddenFromSeq ≤ m.seq ∧ m.seq ≤ r.hiddenToSeq)

instance (rewinds : List RewindRecord) (m : MessageRecord) : Decidable (shown rewinds m) := by
  unfold shown
  infer_instance

theorem activePath_eq (messages : List MessageRecord) (rewinds : List RewindRecord) :
    activePath messages rewinds = messages.filter (shown rewinds ·) := by
  simp_all [shown, activePath]

/-- The messages of a session that belong to no harness command, in order. -/
def Db.spoken (db : Db) (sid : String) : List MessageRecord :=
  (byNumber (·.seq) (db.messagesOf sid)).filter (db.plain sid)

theorem contextMessages_eq (sid : String) :
    db.contextMessages sid = (db.spoken sid).filter (shown (db.rewindsOf sid) ·) :=
  activePath_eq _ _

theorem mem_contextMessages {m : MessageRecord} (h : m ∈ db.contextMessages sid) :
    m ∈ db.messages ∧ m.sessionId = sid ∧ db.plain sid m ∧ shown (db.rewindsOf sid) m := by
  rw [contextMessages_eq] at h
  obtain ⟨hmem, hshown⟩ := mem_filter.mp h
  obtain ⟨hmem, hplain⟩ := mem_filter.mp hmem
  have hmem := (byNumber_perm _ _).mem_iff.mp hmem
  obtain ⟨hmem, hown⟩ := mem_filter.mp hmem
  exact ⟨hmem, by simpa using hown, hplain, by simpa using hshown⟩

/-- The active path without the messages of the command that rewinds. -/
def rewindable (db : Db) (sid : String) (commandTurnId : Option String) : List MessageRecord :=
  (db.contextMessages sid).filter (fun m => ∀ t, commandTurnId = some t → m.turnId ≠ some t)

theorem lastSeq_ok {active : List MessageRecord} {from' last : ℕ}
    (h : lastSeq active from' = .ok last) :
    from' ≤ last ∧ ∃ m, active.getLast? = some m ∧ m.seq = last := by
  unfold lastSeq at h
  split at h
  · cases h
  · rename_i m hm
    obtain ⟨_, hle, h⟩ := bind_ok.mp h
    cases h
    exact ⟨ensure_ok.mp hle, m, hm, rfl⟩

/-- A plan hides everything after its target up to the end of the path. -/
theorem planRewind_ok {toSeq : Target} {reservation : Option ℕ} {plan : Plan}
    (h : planRewind db sid toSeq commandTurnId reservation = .ok plan) :
    targetSeq (rewindable db sid commandTurnId) toSeq = .ok plan.parentSeq ∧
      plan.hiddenFromSeq = plan.parentSeq + 1 ∧ plan.hiddenFromSeq ≤ plan.hiddenToSeq ∧
      ∃ m, (rewindable db sid commandTurnId).getLast? = some m ∧ m.seq = plan.hiddenToSeq := by
  obtain ⟨_, _, h⟩ := bind_ok.mp h
  obtain ⟨p, hp, h⟩ := bind_ok.mp h
  obtain ⟨last, hto, h⟩ := bind_ok.mp h
  obtain ⟨n, _, h⟩ := bind_ok.mp h
  cases h
  obtain ⟨hle, hlast⟩ := lastSeq_ok hto
  exact ⟨hp, rfl, hle, hlast⟩

variable {input : RewindInput} {res : RewindRecord × Db}

/-- A rewind that is made stores a lesson and the row that hides the range of
its plan, and appends one event. -/
theorem rewindPath_ok (h : rewindPath env db sid input = .ok res) :
    ∃ plan lesson db₁, planRewind db sid input.toSeq input.commandTurnId input.reservation = .ok plan ∧
      db.insertMessage env sid none .system input.lesson (quarter input.lesson) = .ok (lesson, db₁) ∧
      res.1.sessionId = sid ∧ res.1.parentSeq = plan.parentSeq ∧
      res.1.hiddenFromSeq = plan.hiddenFromSeq ∧ res.1.hiddenToSeq = plan.hiddenToSeq ∧
      res.1.lessonMessageId = some lesson.id ∧ res.1.undoneAt = none ∧
      (∀ o ∈ db₁.rewinds, o.id ≠ res.1.id) ∧
      ∃ at' data e, Db.insertEvent env
        (Db.touch { db₁ with rewinds := db₁.rewinds ++ [res.1] } sid at') sid none .sessionRewind
        data = .ok (e, res.2) := by
  obtain ⟨_, _, h⟩ := bind_ok.mp h
  obtain ⟨trigger, _, h⟩ := bind_ok.mp h
  obtain ⟨_, _, h⟩ := bind_ok.mp h
  obtain ⟨plan, hplan, h⟩ := bind_ok.mp h
  obtain ⟨_, _, h⟩ := bind_ok.mp h
  obtain ⟨_, _, h⟩ := bind_ok.mp h
  obtain ⟨⟨lesson, db₁⟩, hmessage, h⟩ := bind_ok.mp h
  obtain ⟨db₂, hinsert, h⟩ := bind_ok.mp h
  obtain ⟨⟨e, db₃⟩, hevent, h⟩ := bind_ok.mp h
  cases h
  obtain ⟨_, hid, hinsert⟩ := bind_ok.mp hinsert
  cases hinsert
  exact ⟨plan, lesson, db₁, hplan, hmessage, rfl, rfl, rfl, rfl, rfl, rfl, ensure_ok.mp hid,
    _, _, e, hevent⟩

theorem trail_rewindPath (hcounted : Counted db) (h : rewindPath env db sid input = .ok res) :
    Trail erasable db res.2 := by
  obtain ⟨plan, lesson, db₁, hplan, hmessage, hown, hparent, hfrom, hto, hlesson, _, hid, at', data,
    e, hevent⟩ := rewindPath_ok h
  obtain ⟨_, hfrom', _, m, hm, hmto⟩ := planRewind_ok hplan
  obtain ⟨s, hs, hsid, hrow, hfresh, hdb⟩ := insertMessage_ok hmessage
  -- the end of the hidden range is the number of a stored message
  have hbound : plan.hiddenToSeq ≤ s.lastMessageSeq := by
    obtain ⟨hmem, hmown, _⟩ := mem_contextMessages (mem_of_mem_filter (mem_of_getLast? hm))
    rw [← hmto]
    exact ((hcounted.messages s hs).bounds hmem (hmown.trans hsid.symm)).2
  have hrewind : Change erasable db { db₁ with rewinds := db₁.rewinds ++ [res.1] } := by
    rw [show db₁ = _ from hdb] at hid ⊢
    refine .rewind hs ?_ ?_ hfresh ?_ hid (hown.trans hsid.symm) hlesson ?_ (hto ▸ hbound)
    · rw [hrow, hsid]
    · rw [hrow]
    · rw [hrow]
    · rw [hfrom, hparent, hfrom']
  have hrest : Trail erasable _ res.2 := trail_event hevent
  exact .head hrewind (.head .touch hrest)

/-! ### Calls -/

/-- A call of the store with its arguments. -/
inductive Call
  | createSession (input : CreateSessionInput)
  | createContinuation (input : ContinuationInput)
  | forkSession (id : String) (title : Option String) (beforeSeq : Option ℤ)
  | beginTurn (sessionId text : String) (tokens : ℕ) (harnessCommand : Bool)
      (channelOrigin : Option Json)
  | appendEvent (turnId : String) (type : EventType) (data : Fields)
  | completeTurn (turnId text : String) (tokens : ℕ) (data : Fields)
  | failTurn (turnId error : String) (data : Fields)
  | recoverRunningTurns
  | setModelProfile (sessionId profile : String) (expectedRevision : ℕ)
      (reasoning : Option (Option String)) (person : Option String)
      (modelDetails : Option ModelDetails)
  | rewindPath (sessionId : String) (input : RewindInput)
  | undoRewind (sessionId rewindId actor : String) (audit : Option Bool)
      (commandTurnId : Option String)
  | proposeRewind (sessionId : String) (proposal : Proposal)
  | reserveRewind (sessionId : String) (commandTurnId : Option String) (token : ℕ)
  | releaseRewind (sessionId : String) (token : ℕ)
  | archiveSession (id : String)
  | restoreSession (id : String)
  | eraseSession (id actor reason : String)

/-- The database a call leaves, where it answers. -/
def Call.run (env : Env) (db : Db) : Call → Result Db
  | .createSession input => (·.2) <$> Session.createSession env db input
  | .createContinuation input => (·.2) <$> Session.createContinuation env db input
  | .forkSession id title beforeSeq => (·.2) <$> Session.forkSession env db id title beforeSeq
  | .beginTurn sessionId text tokens harnessCommand channelOrigin =>
    (·.2) <$> Session.beginTurn env db sessionId text tokens harnessCommand channelOrigin
  | .appendEvent turnId type data => (·.2) <$> Session.appendEvent env db turnId type data
  | .completeTurn turnId text tokens data =>
    (·.2) <$> Session.completeTurn env db turnId text tokens data
  | .failTurn turnId error data => (·.2) <$> Session.failTurn env db turnId error data
  | .recoverRunningTurns => .ok (Session.recoverRunningTurns env db).1
  | .setModelProfile sessionId profile expectedRevision reasoning person modelDetails =>
    (·.2) <$> Session.setModelProfile env db sessionId profile expectedRevision reasoning person
      modelDetails
  | .rewindPath sessionId input => (·.2) <$> Session.rewindPath env db sessionId input
  | .undoRewind sessionId rewindId actor audit commandTurnId =>
    Session.undoRewind env db sessionId rewindId actor audit commandTurnId
  | .proposeRewind sessionId proposal => Session.proposeRewind env db sessionId proposal
  | .reserveRewind sessionId commandTurnId token =>
    Session.reserveRewind db sessionId commandTurnId token
  | .releaseRewind sessionId token => .ok (Session.releaseRewind db sessionId token)
  | .archiveSession id => Session.archiveSession env db id
  | .restoreSession id => Session.restoreSession env db id
  | .eraseSession id actor reason => Session.eraseSession env db id actor reason

/-- A call that throws leaves the database as it was. -/
def step (env : Env) (db : Db) (call : Call) : Db :=
  match call.run env db with
  | .ok db' => db'
  | .error _ => db

/-- The session a call erases, where it answers. -/
def Call.erases (env : Env) (db : Db) : Call → String → Prop
  | .eraseSession id actor reason, s =>
    s = id ∧ ∃ db', Session.eraseSession env db id actor reason = .ok db'
  | _, _ => False

theorem trail_run (hcounted : Counted db) {call : Call} (h : call.run env db = .ok db') :
    Trail (call.erases env db) db db' := by
  cases call with
  | createSession input =>
    obtain ⟨r, hr, rfl⟩ := map_ok.mp h
    exact trail_createSession hr
  | createContinuation input =>
    obtain ⟨r, hr, rfl⟩ := map_ok.mp h
    exact trail_createContinuation hr
  | forkSession id title beforeSeq =>
    obtain ⟨r, hr, rfl⟩ := map_ok.mp h
    exact trail_forkSession hr
  | beginTurn sessionId text tokens harnessCommand channelOrigin =>
    obtain ⟨r, hr, rfl⟩ := map_ok.mp h
    exact trail_beginTurn hr
  | appendEvent turnId type data =>
    obtain ⟨r, hr, rfl⟩ := map_ok.mp h
    exact trail_appendEvent hr
  | completeTurn turnId text tokens data =>
    obtain ⟨r, hr, rfl⟩ := map_ok.mp h
    exact trail_completeTurn hr
  | failTurn turnId error data =>
    obtain ⟨r, hr, rfl⟩ := map_ok.mp h
    exact trail_failTurn hr
  | recoverRunningTurns =>
    cases h
    exact trail_recoverTurns _
  | setModelProfile sessionId profile expectedRevision reasoning person modelDetails =>
    obtain ⟨r, hr, rfl⟩ := map_ok.mp h
    exact trail_setModelProfile hr
  | rewindPath sessionId input =>
    obtain ⟨r, hr, rfl⟩ := map_ok.mp h
    exact trail_rewindPath hcounted hr
  | undoRewind sessionId rewindId actor audit commandTurnId => exact trail_undoRewind h
  | proposeRewind sessionId proposal => exact trail_proposeRewind h
  | reserveRewind sessionId commandTurnId token =>
    obtain ⟨_, _, h⟩ := bind_ok.mp h
    cases h
    exact .single (.beside rfl rfl rfl rfl rfl)
  | releaseRewind sessionId token =>
    cases h
    unfold releaseRewind
    split
    · exact .single (.beside rfl rfl rfl rfl rfl)
    · exact .refl
  | archiveSession id => exact trail_archiveSession h
  | restoreSession id => exact trail_restoreSession h
  | eraseSession id actor reason => exact trail_eraseSession h ⟨rfl, db', h⟩

theorem trail_step (hcounted : Counted db) (env : Env) (call : Call) :
    Trail (call.erases env db) db (step env db call) := by
  unfold step
  split
  · exact trail_run hcounted ‹_›
  · exact .refl

/-- A history: each call with what it got from outside. -/
abbrev History := List (Env × Call)

def after (db : Db) : History → Db
  | [] => db
  | (env, call) :: rest => after (step env db call) rest

/-- A session erased by some call of a history. -/
def ErasedIn (db : Db) : History → String → Prop
  | [], _ => False
  | (env, call) :: rest, s => call.erases env db s ∨ ErasedIn (step env db call) rest s

theorem trail_after (hcounted : Counted db) (history : History) :
    Trail (ErasedIn db history) db (after db history) := by
  induction history generalizing db with
  | nil => exact .refl
  | cons entry rest ih =>
    obtain ⟨env, call⟩ := entry
    have hstep := trail_step hcounted env call
    have hfirst := hstep.mono fun s (hs : call.erases env db s) =>
      (Or.inl hs : ErasedIn db ((env, call) :: rest) s)
    have hrest := (ih (hcounted.trail hstep)).mono fun s hs =>
      (Or.inr hs : ErasedIn db ((env, call) :: rest) s)
    exact hfirst.trans hrest

theorem counted_empty : Counted {} := by
  constructor <;> simp

theorem exclusive_empty : Exclusive {} := by
  constructor <;> simp

theorem counted_after (history : History) : Counted (after {} history) :=
  counted_empty.trail (trail_after counted_empty history)

theorem exclusive_after (history : History) : Exclusive (after {} history) :=
  exclusive_empty.trail counted_empty (trail_after counted_empty history)

/-- The transcripts of a database are in order. -/
structure Transcript (db : Db) : Prop where
  sessionIds : (db.sessions.map (·.id)).Nodup
  messageIds : (db.messages.map (·.id)).Nodup
  turnIds : (db.turns.map (·.id)).Nodup
  oneRunning : ∀ s ∈ db.sessions, ((db.turnsOf s.id).filter (·.state = .running)).length ≤ 1
  noneArchived : ∀ s ∈ db.sessions, s.archivedAt ≠ none → ∀ t ∈ db.turnsOf s.id, t.state ≠ .running
  oneActive : ∀ chatKey, (db.sessions.filter
    (fun s => s.chatKey = some chatKey ∧ s.archivedAt = none)).length ≤ 1
  messageSeqs : ∀ s ∈ db.sessions, (db.messagesOf s.id).map (·.seq) = List.range' 1 s.lastMessageSeq
  eventSeqs : ∀ s ∈ db.sessions, (db.eventsOf s.id).map (·.seq) = List.range' 1 s.lastEventSeq
  turnSeqs : ∀ s ∈ db.sessions, (db.turnsOf s.id).map (·.seq) = List.range' 1 s.turnCount

theorem transcript_of (hcounted : Counted db) (hexclusive : Exclusive db) : Transcript db where
  sessionIds := hcounted.ids
  messageIds := hcounted.messageIds
  turnIds := hcounted.turnIds
  oneRunning s _ := by
    rw [Db.turnsOf, filter_filter]
    refine length_filter_le_one hcounted.turnIds _ fun t ht u hu htp hup => ?_
    simp only [Bool.and_eq_true, decide_eq_true_eq] at htp hup
    rw [hexclusive.running t ht u hu htp.1 hup.1 (htp.2.trans hup.2.symm)]
  noneArchived s hs harchived t ht hrun := by
    obtain ⟨ht, hown⟩ := mem_filter.mp ht
    have hown : t.sessionId = s.id := by simpa using hown
    exact harchived (hexclusive.live t ht hrun s hs hown.symm)
  oneActive chatKey := by
    refine length_filter_le_one hcounted.ids _ fun s hs o ho hsp hop => ?_
    simp only [decide_eq_true_eq] at hsp hop
    exact hexclusive.chats s hs o ho hsp.2 hop.2 (by simp [hsp.1]) (hop.1.trans hsp.1.symm)
  messageSeqs s hs := hcounted.messages s hs
  eventSeqs s hs := hcounted.events s hs
  turnSeqs s hs := hcounted.turns s hs

/-- After every history of calls the transcripts are in order, and whatever
calls follow, the messages, the events and the turns that have ended stay the
rows they are until their session is erased. -/
theorem transcripts_kept (history later : History) : Transcript (after {} history) ∧
      Kept (ErasedIn (after {} history) later) (after {} history)
        (after (after {} history) later) :=
  ⟨transcript_of (counted_after history) (exclusive_after history),
    .trail (counted_after history) (trail_after (counted_after history) later)⟩

end Plur1bus.Session
