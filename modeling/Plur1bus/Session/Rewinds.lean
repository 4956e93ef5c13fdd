import Plur1bus.Session.Runs

/-!
Rewinds as overlays. The active path of a session is its transcript without the
messages of harness commands, without what a live rewind hides and without the
lessons of rewinds that were undone. A rewind cuts the path at its target and
leaves its lesson there; whatever rewinds are undone, in whatever order, the
path is determined by the ones still live.
-/

namespace Plur1bus.Session

open Program List

variable {env : Env} {db db' : Db} {erasable : String → Prop}

/-! ### The rows of rewinds -/

/-- Every rewind hides a range right after its parent, and its lesson is a
message of no turn that came after the range. -/
structure Overlaid (db : Db) : Prop where
  ids : (db.rewinds.map (·.id)).Nodup
  ranges : ∀ r ∈ db.rewinds, r.hiddenFromSeq = r.parentSeq + 1
  lessons : ∀ r ∈ db.rewinds, ∃ m ∈ db.messages, r.lessonMessageId = some m.id ∧
    m.sessionId = r.sessionId ∧ m.turnId = none ∧ r.hiddenToSeq < m.seq

namespace Overlaid

/-- More messages leave the rewinds as they are. -/
theorem grow (h : Overlaid db) (hrewinds : db'.rewinds = db.rewinds)
    (hmessages : ∀ m ∈ db.messages, m ∈ db'.messages) : Overlaid db' where
  ids := hrewinds ▸ h.ids
  ranges := hrewinds ▸ h.ranges
  lessons := by
    rw [hrewinds]
    intro r hr
    obtain ⟨m, hm, hlesson⟩ := h.lessons r hr
    exact ⟨m, hmessages m hm, hlesson⟩

theorem append (h : Overlaid db) {m : MessageRecord} {r : RewindRecord}
    (hrewinds : db'.rewinds = db.rewinds ++ [r]) (hmessages : db'.messages = db.messages ++ [m])
    (hid : ∀ o ∈ db.rewinds, o.id ≠ r.id) (hown : m.sessionId = r.sessionId)
    (hturn : m.turnId = none) (hlesson : r.lessonMessageId = some m.id)
    (hfrom : r.hiddenFromSeq = r.parentSeq + 1) (hto : r.hiddenToSeq < m.seq) : Overlaid db' where
  ids := by
    rw [hrewinds]
    exact nodup_ids_append h.ids hid
  ranges o ho := by
    rw [hrewinds] at ho
    rcases mem_append.mp ho with ho | ho
    · exact h.ranges o ho
    · rw [mem_singleton.mp ho, hfrom]
  lessons o ho := by
    rw [hrewinds] at ho
    rw [hmessages]
    rcases mem_append.mp ho with ho | ho
    · obtain ⟨n, hn, hrest⟩ := h.lessons o ho
      exact ⟨n, mem_append_left _ hn, hrest⟩
    · rw [mem_singleton.mp ho]
      exact ⟨m, by simp, hlesson, hown, hturn, hto⟩

theorem setUndone (h : Overlaid db) (id : String) (at' : ℤ) : Overlaid (db.setUndone id at') := by
  have hrow : ∀ r ∈ (db.setUndone id at').rewinds, ∃ o ∈ db.rewinds, r.id = o.id ∧
      r.sessionId = o.sessionId ∧ r.parentSeq = o.parentSeq ∧ r.hiddenFromSeq = o.hiddenFromSeq ∧
      r.hiddenToSeq = o.hiddenToSeq ∧ r.lessonMessageId = o.lessonMessageId := by
    intro r hr
    obtain ⟨o, ho, rfl⟩ := mem_map.mp hr
    refine ⟨o, ho, ?_⟩
    split <;> simp
  refine ⟨?_, fun r hr => ?_, fun r hr => ?_⟩
  · have hids : (db.setUndone id at').rewinds.map (·.id) = db.rewinds.map (·.id) := by
      simp only [Db.setUndone, List.map_map]
      refine map_congr_left fun r _ => ?_
      simp only [Function.comp_apply]
      split <;> rfl
    rw [hids]
    exact h.ids
  · obtain ⟨o, ho, _, _, hparent, hfrom, _, _⟩ := hrow r hr
    rw [hparent, hfrom]
    exact h.ranges o ho
  · obtain ⟨o, ho, _, hown, _, _, hto, hlesson⟩ := hrow r hr
    rw [hown, hto, hlesson]
    exact h.lessons o ho

theorem deleteSession (h : Overlaid db) (id : String) : Overlaid (db.deleteSession id) where
  ids := h.ids.sublist (filter_sublist.map _)
  ranges r hr := h.ranges r (mem_of_mem_filter hr)
  lessons r hr := by
    obtain ⟨hr, hne⟩ := mem_filter.mp hr
    obtain ⟨m, hm, hlesson, hown, hrest⟩ := h.lessons r hr
    refine ⟨m, mem_filter.mpr ⟨hm, ?_⟩, hlesson, hown, hrest⟩
    rw [hown]
    exact hne

theorem change (h : Overlaid db) (hc : Change erasable db db') : Overlaid db' := by
  cases hc with
  | message _ _ _ _ => exact h.grow rfl fun m hm => mem_append_left _ hm
  | event _ _ _ => exact h.grow rfl fun _ hm => hm
  | turn _ _ _ _ _ _ => exact h.grow rfl fun _ hm => hm
  | ended _ _ _ _ _ _ => exact h.grow rfl fun _ hm => hm
  | session _ _ _ _ _ => exact h.grow rfl fun _ hm => hm
  | archive _ => exact h.grow rfl fun _ hm => hm
  | restore _ _ => exact h.grow rfl fun _ hm => hm
  | touch => exact h.grow rfl fun _ hm => hm
  | rewind _ hown hseq _ hturn hrid hrown hlesson hfrom hto =>
    exact h.append rfl rfl hrid (hown.trans hrown.symm) hturn hlesson hfrom (by omega)
  | undo => exact h.setUndone _ _
  | beside _ _ hmessages _ hrewinds => exact h.grow hrewinds fun m hm => hmessages ▸ hm
  | erase _ => exact h.deleteSession _

theorem trail (h : Overlaid db) (ht : Trail erasable db db') : Overlaid db' := by
  induction ht with
  | refl => exact h
  | tail _ hc ih => exact ih.change hc

end Overlaid

/-- The table's order is the order of the numbers. -/
theorem Counted.byNumber_messagesOf (h : Counted db) (sid : String) :
    byNumber (·.seq) (db.messagesOf sid) = db.messagesOf sid := by
  by_cases hs : ∃ s ∈ db.sessions, s.id = sid
  · obtain ⟨s, hs, rfl⟩ := hs
    exact (h.messages s hs).byNumber_eq
  · -- a session that is not there has no messages
    have hnil : db.messagesOf sid = [] := by
      refine filter_eq_nil_iff.mpr fun m hm hown => hs ?_
      obtain ⟨s, hs, hid⟩ := h.messageOwner m hm
      exact ⟨s, hs, hid.trans (by simpa using hown)⟩
    rw [hnil]
    rfl

theorem Counted.spoken_eq (h : Counted db) (sid : String) :
    db.spoken sid = (db.messagesOf sid).filter (db.plain sid) := by
  rw [Db.spoken, h.byNumber_messagesOf]

theorem Counted.sorted_messagesOf (h : Counted db) (sid : String) :
    (db.messagesOf sid).Pairwise (fun a b => a.seq ≤ b.seq) := by
  rw [← h.byNumber_messagesOf]
  exact byNumber_sorted _ _

theorem Counted.sorted_contextMessages (h : Counted db) (sid : String) :
    (db.contextMessages sid).Pairwise (fun a b => a.seq ≤ b.seq) := by
  rw [contextMessages_eq, h.spoken_eq]
  exact ((h.sorted_messagesOf sid).filter _).filter _

/-- Events that begin or end no turn say nothing about commands. -/
theorem harnessCommandTurns_append {e : EventRecord} (hevents : db'.events = db.events ++ [e])
    (he : e.ofTurnBoundary = false) (sid : String) :
    db'.harnessCommandTurns sid = db.harnessCommandTurns sid := by
  simp only [Db.harnessCommandTurns, Db.eventsOf, hevents, filter_append, filterMap_append]
  have hnil : ([e].filter (·.sessionId = sid)).filter (fun e => e.ofTurnBoundary && e.fromCommand)
      = [] := by
    refine filter_eq_nil_iff.mpr fun o ho => ?_
    obtain rfl := mem_singleton.mp (mem_of_mem_filter ho)
    simp [he]
  rw [hnil]
  simp

variable {sid : String}

theorem plain_congr (h : db'.harnessCommandTurns sid = db.harnessCommandTurns sid) (m : MessageRecord) :
    db'.plain sid m = db.plain sid m := by
  unfold Db.plain
  rw [h]

/-! ### A rewind -/

/-- The rows a rewind that was made leaves: the lesson, the overlay and one
event beside what was there. -/
structure Rewound (env : Env) (db : Db) (sid : String) (input : RewindInput) (r : RewindRecord)
    (db' : Db) (lesson : MessageRecord) : Prop where
  messages : db'.messages = db.messages ++ [lesson]
  rewinds : db'.rewinds = db.rewinds ++ [r]
  commands : db'.harnessCommandTurns sid = db.harnessCommandTurns sid
  owner : r.sessionId = sid
  lessonOwner : lesson.sessionId = sid
  lessonTurn : lesson.turnId = none
  lessonText : lesson.text = input.lesson
  lessonId : r.lessonMessageId = some lesson.id
  fresh : ∀ m ∈ db.messages, m.id ≠ lesson.id
  after : ∀ m ∈ db.messages, m.sessionId = sid → m.seq < lesson.seq
  live : r.undoneAt = none
  target : targetSeq (rewindable db sid input.commandTurnId) input.toSeq = .ok r.parentSeq
  hiddenFrom : r.hiddenFromSeq = r.parentSeq + 1
  hiddenTo : ∃ m, (rewindable db sid input.commandTurnId).getLast? = some m ∧ m.seq = r.hiddenToSeq

variable {r : RewindRecord}

theorem shown_append_live {rewinds : List RewindRecord} {m : MessageRecord} (hr : r.undoneAt = none) :
    shown (rewinds ++ [r]) m ↔ shown rewinds m ∧ ¬(r.hiddenFromSeq ≤ m.seq ∧ m.seq ≤ r.hiddenToSeq) := by
  grind [shown]

namespace Rewound

variable {sid : String} {input : RewindInput} {r : RewindRecord} {lesson : MessageRecord}

theorem spoken (h : Rewound env db sid input r db' lesson) (hcounted : Counted db)
    (hcounted' : Counted db') : db'.spoken sid = db.spoken sid ++ [lesson] := by
  have hplain : db'.plain sid = db.plain sid := funext (plain_congr h.commands)
  have hlesson : db.plain sid lesson = true := by simp [Db.plain, h.lessonTurn]
  rw [hcounted'.spoken_eq, hcounted.spoken_eq, hplain, Db.messagesOf, h.messages]
  simp [Db.messagesOf, h.lessonOwner, hlesson]

theorem rewindsOf (h : Rewound env db sid input r db' lesson) :
    db'.rewindsOf sid = db.rewindsOf sid ++ [r] := by
  simp [Db.rewindsOf, h.rewinds, h.owner]

/-- The lesson is on the new path: its id is new, and every hidden range ends
before it. -/
theorem lesson_shown (h : Rewound env db sid input r db' lesson) (hover : Overlaid db) :
    shown (db'.rewindsOf sid) lesson := by
  rw [h.rewindsOf, shown_append_live h.live]
  refine ⟨⟨fun o ho _ hid => ?_, fun o ho _ hin => ?_⟩, fun hin => ?_⟩
  · obtain ⟨m, hm, hlesson, _⟩ := hover.lessons o (mem_of_mem_filter ho)
    rw [hlesson] at hid
    exact h.fresh m hm (Option.some.inj hid)
  · obtain ⟨m, hm, _, hown, _, hto⟩ := hover.lessons o (mem_of_mem_filter ho)
    have ho' : o.sessionId = sid := by simpa using (mem_filter.mp ho).2
    have := h.after m hm (hown.trans ho')
    omega
  · obtain ⟨m, hm, hto⟩ := h.hiddenTo
    have hm' := mem_of_mem_filter (mem_of_getLast? hm)
    obtain ⟨hmem, hown, _⟩ := mem_contextMessages hm'
    have := h.after m hmem hown
    omega

/-- What the path can be cut at is the whole path, as a command's own messages
are not on it. -/
theorem rewindable_eq {commandTurnId : Option String}
    (hcommand : ∀ t, commandTurnId = some t → t ∈ db.harnessCommandTurns sid) :
    rewindable db sid commandTurnId = db.contextMessages sid := by
  refine filter_eq_self.mpr fun m hm => ?_
  obtain ⟨_, _, hplain, _⟩ := mem_contextMessages hm
  simp only [Db.plain, decide_eq_true_eq] at hplain ⊢
  intro t ht hturn
  exact hplain t hturn (hcommand t ht)

theorem contextMessages (h : Rewound env db sid input r db' lesson) (hcounted : Counted db)
    (hcounted' : Counted db') (hover : Overlaid db)
    (hcommand : ∀ t, input.commandTurnId = some t → t ∈ db.harnessCommandTurns sid) :
    db'.contextMessages sid = (db.contextMessages sid).filter (·.seq ≤ r.parentSeq) ++ [lesson] := by
  -- the hidden range reaches to the last message of the path
  have hle : ∀ m ∈ db.contextMessages sid, m.seq ≤ r.hiddenToSeq := by
    intro m hm
    obtain ⟨last, hlast, hto⟩ := h.hiddenTo
    rw [rewindable_eq hcommand] at hlast
    obtain ⟨front, hfront⟩ := List.getLast?_eq_some_iff.mp hlast
    have hsorted := hcounted.sorted_contextMessages sid
    rw [hfront] at hm hsorted
    rcases mem_append.mp hm with hm | hm
    · rw [← hto]
      exact (pairwise_append.mp hsorted).2.2 m hm last (by simp)
    · rw [mem_singleton.mp hm, hto]
  have hlesson : [lesson].filter (shown (db'.rewindsOf sid) ·) = [lesson] := by
    simpa using h.lesson_shown hover
  rw [contextMessages_eq, h.spoken hcounted hcounted', filter_append, hlesson,
    contextMessages_eq, filter_filter]
  congr 1
  refine filter_congr fun m hm => ?_
  rw [h.rewindsOf, Bool.eq_iff_iff]
  simp only [decide_eq_true_eq, Bool.and_eq_true, shown_append_live h.live]
  rw [and_comm (a := m.seq ≤ r.parentSeq)]
  refine and_congr_right fun hshown => ?_
  have hmem : m ∈ db.contextMessages sid := by
    rw [contextMessages_eq]
    exact mem_filter.mpr ⟨hm, by simpa using hshown⟩
  have := hle m hmem
  have := h.hiddenFrom
  omega

end Rewound

/-! ### Undoing -/

/-- A rewind without the date of its undoing. -/
def RewindRecord.bare (r : RewindRecord) : RewindRecord := { r with undoneAt := none }

/-- Nothing a path is made of differs but the dates of undoing. -/
structure Lifted (db db' : Db) : Prop where
  messages : db'.messages = db.messages
  commands : ∀ sid, db'.harnessCommandTurns sid = db.harnessCommandTurns sid
  rows : db'.rewinds.map (·.bare) = db.rewinds.map (·.bare)

theorem Lifted.trans {a b c : Db} (hab : Lifted a b) (hbc : Lifted b c) : Lifted a c where
  messages := hbc.messages.trans hab.messages
  commands sid := (hbc.commands sid).trans (hab.commands sid)
  rows := hbc.rows.trans hab.rows

variable {audit : Option Bool} {commandTurnId : Option String}

theorem Lifted.undoRewind {rewindId actor : String}
    (h : undoRewind env db sid rewindId actor audit commandTurnId = .ok db') : Lifted db db' := by
  obtain ⟨_, _, h⟩ := bind_ok.mp h
  obtain ⟨r, _, h⟩ := bind_ok.mp h
  obtain ⟨_, _, h⟩ := bind_ok.mp h
  split at h
  · obtain rfl := Except.ok.inj h
    exact ⟨rfl, fun _ => rfl, rfl⟩
  · obtain ⟨_, _, h⟩ := bind_ok.mp h
    obtain ⟨⟨e, db₁⟩, hevent, h⟩ := bind_ok.mp h
    obtain rfl := Except.ok.inj h
    obtain ⟨s, _, _, he, hdb⟩ := insertEvent_ok hevent
    have hdb : db₁ = _ := hdb
    have he : e = _ := he
    refine ⟨by rw [hdb]; rfl, harnessCommandTurns_append (e := e) (by rw [hdb]; rfl) ?_, ?_⟩
    · rw [he]
      rfl
    · rw [hdb]
      simp only [Db.touch, Db.setSession, Db.setUndone, List.map_map]
      refine map_congr_left fun o _ => ?_
      simp only [Function.comp_apply]
      split <;> rfl

/-- A history of undoing and nothing else. -/
def OnlyUndos (history : History) : Prop := ∀ entry ∈ history, ∃ sid rewindId actor audit commandTurnId,
    entry.2 = .undoRewind sid rewindId actor audit commandTurnId

theorem Lifted.after {undos : History} (h : OnlyUndos undos) : Lifted db (Session.after db undos) := by
  induction undos generalizing db with
  | nil => exact ⟨rfl, fun _ => rfl, rfl⟩
  | cons entry rest ih =>
    obtain ⟨env, call⟩ := entry
    obtain ⟨sid, rewindId, actor, audit, commandTurnId, hcall⟩ := h _ mem_cons_self
    obtain rfl : call = _ := hcall
    have hstep : Lifted db (step env db (.undoRewind sid rewindId actor audit commandTurnId)) := by
      unfold step
      split
      · exact .undoRewind ‹_›
      · exact ⟨rfl, fun _ => rfl, rfl⟩
    exact hstep.trans (ih fun entry hentry => h entry (mem_cons_of_mem _ hentry))

theorem Lifted.spoken (h : Lifted db db') (sid : String) : db'.spoken sid = db.spoken sid := by
  have hplain : db'.plain sid = db.plain sid := funext (plain_congr (h.commands sid))
  rw [Db.spoken, Db.spoken, hplain, Db.messagesOf, h.messages]
  rfl

def sampleEnv : Env where
  newId p k := p ++ toString k
  now _ := 0
  stamp _ := 0
  hiddenDigest _ := ""
  failedEditCycles _ := ⟨0, 0, false⟩

def sampleRewind (n : ℤ) : RewindInput where
  toSeq := .seq (.int n)
  lesson := "try the other file"
  actor := "ann"
  trigger := "user"

/-- Two turns, a rewind to the first of them, and a rewind over that one. -/
def sampleHistory : History := [.createSession { kind := "direct", agentId := "a", owner := "ann" },
    .beginTurn "ses0" "one" 1 false none, .completeTurn "trn0" "two" 1 [],
    .beginTurn "ses0" "three" 1 false none, .completeTurn "trn1" "four" 1 [],
    .rewindPath "ses0" (sampleRewind 2), .rewindPath "ses0" (sampleRewind 1)].map (sampleEnv, ·)

end Plur1bus.Session
