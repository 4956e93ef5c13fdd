import Plur1bus.Board.Mutations

/-!
Runs of the collaboration store. `Effect` says once what a call that answers
does to the database; a call that throws does nothing. Every board of a state
that is reached from well formed boards is well formed, and the cards a board
had are the first of the cards it has later.

New ids come from `randomUUID`; that they are new in the board they go into is
asked of every call that makes one.
-/

namespace Plur1bus.Board

open Program List

variable {env : Env} {db db' start : Db} {op : Op}

/-! ### What a call does -/

/-- The database after a call that answers. -/
inductive Effect (env : Env) (db : Db) : Op → Db → Prop
  | board {projectId : String} {bop : BoardOp} {p : Project} {d d' : Data}
      (hp : db.projects projectId = some p) (hd : db.boards projectId = some d)
      (hrun : bop.run env projectId p d = .ok d') :
      Effect env db (.board projectId bop) (db.setBoard projectId d')
  | releaseAssignee {projectId : String} {assignee : BoardActor} {p : Project} {d d' : Data}
      (hd : db.boards projectId = some d) (hrun : releaseAssignee env p assignee d = .ok d') :
      Effect env db (.releaseAssignee projectId assignee) (db.setBoard projectId d')
  | createProject {name owner : String} (hnew : db.boards env.id = none) :
      Effect env db (.createProject name owner)
        ((db.setProject env.id ⟨owner, [(owner, .lead)], [], none⟩).setBoard env.id
          (defaultBoard env.id))
  | archiveProject {id : String} {p : Project} {time : Option ℤ} (hp : db.projects id = some p) :
      Effect env db (.archiveProject id) (db.setProject id { p with archivedAt := time })
  | addMember {projectId userId : String} {role : ProjectRole} {p : Project}
      (hp : db.projects projectId = some p) :
      Effect env db (.addMember projectId userId role)
        (db.setProject projectId { p with members := upsert userId role p.members })
  | removeMember {projectId userId : String} {p p' : Project} {d d' : Data}
      (hp : db.projects projectId = some p) (hd : db.boards projectId = some d)
      (hp' : p' = { p with members := p.members.filter (fun m => m.1 ≠ userId) })
      (hrun : releaseAssignee env p' ⟨.person, userId⟩ d = .ok d') :
      Effect env db (.removeMember projectId userId)
        ((db.setProject projectId p').setBoard projectId d')
  | addAgent {projectId agentId : String} {p : Project} (hp : db.projects projectId = some p) :
      Effect env db (.addAgent projectId agentId) (db.setProject projectId
        { p with agents := if agentId ∈ p.agents then p.agents else p.agents ++ [agentId] })
  | removeAgent {projectId agentId : String} {p p' : Project} {d d' : Data}
      (hp : db.projects projectId = some p) (hd : db.boards projectId = some d)
      (hp' : p' = { p with agents := p.agents.filter (fun a => a ≠ agentId) })
      (hrun : releaseAssignee env p' ⟨.agent, agentId⟩ d = .ok d') :
      Effect env db (.removeAgent projectId agentId)
        ((db.setProject projectId p').setBoard projectId d')

variable {projectId : String} {p : Project} {d : Data}

theorem read_ok (h : read db projectId = .ok (p, d)) :
    db.projects projectId = some p ∧ db.boards projectId = some d := by
  unfold read at h
  split at h <;> cases h
  exact ⟨‹_›, ‹_›⟩

theorem live_ok (h : live db projectId = .ok p) : db.projects projectId = some p := by
  unfold live at h
  split at h
  · cases h
  · obtain ⟨_, -, h⟩ := bind_ok.mp h
    cases h
    assumption

theorem write_ok {α : Type} {fn : Project → Data → Result (α × Data)} {r : α}
    (h : write db projectId fn = .ok (r, db')) :
    ∃ p d d', db.projects projectId = some p ∧ db.boards projectId = some d ∧
      fn p d = .ok (r, d') ∧ db' = db.setBoard projectId d' := by
  obtain ⟨⟨p, d⟩, hread, h⟩ := bind_ok.mp h
  obtain ⟨_, -, h⟩ := bind_ok.mp h
  obtain ⟨⟨r', d'⟩, hfn, h⟩ := bind_ok.mp h
  cases h
  exact ⟨p, d, d', (read_ok hread).1, (read_ok hread).2, hfn, rfl⟩

/-- A removal writes the membership and the released board together. -/
theorem removal_ok {p' : Project} {a : BoardActor}
    (h : (read (db.setProject projectId p') projectId >>= fun (p, d) =>
      releaseAssignee env p a d >>= fun d =>
        Except.ok ((db.setProject projectId p).setBoard projectId d)) = (.ok db' : Result Db)) :
    ∃ d d', db.boards projectId = some d ∧ releaseAssignee env p' a d = .ok d' ∧
      db' = (db.setProject projectId p').setBoard projectId d' := by
  obtain ⟨⟨p, d⟩, hread, h⟩ := bind_ok.mp h
  obtain ⟨d', hrel, h⟩ := bind_ok.mp h
  obtain ⟨hp, hd⟩ := read_ok hread
  have hpp : p' = p := by simpa [Db.setProject] using hp
  cases h
  exact ⟨d, d', hd, hpp ▸ hrel, by rw [hpp]⟩

theorem effect_of_run (h : op.run env db = .ok db') : Effect env db op db' := by
  cases op with
  | board projectId bop =>
    obtain ⟨⟨_, db₁⟩, hw, hdb⟩ := map_ok.mp h
    subst hdb
    obtain ⟨p, d, d', hp, hd, hfn, hset⟩ := write_ok hw
    obtain ⟨d₁, hrun, hd₁⟩ := map_ok.mp hfn
    cases hd₁
    exact hset ▸ .board hp hd hrun
  | releaseAssignee projectId assignee =>
    obtain ⟨⟨p, d⟩, hread, h⟩ := bind_ok.mp h
    obtain ⟨d', hrel, h⟩ := bind_ok.mp h
    cases h
    exact .releaseAssignee (read_ok hread).2 hrel
  | createProject name owner =>
    simp only [Op.run, createProject, bind_ok] at h
    obtain ⟨_, -, _, -, _, -, _, hnew, h⟩ := h
    cases h
    exact .createProject (ensure_ok.mp hnew).2
  | archiveProject id =>
    simp only [Op.run, archiveProject] at h
    split at h <;> cases h
    exact .archiveProject ‹_›
  | addMember projectId userId role =>
    simp only [Op.run, addMember, bind_ok] at h
    obtain ⟨_, -, p, hp, _, -, h⟩ := h
    cases h
    exact .addMember (live_ok hp)
  | removeMember projectId userId =>
    obtain ⟨p, hp, h⟩ := bind_ok.mp h
    obtain ⟨_, -, h⟩ := bind_ok.mp h
    obtain ⟨d, d', hd, hrun, rfl⟩ := removal_ok h
    exact .removeMember (live_ok hp) hd rfl hrun
  | addAgent projectId agentId =>
    simp only [Op.run, addAgent, bind_ok] at h
    obtain ⟨_, -, p, hp, h⟩ := h
    cases h
    exact .addAgent (live_ok hp)
  | removeAgent projectId agentId =>
    obtain ⟨p, hp, h⟩ := bind_ok.mp h
    obtain ⟨d, d', hd, hrun, rfl⟩ := removal_ok h
    exact .removeAgent (live_ok hp) hd rfl hrun

/-! ### Runs -/

/-- The id a mutation makes is new in its board. -/
def BoardOp.Fresh (env : Env) (d : Data) : BoardOp → Prop
  | .createColumn _ => env.id ∉ d.columns.map (·.id)
  | .createCard _ _ _ => env.id ∉ cardIds d
  | _ => True

def Op.Fresh (env : Env) (db : Db) : Op → Prop
  | .board projectId bop => ∀ d, db.boards projectId = some d → bop.Fresh env d
  | _ => True

/-- The states a sequence of calls reaches, calls that throw included. -/
inductive Reaches (start : Db) : Db → Prop
  | refl : Reaches start start
  | step {db : Db} (h : Reaches start db) (env : Env) (op : Op) (hfresh : op.Fresh env db) :
      Reaches start (step db env op)

/-- A property of databases that every call keeps holds in every state reached. -/
theorem Reaches.invariant {I : Db → Prop} (hI : I start)
    (hstep : ∀ db env op db', I db → op.Fresh env db → Effect env db op db' → I db')
    (h : Reaches start db) : I db := by
  induction h with
  | refl => exact hI
  | step h env op hfresh ih =>
    unfold Board.step
    split
    · rename_i hrun
      exact hstep _ env op _ ih hfresh (effect_of_run hrun)
    · exact ih

variable {d' : Data}

theorem wellFormed_run {bop : BoardOp} (hd : WellFormed d) (hfresh : bop.Fresh env d)
    (h : bop.run env projectId p d = .ok d') : WellFormed d' ∧ cardIds d <+: cardIds d' := by
  have heq : ∀ {d' : Data}, cardIds d' = cardIds d → cardIds d <+: cardIds d' := fun h =>
    h ▸ prefix_refl _
  cases bop with
  | createColumn input =>
    obtain ⟨⟨r, _⟩, hop, rfl⟩ := map_ok.mp h
    obtain ⟨hd', hcards⟩ := wellFormed_createColumn hd hfresh hop
    exact ⟨hd', heq (congrArg (List.map BoardCard.id) hcards)⟩
  | updateColumn id patch =>
    obtain ⟨⟨r, _⟩, hop, rfl⟩ := map_ok.mp h
    obtain ⟨hd', hcards⟩ := wellFormed_updateColumn hd hop
    exact ⟨hd', heq (congrArg (List.map BoardCard.id) hcards)⟩
  | moveColumn id position =>
    obtain ⟨⟨r, _⟩, hop, rfl⟩ := map_ok.mp h
    obtain ⟨hd', hcards⟩ := wellFormed_moveColumn hd hop
    exact ⟨hd', heq (congrArg (List.map BoardCard.id) hcards)⟩
  | deleteColumn id target actor override =>
    obtain ⟨⟨r, _⟩, hop, rfl⟩ := map_ok.mp h
    obtain ⟨hd', hids, -, -⟩ := deleteColumn_ok hd hop
    exact ⟨hd', heq hids⟩
  | createCard input actor override =>
    obtain ⟨⟨r, _⟩, hop, rfl⟩ := map_ok.mp h
    obtain ⟨hd', hids, -, -⟩ := createCard_ok hd hfresh hop
    exact ⟨hd', hids ▸ prefix_append _ _⟩
  | updateCard id patch actor =>
    obtain ⟨⟨r, _⟩, hop, rfl⟩ := map_ok.mp h
    obtain ⟨hd', hkept⟩ := updateCard_ok hd hop
    exact ⟨hd', heq hkept.cardIds_eq⟩
  | moveCard id columnId position actor override =>
    obtain ⟨⟨r, _⟩, hop, rfl⟩ := map_ok.mp h
    obtain ⟨hd', hids, -⟩ := moveCard_ok hd hop
    exact ⟨hd', heq hids⟩
  | assign id assignee add actor =>
    obtain ⟨⟨r, _⟩, hop, rfl⟩ := map_ok.mp h
    obtain ⟨hd', hkept⟩ := assign_ok hd hop
    exact ⟨hd', heq hkept.cardIds_eq⟩
  | archiveCard id archived actor override =>
    obtain ⟨⟨r, _⟩, hop, rfl⟩ := map_ok.mp h
    obtain ⟨hd', hkept⟩ := archiveCard_ok hd hop
    exact ⟨hd', heq hkept.cardIds_eq⟩
  | comment id text actor =>
    obtain ⟨⟨r, _⟩, hop, rfl⟩ := map_ok.mp h
    obtain ⟨hd', hkept⟩ := comment_ok hd hop
    exact ⟨hd', heq hkept.cardIds_eq⟩

theorem wellFormed_defaultBoard (projectId : String) : WellFormed (defaultBoard projectId) where
  columnPositions := rfl
  columnIds := by simp [defaultBoard]
  cardIds := nodup_nil
  columnOf := by simp [defaultBoard]
  dense := fun _ => List.Perm.refl _
  activity := ⟨rfl, Nat.zero_le _⟩
  comments := ⟨rfl, Nat.zero_le _⟩

@[simp] theorem boards_setBoard (projectId q : String) (d : Data) :
    (db.setBoard projectId d).boards q = if q = projectId then some d else db.boards q := by
  simp [Db.setBoard, Function.update_apply]

@[simp] theorem boards_setProject (projectId : String) (p : Project) :
    (db.setProject projectId p).boards = db.boards := rfl

@[simp] theorem projects_setBoard (projectId : String) (d : Data) :
    (db.setBoard projectId d).projects = db.projects := rfl

@[simp] theorem projects_setProject (projectId q : String) (p : Project) :
    (db.setProject projectId p).projects q = if q = projectId then some p else db.projects q := by
  simp [Db.setProject, Function.update_apply]

/-- Every board is well formed, and those there at the start still have their cards. -/
structure Sound (start db : Db) : Prop where
  wellFormed : ∀ p d, db.boards p = some d → WellFormed d
  kept : ∀ p d₀, start.boards p = some d₀ → ∃ d, db.boards p = some d ∧ cardIds d₀ <+: cardIds d

theorem Sound.setBoard (h : Sound start db) (hd : db.boards projectId = some d) (hd' : WellFormed d')
    (hids : cardIds d <+: cardIds d') : Sound start (db.setBoard projectId d') where
  wellFormed := by
    intro q e he
    rw [boards_setBoard] at he
    split at he
    · cases he
      exact hd'
    · exact h.wellFormed q e he
  kept := by
    intro q d₀ hd₀
    obtain ⟨e, he, hpre⟩ := h.kept q d₀ hd₀
    rw [boards_setBoard]
    split
    · rename_i hq
      rw [hq, hd] at he
      cases he
      exact ⟨d', rfl, hpre.trans hids⟩
    · exact ⟨e, he, hpre⟩

theorem Sound.setProject (h : Sound start db) (projectId : String) (p : Project) :
    Sound start (db.setProject projectId p) :=
  ⟨h.wellFormed, h.kept⟩

theorem Sound.effect (h : Sound start db) (hfresh : op.Fresh env db)
    (heff : Effect env db op db') : Sound start db' := by
  have hrelease : ∀ {p : Project} {a : BoardActor} {d d' : Data}, WellFormed d →
      releaseAssignee env p a d = .ok d' → WellFormed d' ∧ cardIds d <+: cardIds d' := by
    intro p a d d' hd hrun
    obtain ⟨hd', hkept⟩ := release_ok hd hrun
    exact ⟨hd', hkept.cardIds_eq ▸ prefix_refl _⟩
  cases heff with
  | board hp hd hrun =>
    obtain ⟨hd', hids⟩ := wellFormed_run (h.wellFormed _ _ hd) (hfresh _ hd) hrun
    exact h.setBoard hd hd' hids
  | releaseAssignee hd hrun =>
    obtain ⟨hd', hids⟩ := hrelease (h.wellFormed _ _ hd) hrun
    exact h.setBoard hd hd' hids
  | createProject hnew =>
    constructor
    · intro q e he
      rw [boards_setBoard] at he
      split at he
      · cases he
        exact wellFormed_defaultBoard _
      · exact h.wellFormed q e he
    · intro q d₀ hd₀
      obtain ⟨e, he, hpre⟩ := h.kept q d₀ hd₀
      have hq : q ≠ env.id := fun hq => by simp [hq, hnew] at he
      exact ⟨e, by simpa [hq] using he, hpre⟩
  | archiveProject hp => exact h.setProject _ _
  | addMember hp => exact h.setProject _ _
  | addAgent hp => exact h.setProject _ _
  | removeMember hp hd hp' hrun =>
    obtain ⟨hd', hids⟩ := hrelease (h.wellFormed _ _ hd) hrun
    exact (h.setProject _ _).setBoard hd hd' hids
  | removeAgent hp hd hp' hrun =>
    obtain ⟨hd', hids⟩ := hrelease (h.wellFormed _ _ hd) hrun
    exact (h.setProject _ _).setBoard hd hd' hids

theorem sound_of_reaches (hstart : ∀ p d, start.boards p = some d → WellFormed d)
    (h : Reaches start db) : Sound start db := by
  refine h.invariant ⟨hstart, fun p d hd => ⟨d, hd, prefix_refl _⟩⟩ ?_
  intro db env op db' hsound hfresh heff
  exact hsound.effect hfresh heff

/-! ### The order of a board -/

/-- Columns are numbered in array order and the cards of each column densely,
every card stands in a column that exists, no card is there twice, and the ids
of both logs increase. -/
structure Ordered (d : Data) : Prop where
  columnPositions : d.columns.map (·.position) = List.range d.columns.length
  cardPositions : ∀ col ∈ d.columns, ((inColumn d col.id).map (·.position)).Perm
    (List.range (inColumn d col.id).length)
  columnExists : ∀ c ∈ d.cards, ∃ col ∈ d.columns, col.id = c.columnId
  cardIds : (cardIds d).Nodup
  activity : (d.activity.map (·.id)).Pairwise (· < ·)
  comments : (d.comments.map (·.id)).Pairwise (· < ·)

theorem WellFormed.ordered (h : WellFormed d) : Ordered d where
  columnPositions := h.columnPositions
  cardPositions := fun col _ => h.dense col.id
  columnExists := fun c hc => mem_map.mp (h.columnOf c hc)
  cardIds := h.cardIds
  activity := h.activity.increasing
  comments := h.comments.increasing

/-- Every board a run reaches is ordered and has kept its cards; a move puts the
card where it was asked to go and keeps the order of all other cards, and so
does the deletion of a column, whose cards go to the end of the target. -/
theorem board_order_kept (hstart : ∀ p d, start.boards p = some d → WellFormed d)
    (hrun : Reaches start db) :
    (∀ p d, db.boards p = some d → Ordered d) ∧
    (∀ p d₀, start.boards p = some d₀ → ∃ d, db.boards p = some d ∧ cardIds d₀ <+: cardIds d) ∧
    (∀ env projectId id columnId position actor override r db',
      write db projectId (fun _ => moveCard env id columnId position actor override) = .ok (r, db') →
      ∃ d d', db.boards projectId = some d ∧ db'.boards projectId = some d' ∧
        Moved d d' id columnId position r) ∧
    (∀ env projectId id target actor override r db',
      write db projectId (fun _ => deleteColumn env id target actor override) = .ok (r, db') →
      ∃ d d', db.boards projectId = some d ∧ db'.boards projectId = some d' ∧
        order d' (target.getD "") = order d (target.getD "") ++ order d id ∧
        ∀ j, j ≠ id → j ≠ target.getD "" → order d' j = order d j) := by
  have hsound := sound_of_reaches hstart hrun
  refine ⟨fun p d hd => (hsound.wellFormed p d hd).ordered, hsound.kept, ?_, ?_⟩
  · intro env projectId id columnId position actor override r db' h
    obtain ⟨p, d, d', -, hd, hmove, rfl⟩ := write_ok h
    obtain ⟨-, -, hmoved⟩ := moveCard_ok (hsound.wellFormed _ _ hd) hmove
    exact ⟨d, d', hd, by simp, hmoved⟩
  · intro env projectId id target actor override r db' h
    obtain ⟨p, d, d', -, hd, hdel, rfl⟩ := write_ok h
    obtain ⟨-, -, htarget, hrest⟩ := deleteColumn_ok (hsound.wellFormed _ _ hd) hdel
    exact ⟨d, d', hd, by simp, htarget, hrest⟩

section Sample

/-- An empty store. -/
def emptyDb : Db := ⟨fun _ => none, fun _ => none⟩

def sampleEnv (id : String) : Env where
  localeCompare := compare
  canParse := fun _ => true
  id := id
  now := 0
  clock := fun k => k

def sampleActor : BoardActor := ⟨.person, "ann"⟩

def sampleCard (title columnId : String) : CardInput where
  title := title
  columnId := columnId
  position := some (.int 0)

def sampleStart : Db := step emptyDb (sampleEnv "p") (.createProject "Demo" "ann")

/-- Two cards, each put at the top of the backlog, and the newer moved to review. -/
def sampleDb : Db := step
    (step
      (step sampleStart (sampleEnv "card_1")
        (.board "p" (.createCard (sampleCard "One" "p:backlog") sampleActor false)))
      (sampleEnv "card_2") (.board "p" (.createCard (sampleCard "Two" "p:backlog") sampleActor false)))
    (sampleEnv "") (.board "p" (.moveCard "card_2" "p:review" (some (.int 9)) sampleActor false))

theorem fresh_createCard {projectId : String} {input : CardInput} {actor : BoardActor}
    {override : Bool}
    (h : (db.boards projectId).all (fun d => decide (env.id ∉ cardIds d)) = true) :
    (Op.board projectId (.createCard input actor override)).Fresh env db := by
  intro d hd
  rw [hd] at h
  have hnew : env.id ∉ cardIds d := of_decide_eq_true h
  exact hnew

theorem sampleDb_slots : (sampleDb.boards "p").map (fun d => d.cards.map slot) =
    some [("card_1", "p:backlog", 0), ("card_2", "p:review", 0)] := by
  decide

theorem reaches_sampleStart : Reaches emptyDb sampleStart :=
  .step .refl (sampleEnv "p") (.createProject "Demo" "ann") trivial

theorem wellFormed_sampleStart : ∀ p d, sampleStart.boards p = some d → WellFormed d := by
  have hempty : ∀ p d, emptyDb.boards p = some d → WellFormed d := by
    intro p d h
    cases h
  exact (sound_of_reaches hempty reaches_sampleStart).wellFormed

theorem reaches_sampleDb : Reaches sampleStart sampleDb := by
  refine .step (.step (.step .refl _ _ ?_) _ _ ?_) _ _ ?_
  · exact fresh_createCard (by decide)
  · exact fresh_createCard (by decide)
  · exact fun _ _ => trivial

theorem board_order_kept_two_cards : ∃ d, sampleDb.boards "p" = some d ∧ Ordered d ∧
      d.cards.map slot = [("card_1", "p:backlog", 0), ("card_2", "p:review", 0)] := by
  obtain ⟨d, hd, hslots⟩ := Option.map_eq_some_iff.mp sampleDb_slots
  exact ⟨d, hd, (board_order_kept wellFormed_sampleStart reaches_sampleDb).1 "p" d hd, hslots⟩

end Sample

end Plur1bus.Board
