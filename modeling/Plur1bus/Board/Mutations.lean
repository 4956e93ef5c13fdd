import Plur1bus.Board.Order

/-!
Every mutation keeps a board well formed, and no card is lost: the ids of the
cards before are the first of the ids after. The steps of a mutation are of
three kinds. Some leave every card in its place (`Kept`), one moves a card
(`Placed`, through `place_ok`), and the rest change the columns only.
-/

namespace Plur1bus.Board

open Program List

variable {d d' : Data} {env : Env}

/-! ### Logs -/

theorem Numbered.snoc {ids : List String} (h : Numbered ids) (hlen : ids.length < MAX_ARRAY) :
    Numbered (ids ++ [seqId (ids.length + 1)]) := by
  obtain ⟨hids, -⟩ := h
  constructor
  · rw [length_append, length_singleton, range_succ, map_append, ← hids]
    rfl
  · rw [length_append, length_singleton]
    omega

theorem seqId_lt {a b : ℕ} (hab : a < b) (hb : b ≤ MAX_ARRAY) : seqId a < seqId b := by
  have hbound : b < 10 ^ 16 := lt_of_le_of_lt hb (by decide)
  have h := padded_lt (w := 16) (by decide) hab hbound
  rw [String.lt_iff, seqId, seqId, String.toList_ofList, String.toList_ofList]
  exact h

/-- The ids of a log increase, as the paging of the log compares them. -/
theorem Numbered.increasing {ids : List String} (h : Numbered ids) : ids.Pairwise (· < ·) := by
  obtain ⟨hids, hlen⟩ := h
  rw [hids, pairwise_map]
  refine pairwise_lt_range.imp_of_mem fun {a b} _ hb hab => ?_
  have hb' : b < ids.length := mem_range.mp hb
  exact seqId_lt (by omega) (by omega)

/-! ### Steps that leave every card in its place -/

/-- Where a card stands. -/
def slot (c : BoardCard) : String × String × ℕ := (c.id, c.columnId, c.position)

/-- Columns stay, and every card keeps its id, its column and its number. -/
structure Kept (d d' : Data) : Prop where
  columns : d'.columns = d.columns
  cards : d'.cards.map slot = d.cards.map slot

theorem Kept.refl (d : Data) : Kept d d := ⟨rfl, rfl⟩

theorem Kept.trans {d'' : Data} (h : Kept d d') (h' : Kept d' d'') : Kept d d'' :=
  ⟨h'.columns.trans h.columns, h'.cards.trans h.cards⟩

variable {id : String}

theorem kept_setCard {g : BoardCard → BoardCard} (hg : ∀ x ∈ d.cards, x.id = id → slot (g x) = slot x) :
    Kept d (setCard d id g) := by
  refine ⟨rfl, ?_⟩
  rw [setCard, List.map_map]
  refine map_congr_left fun x hx => ?_
  by_cases hxid : x.id = id
  · simpa only [Function.comp_apply, hxid, if_true] using hg x hx hxid
  · simp only [Function.comp_apply, hxid, if_false]

theorem slots_inColumn (d : Data) (k : String) :
    (inColumn d k).map slot = (d.cards.map slot).filter (fun s => s.2.1 = k) := by
  rw [filter_map]
  rfl

theorem order_eq_slots (d : Data) (k : String) :
    order d k = keysInOrder (·.1) (·.2.2) ((d.cards.map slot).filter (fun s => s.2.1 = k)) := by
  rw [← slots_inColumn, keysInOrder_map]
  rfl

theorem Kept.order_eq (h : Kept d d') (k : String) : order d' k = order d k := by
  rw [order_eq_slots, order_eq_slots, h.cards]

theorem cardIds_eq_slots (d : Data) : cardIds d = (d.cards.map slot).map (·.1) := by
  rw [List.map_map]
  rfl

theorem Kept.cardIds_eq (h : Kept d d') : cardIds d' = cardIds d := by
  rw [cardIds_eq_slots, cardIds_eq_slots, h.cards]

variable {k : String}

theorem Kept.dense (h : Kept d d') (hd : Dense (·.position) (inColumn d k)) :
    Dense (·.position) (inColumn d' k) := by
  have hslots : (inColumn d' k).map slot = (inColumn d k).map slot := by
    rw [slots_inColumn, slots_inColumn, h.cards]
  have hmap : (inColumn d' k).map (·.position) = (inColumn d k).map (·.position) := by
    have := congrArg (List.map (fun s : String × String × ℕ => s.2.2)) hslots
    simpa [List.map_map, slot, Function.comp_def] using this
  have hlen : (inColumn d' k).length = (inColumn d k).length := by
    simpa using congrArg List.length hslots
  rw [Program.Dense, hmap, hlen]
  exact hd

theorem Kept.wellFormed (h : Kept d d') (hd : WellFormed d)
    (ha : Numbered (d'.activity.map (·.id))) (hc : Numbered (d'.comments.map (·.id))) :
    WellFormed d' where
  columnPositions := by rw [h.columns]; exact hd.columnPositions
  columnIds := by rw [h.columns]; exact hd.columnIds
  cardIds := by rw [h.cardIds_eq]; exact hd.cardIds
  columnOf := by
    intro y hy
    have hy' : slot y ∈ d.cards.map slot := h.cards ▸ mem_map_of_mem hy
    obtain ⟨x, hx, hxy⟩ := mem_map.mp hy'
    have hcol : x.columnId = y.columnId := congrArg (·.2.1) hxy
    rw [h.columns, ← hcol]
    exact hd.columnOf x hx
  dense := fun k => h.dense (hd.dense k)
  activity := ha
  comments := hc

variable {kind : ActivityKind} {actor : BoardActor} {detail : Detail}

/-- `history` moves no card and adds the next entry to the activity. -/
theorem history_ok (h : history env d id kind actor detail = .ok d') :
    Kept d d' ∧ d'.comments = d.comments ∧
      (Numbered (d.activity.map (·.id)) → Numbered (d'.activity.map (·.id))) := by
  obtain ⟨activity, hpush, h⟩ := bind_ok.mp h
  obtain ⟨hlen, rfl⟩ := push_ok.mp hpush
  cases h
  have hset : Kept d (setCard d id (fun c =>
      { c with updatedAt := env.clock d.activity.length, updatedBy := actor })) :=
    kept_setCard fun _ _ _ => rfl
  refine ⟨⟨rfl, hset.cards⟩, rfl, fun hn => ?_⟩
  have hsnoc := hn.snoc (by simpa using hlen)
  simpa using hsnoc

theorem wellFormed_history (hd : WellFormed d) (h : history env d id kind actor detail = .ok d') :
    WellFormed d' := by
  obtain ⟨hkept, hcomments, hactivity⟩ := history_ok h
  exact hkept.wellFormed hd (hactivity hd.activity) (hcomments ▸ hd.comments)

/-! ### Steps that move a card -/

variable {c : BoardCard} {i : ℕ}

theorem Placed.cardIds_eq (h : Placed d d' c k i) : cardIds d' = cardIds d := by
  obtain ⟨position, hcards⟩ := h.cards
  rw [cardIds, hcards, List.map_map]
  rfl

theorem Placed.wellFormed (h : Placed d d' c k i) (hk : k ∈ d.columns.map (·.id))
    (hpos : d.columns.map (·.position) = List.range d.columns.length)
    (hcols : (d.columns.map (·.id)).Nodup) (hids : (cardIds d).Nodup)
    (hof : ∀ x ∈ d.cards, x.columnId ∈ d.columns.map (·.id)) (ha : Numbered (d.activity.map (·.id)))
    (hc : Numbered (d.comments.map (·.id))) : WellFormed d' where
  columnPositions := by rw [h.columns]; exact hpos
  columnIds := by rw [h.columns]; exact hcols
  cardIds := by rw [h.cardIds_eq]; exact hids
  columnOf := by
    obtain ⟨position, hcards⟩ := h.cards
    intro y hy
    rw [hcards] at hy
    obtain ⟨x, hx, rfl⟩ := mem_map.mp hy
    rw [h.columns]
    dsimp only
    split
    · exact hk
    · exact hof x hx
  dense := h.dense
  activity := h.activity ▸ ha
  comments := h.comments ▸ hc

/-- The other cards of a dense column, in their order. -/
theorem keysInOrder_others (hd : WellFormed d) (k : String) (c : BoardCard) :
    keysInOrder (·.id) (·.position) (others d k c) = (order d k).erase c.id :=
  keysInOrder_filter_ne (hd.dense k) (nodup_inColumn hd.cardIds k) c.id

theorem length_others (hd : WellFormed d) (k : String) (c : BoardCard) :
    (others d k c).length = ((order d k).erase c.id).length := by
  rw [← keysInOrder_others hd, (keysInOrder_perm _ _ _).length_eq, length_map]

theorem nodup_others (hd : WellFormed d) (k : String) (c : BoardCard) :
    ((others d k c).map (·.position)).Nodup :=
  (hd.dense k).nodup.sublist (filter_sublist.map _)

variable {P : Platform} {position : Option Number}

/-- Placing a card of a well formed board. -/
theorem wellFormed_place {y : BoardCard} (hd : WellFormed d) (hy : y ∈ d.cards) (hid : y.id = c.id)
    (hcol : y.columnId = c.columnId) (h : place P d c k position = .ok d') :
    WellFormed d' ∧ Placed d d' c k (spot position ((order d k).erase c.id).length) := by
  obtain ⟨hk, hplaced⟩ := place_ok hd.cardIds hy hid hcol (fun j _ => hd.dense j)
    (nodup_others hd k c) h
  rw [length_others hd] at hplaced
  exact ⟨hplaced.wellFormed hk hd.columnPositions hd.columnIds hd.cardIds hd.columnOf hd.activity
    hd.comments, hplaced⟩

/-! ### Steps that change the columns -/

variable {columns : List BoardColumn}

theorem WellFormed.withColumns (hd : WellFormed d)
    (hpos : columns.map (·.position) = List.range columns.length) (hids : (columns.map (·.id)).Nodup)
    (hof : ∀ c ∈ d.cards, c.columnId ∈ columns.map (·.id)) : WellFormed { d with columns } :=
  { hd with columnPositions := hpos, columnIds := hids, columnOf := hof }

theorem position_renumberColumns (columns : List BoardColumn) :
    (renumberColumns columns).map (·.position) = List.range (renumberColumns columns).length := by
  refine ext_getElem (by simp) fun i _ _ => ?_
  simp [renumberColumns]

theorem id_renumberColumns (columns : List BoardColumn) :
    (renumberColumns columns).map (·.id) = columns.map (·.id) := by
  refine ext_getElem (by simp [renumberColumns]) fun i _ _ => ?_
  simp [renumberColumns]

theorem WellFormed.renumbered (hd : WellFormed d) (hids : (columns.map (·.id)).Nodup)
    (hof : ∀ c ∈ d.cards, c.columnId ∈ columns.map (·.id)) :
    WellFormed { d with columns := renumberColumns columns } :=
  hd.withColumns (position_renumberColumns columns) (by rwa [id_renumberColumns])
    (by rwa [id_renumberColumns])

theorem ids_splice (columns : List BoardColumn) (i : ℕ) (c : BoardColumn) :
    ((columns.take i ++ c :: columns.drop i).map (·.id)).Perm (c.id :: columns.map (·.id)) := by
  have h : (columns.take i ++ c :: columns.drop i).Perm (c :: (columns.take i ++ columns.drop i)) :=
    perm_middle
  rw [take_append_drop] at h
  exact h.map (·.id)

/-! ### The mutations of columns -/

theorem wellFormed_createColumn {input : ColumnInput} {r : BoardColumn} (hd : WellFormed d)
    (hfresh : env.id ∉ d.columns.map (·.id)) (h : createColumn env input d = .ok (r, d')) :
    WellFormed d' ∧ d'.cards = d.cards := by
  simp only [createColumn, bind_ok] at h
  obtain ⟨-, -, name, -, titleKey, -, wipLimit, -, i, -, h⟩ := h
  cases h
  have hperm := ids_splice d.columns i ⟨env.id, name, titleKey, 0, wipLimit⟩
  refine ⟨hd.renumbered ?_ fun c hc => ?_, rfl⟩
  · exact hperm.nodup_iff.mpr (nodup_cons.mpr ⟨hfresh, hd.columnIds⟩)
  · exact hperm.mem_iff.mpr (mem_cons_of_mem _ (hd.columnOf c hc))

variable {patch : ColumnPatch}

/-- An update of a column keeps its id and its position. -/
theorem updateColumn_ok {r : BoardColumn} (h : updateColumn id patch d = .ok (r, d')) :
    ∃ c ∈ d.columns, c.id = id ∧ r.id = c.id ∧ r.position = c.position ∧
      d' = { d with columns := d.columns.map (fun x => if x.id = id then r else x) } := by
  simp only [updateColumn, bind_ok] at h
  obtain ⟨c, hc, c₁, h₁, c₂, h₂, c₃, h₃, h⟩ := h
  cases h
  have hkept₁ : c₁.id = c.id ∧ c₁.position = c.position := by
    unfold patchTitle at h₁
    split at h₁
    · cases h₁; exact ⟨rfl, rfl⟩
    · obtain ⟨_, -, h₁⟩ := bind_ok.mp h₁; cases h₁; exact ⟨rfl, rfl⟩
  have hkept₂ : c₂.id = c₁.id ∧ c₂.position = c₁.position := by
    unfold patchTitleKey at h₂
    split at h₂
    · cases h₂; exact ⟨rfl, rfl⟩
    · obtain ⟨_, -, h₂⟩ := bind_ok.mp h₂; cases h₂; exact ⟨rfl, rfl⟩
  have hkept₃ : r.id = c₂.id ∧ r.position = c₂.position := by
    unfold patchWip at h₃
    split at h₃
    · cases h₃; exact ⟨rfl, rfl⟩
    · obtain ⟨_, -, h₃⟩ := bind_ok.mp h₃; cases h₃; exact ⟨rfl, rfl⟩
  exact ⟨c, (column_ok hc).1, (column_ok hc).2, hkept₃.1.trans (hkept₂.1.trans hkept₁.1),
    hkept₃.2.trans (hkept₂.2.trans hkept₁.2), rfl⟩

theorem wellFormed_updateColumn {r : BoardColumn} (hd : WellFormed d)
    (h : updateColumn id patch d = .ok (r, d')) : WellFormed d' ∧ d'.cards = d.cards := by
  obtain ⟨c, hc, rfl, hid, hpos, rfl⟩ := updateColumn_ok h
  have hsame : ∀ x ∈ d.columns, (if x.id = c.id then r else x).id = x.id ∧
      (if x.id = c.id then r else x).position = x.position := by
    intro x hx
    by_cases hxc : x.id = c.id
    · have : x = c := inj_on_of_nodup_map hd.columnIds hx hc hxc
      subst this
      simp [hid, hpos]
    · simp [hxc]
  have hids : (d.columns.map (fun x => if x.id = c.id then r else x)).map (·.id) =
      d.columns.map (·.id) := by
    rw [List.map_map]
    exact map_congr_left fun x hx => (hsame x hx).1
  refine ⟨hd.withColumns ?_ (by rw [hids]; exact hd.columnIds) (by rw [hids]; exact hd.columnOf), rfl⟩
  rw [List.map_map, length_map, ← hd.columnPositions]
  exact map_congr_left fun x hx => (hsame x hx).2

theorem wellFormed_moveColumn {position : Number} {r : BoardColumn} (hd : WellFormed d)
    (h : moveColumn id position d = .ok (r, d')) : WellFormed d' ∧ d'.cards = d.cards := by
  simp only [moveColumn, bind_ok] at h
  obtain ⟨c, hc, i, -, h⟩ := h
  cases h
  obtain ⟨hmem, rfl⟩ := column_ok hc
  have hperm := ids_splice (d.columns.filter (fun x => x.id ≠ c.id)) i c
  have hnodup : ((d.columns.filter (fun x => x.id ≠ c.id)).map (·.id)).Nodup :=
    hd.columnIds.sublist (filter_sublist.map _)
  refine ⟨hd.renumbered ?_ fun x hx => ?_, rfl⟩
  · grind
  · refine hperm.mem_iff.mpr (mem_cons.mpr ?_)
    by_cases hxc : x.columnId = c.id
    · exact .inl hxc
    · obtain ⟨y, hy, hyx⟩ := mem_map.mp (hd.columnOf x hx)
      exact .inr (mem_map.mpr
        ⟨y, mem_filter.mpr ⟨hy, decide_eq_true (hyx ▸ hxc)⟩, hyx⟩)

variable {override : Bool} {cards : List BoardCard}

/-- The loop of `deleteColumn` empties the column from the top and lines its
cards up at the end of the target. -/
theorem moveAll_ok {target : String} (hne : target ≠ id) (hd : WellFormed d)
    (hcards : order d id = cards.map (·.id)) (hcol : ∀ c ∈ cards, c.columnId = id)
    (h : moveAll env id target actor override cards d = .ok d') :
    WellFormed d' ∧ cardIds d' = cardIds d ∧ d'.columns = d.columns ∧ order d' id = [] ∧
      order d' target = order d target ++ cards.map (·.id) ∧
      ∀ j, j ≠ id → j ≠ target → order d' j = order d j := by
  induction cards generalizing d with
  | nil =>
    cases h
    exact ⟨hd, rfl, rfl, hcards, (append_nil _).symm, fun _ _ _ => rfl⟩
  | cons c cards ih =>
    simp only [moveAll, bind_ok] at h
    obtain ⟨d₁, hplace, d₂, hhist, h⟩ := h
    have hmem : c.id ∈ order d id := by simp [hcards]
    obtain ⟨y, hy, hyc⟩ := exists_of_mem_order hmem
    have hycol : y.columnId = id := (mem_order hd.cardIds hy id).mp (by simp [hyc, hcards])
    have hccol : c.columnId = id := hcol c mem_cons_self
    obtain ⟨hd₁, hplaced⟩ := wellFormed_place hd hy hyc (hycol.trans hccol.symm) hplace
    have hkept := (history_ok hhist).1
    have hd₂ := wellFormed_history hd₁ hhist
    -- the moved card stands in no column but its own
    have hnot : ∀ j, j ≠ id → c.id ∉ order d j := fun j hj hmem =>
      hj (((mem_order hd.cardIds hy j).mp (hyc ▸ hmem)).symm.trans hycol)
    have hid : order d₂ id = cards.map (·.id) := by
      rw [hkept.order_eq, hplaced.rest id hne.symm, hcards, map_cons, erase_cons_head]
    have htarget : order d₂ target = order d target ++ [c.id] := by
      rw [hkept.order_eq, hplaced.target, keysInOrder_others hd, erase_of_not_mem (hnot target hne)]
      exact insertAt_length _ _
    have hrest : ∀ j, j ≠ id → j ≠ target → order d₂ j = order d j := by
      intro j hj hj'
      rw [hkept.order_eq, hplaced.rest j hj', erase_of_not_mem (hnot j hj)]
    obtain ⟨hd', hids, hcolumns, hempty, htarget', hrest'⟩ :=
      ih hd₂ hid (fun c hc => hcol c (mem_cons_of_mem _ hc)) h
    refine ⟨hd', ?_, ?_, hempty, ?_, fun j hj hj' => (hrest' j hj hj').trans (hrest j hj hj')⟩
    · rw [hids, hkept.cardIds_eq, hplaced.cardIds_eq]
    · rw [hcolumns, hkept.columns, hplaced.columns]
    · rw [htarget', htarget, append_assoc]
      rfl

/-- A column without cards can go. -/
theorem WellFormed.withoutColumn (hd : WellFormed d) (hempty : order d id = []) :
    WellFormed { d with columns := renumberColumns (d.columns.filter (fun c => c.id ≠ id)) } := by
  refine hd.renumbered (hd.columnIds.sublist (filter_sublist.map _)) fun c hc => ?_
  have hne : c.columnId ≠ id := by
    intro h
    have hmem := (mem_order hd.cardIds hc id).mpr h
    simp [hempty] at hmem
  obtain ⟨y, hy, hyc⟩ := mem_map.mp (hd.columnOf c hc)
  exact mem_map.mpr ⟨y, mem_filter.mpr ⟨hy, decide_eq_true (hyc ▸ hne)⟩, hyc⟩

/-- Deleting a column: its cards stand at the end of the target in their old
order, the other columns are as they were. -/
theorem deleteColumn_ok {target : Option String} {r : Unit} (hd : WellFormed d)
    (h : deleteColumn env id target actor override d = .ok (r, d')) :
    WellFormed d' ∧ cardIds d' = cardIds d ∧
      order d' (target.getD "") = order d (target.getD "") ++ order d id ∧
      ∀ j, j ≠ id → j ≠ target.getD "" → order d' j = order d j := by
  simp only [deleteColumn, bind_ok] at h
  obtain ⟨col, hcol, _, htarget, _, hdel, d₁, hmove, h⟩ := h
  cases h
  have hsort : (byNumber (·.position) (inColumn d id)).map (·.id) = order d id := rfl
  by_cases hne : target.getD "" = id
  · -- the loop does not run: the id of the column is the empty string and it has no cards
    have hempty : inColumn d id = [] := by
      have hnone : target.getD "" = "" := by
        cases target with
        | none => rfl
        | some t => exact absurd (congrArg some hne) (ensure_ok.mp htarget)
      rw [deletable, if_pos hnone] at hdel
      exact ensure_ok.mp hdel
    rw [hempty] at hmove
    cases hmove
    have horder : order d id = [] := by rw [order, hempty]; rfl
    refine ⟨hd.withoutColumn horder, rfl, ?_, fun _ _ _ => rfl⟩
    rw [horder, append_nil]
    rfl
  · have hin : ∀ c ∈ byNumber (·.position) (inColumn d id), c.columnId = id := fun c hc =>
      of_decide_eq_true (mem_filter.mp ((byNumber_perm _ _).mem_iff.mp hc)).2
    obtain ⟨hd₁, hids, -, hempty, horder, hrest⟩ := moveAll_ok hne hd hsort.symm hin hmove
    exact ⟨hd₁.withoutColumn hempty, hids, horder, hrest⟩

/-! ### The mutations of cards -/

/-- The fields a patch cannot touch. -/
structure Same (c c' : BoardCard) : Prop where
  id : c'.id = c.id
  columnId : c'.columnId = c.columnId
  position : c'.position = c.position
  archived : c'.archived = c.archived
  assignees : c'.assignees = c.assignees

theorem Same.refl (c : BoardCard) : Same c c := ⟨rfl, rfl, rfl, rfl, rfl⟩

theorem Same.trans {a b : BoardCard} (h : Same a b) (h' : Same b c) : Same a c :=
  ⟨h'.id.trans h.id, h'.columnId.trans h.columnId, h'.position.trans h.position,
    h'.archived.trans h.archived, h'.assignees.trans h.assignees⟩

theorem fields_ok {c' : BoardCard} {patch : CardPatch} (h : fields P c patch = .ok c') : Same c c' := by
  simp only [fields, bind_ok] at h
  obtain ⟨c₁, h₁, c₂, h₂, c₃, h₃, c₄, h₄, c₅, h₅, h₆⟩ := h
  have hs₁ : Same c c₁ := by
    unfold setTitle at h₁
    split at h₁
    · cases h₁; exact .refl _
    · obtain ⟨_, -, h₁⟩ := bind_ok.mp h₁
      cases h₁; exact ⟨rfl, rfl, rfl, rfl, rfl⟩
  have hs₂ : Same c₁ c₂ := by
    unfold setDescription bad at h₂
    split at h₂
    · cases h₂; exact .refl _
    · split at h₂ <;> cases h₂
      exact ⟨rfl, rfl, rfl, rfl, rfl⟩
  have hs₃ : Same c₂ c₃ := by
    unfold setLabels bad at h₃
    split at h₃
    · cases h₃; exact .refl _
    · split at h₃ <;> cases h₃
      exact ⟨rfl, rfl, rfl, rfl, rfl⟩
  have hs₄ : Same c₃ c₄ := by
    unfold setPriority bad at h₄
    split at h₄
    · cases h₄; exact .refl _
    · split at h₄ <;> cases h₄
      exact ⟨rfl, rfl, rfl, rfl, rfl⟩
  have hs₅ : Same c₄ c₅ := by
    unfold setDueAt bad at h₅
    split at h₅
    · cases h₅; exact .refl _
    · cases h₅; exact ⟨rfl, rfl, rfl, rfl, rfl⟩
    · split at h₅ <;> cases h₅
      exact ⟨rfl, rfl, rfl, rfl, rfl⟩
  have hs₆ : Same c₅ c' := by
    unfold setLinks bad at h₆
    split at h₆
    · cases h₆; exact .refl _
    · split at h₆
      · split at h₆ <;> cases h₆
        exact ⟨rfl, rfl, rfl, rfl, rfl⟩
      · cases h₆
  exact hs₁.trans (hs₂.trans (hs₃.trans (hs₄.trans (hs₅.trans hs₆))))

variable {r : BoardCard}

/-- A new card: every column keeps its order, and the card stands in its own at
the index asked for. -/
theorem createCard_ok {projectId : String} {input : CardInput} (hd : WellFormed d)
    (hfresh : env.id ∉ cardIds d) (h : createCard env projectId input actor override d = .ok (r, d')) :
    WellFormed d' ∧ cardIds d' = cardIds d ++ [env.id] ∧
      order d' input.columnId = insertAt (order d input.columnId)
        (spot input.position (order d input.columnId).length) env.id ∧
      ∀ j, j ≠ input.columnId → order d' j = order d j := by
  simp only [createCard, bind_ok] at h
  obtain ⟨_, -, name, -, c, hfields, cards, hpush, d₁, hplace, d₂, hhist, _, -, h⟩ := h
  cases h
  obtain ⟨-, rfl⟩ := push_ok.mp hpush
  have hsame := fields_ok hfields
  have hid : c.id = env.id := hsame.id
  have hcol : c.columnId = input.columnId := hsame.columnId
  have hids : cardIds { d with cards := d.cards ++ [c] } = cardIds d ++ [env.id] := by
    simp [cardIds, hid]
  have hnodup : (cardIds { d with cards := d.cards ++ [c] }).Nodup := by
    rw [hids]
    exact nodup_append.mpr ⟨hd.cardIds, nodup_singleton _, fun a ha b hb hab =>
      hfresh (mem_singleton.mp hb ▸ hab ▸ ha)⟩
  -- the new card stands in its own column only, and it is left out where that is numbered
  have hother : ∀ j, j ≠ input.columnId → inColumn { d with cards := d.cards ++ [c] } j = inColumn d j := by
    intro j hj
    simp [inColumn, hcol, hj.symm]
  have hothers : others { d with cards := d.cards ++ [c] } input.columnId c =
      inColumn d input.columnId := by
    have hall : (inColumn d input.columnId).filter (fun x => x.id ≠ c.id) = inColumn d input.columnId := by
      refine filter_eq_self.mpr fun x hx => decide_eq_true fun hxc => hfresh ?_
      exact hid ▸ hxc ▸ mem_map_of_mem (mem_of_mem_filter hx)
    simpa [others, inColumn, hcol] using hall
  obtain ⟨hk, hplaced⟩ := place_ok hnodup (mem_append_right _ (mem_singleton.mpr rfl)) rfl
    rfl (fun j hj => hother j hj ▸ hd.dense j) (hothers ▸ (hd.dense input.columnId).nodup) hplace
  have hd₁ : WellFormed d₁ := by
    refine hplaced.wellFormed hk hd.columnPositions hd.columnIds hnodup (fun x hx => ?_)
      hd.activity hd.comments
    rcases mem_append.mp hx with hx | hx
    · exact hd.columnOf x hx
    · rw [mem_singleton.mp hx, hcol]
      exact hk
  have hkept := (history_ok hhist).1
  have hlen : (inColumn d input.columnId).length = (order d input.columnId).length := by
    rw [order, (keysInOrder_perm _ _ _).length_eq, length_map]
  refine ⟨wellFormed_history hd₁ hhist, ?_, ?_, fun j hj => ?_⟩
  · rw [hkept.cardIds_eq, hplaced.cardIds_eq, hids]
  · rw [hkept.order_eq, hplaced.target, hothers, hid, hlen]
    rfl
  · have hnot : c.id ∉ order d j := by
      intro hmem
      obtain ⟨x, hx, hxc⟩ := exists_of_mem_order hmem
      exact hfresh (hid ▸ hxc ▸ mem_map_of_mem hx)
    rw [hkept.order_eq, hplaced.rest j hj, order, hother j hj]
    exact erase_of_not_mem hnot

/-- A card's number is its index in its column. -/
theorem WellFormed.position_eq (hd : WellFormed d) (hc : c ∈ d.cards) :
    c.position = (order d c.columnId).idxOf c.id :=
  (idxOf_keysInOrder (hd.dense _) (nodup_inColumn hd.cardIds _)
    (mem_filter.mpr ⟨hc, decide_eq_true rfl⟩)).symm

/-- A moved card: it stands in the target column at the index asked for, cut to
the number of the other cards there, and every column without it is as before. -/
structure Moved (d d' : Data) (id columnId : String) (position : Option Number) (r : BoardCard) : Prop where
  mem : r ∈ d'.cards
  id_eq : r.id = id
  columnId_eq : r.columnId = columnId
  position_eq : r.position = spot position ((order d columnId).erase id).length
  rest : ∀ j, (order d' j).erase id = (order d j).erase id

theorem moveCard_ok {columnId : String} (hd : WellFormed d)
    (h : moveCard env id columnId position actor override d = .ok (r, d')) :
    WellFormed d' ∧ cardIds d' = cardIds d ∧ Moved d d' id columnId position r := by
  simp only [moveCard, bind_ok] at h
  obtain ⟨c, hc, _, -, _, -, d₁, hplace, moved, -, d₂, hhist, r', hr, h⟩ := h
  cases h
  obtain ⟨hmem, rfl⟩ := card_ok hc
  obtain ⟨hrmem, hrid⟩ := card_ok hr
  obtain ⟨hd₁, hplaced⟩ := wellFormed_place hd hmem rfl rfl hplace
  have hkept := (history_ok hhist).1
  have hd₂ := wellFormed_history hd₁ hhist
  have hnodup : ∀ j, (order d j).Nodup := fun j =>
    (keysInOrder_perm _ _ _).nodup_iff.mpr (nodup_inColumn hd.cardIds j)
  have hnot : c.id ∉ (order d columnId).erase c.id := (hnodup columnId).not_mem_erase
  have htarget : order d' columnId = insertAt ((order d columnId).erase c.id)
      (spot position ((order d columnId).erase c.id).length) c.id := by
    rw [hkept.order_eq, hplaced.target, keysInOrder_others hd]
  have hbound : spot position ((order d columnId).erase c.id).length ≤
      ((order d columnId).erase c.id).length := length_others hd columnId c ▸ hplaced.bound
  have hcol : r.columnId = columnId := by
    refine (mem_order hd₂.cardIds hrmem columnId).mp ?_
    rw [htarget, (insertAt_perm _ _ _).mem_iff, hrid]
    exact mem_cons_self
  refine ⟨hd₂, by rw [hkept.cardIds_eq, hplaced.cardIds_eq], hrmem, hrid, hcol, ?_, fun j => ?_⟩
  · rw [hd₂.position_eq hrmem, hcol, hrid, htarget, idxOf_insertAt hbound hnot]
  · by_cases hj : j = columnId
    · rw [hj, htarget, erase_insertAt _ hnot]
    · rw [hkept.order_eq, hplaced.rest j hj]
      exact erase_of_not_mem (hnodup j).not_mem_erase

/-- A change that leaves every card in its place, with its entry in the activity. -/
theorem kept_history {d₁ : Data} (hd : WellFormed d) (h : history env d₁ id kind actor detail = .ok d')
    (hkept : Kept d d₁) (hact : d₁.activity = d.activity)
    (hcomments : Numbered (d₁.comments.map (·.id))) : WellFormed d' ∧ Kept d d' := by
  have hd₁ := hkept.wellFormed hd (hact ▸ hd.activity) hcomments
  exact ⟨wellFormed_history hd₁ h, hkept.trans (history_ok h).1⟩

theorem updateCard_ok {patch : CardPatch} (hd : WellFormed d)
    (h : updateCard env id patch actor d = .ok (r, d')) : WellFormed d' ∧ Kept d d' := by
  simp only [updateCard, bind_ok] at h
  obtain ⟨c, hc, c', hfields, d₂, hhist, _, -, h⟩ := h
  cases h
  obtain ⟨hmem, rfl⟩ := card_ok hc
  have hsame := fields_ok hfields
  refine kept_history hd hhist (kept_setCard fun x hx hxc => ?_) rfl hd.comments
  have hxc' : x = c := inj_on_of_nodup_map hd.cardIds hx hmem hxc
  rw [hxc', slot, slot, hsame.id, hsame.columnId, hsame.position]

variable {assignee : BoardActor}

theorem assign_ok {p : Project} {add : Bool} (hd : WellFormed d)
    (h : assign env p id assignee add actor d = .ok (r, d')) : WellFormed d' ∧ Kept d d' := by
  simp only [assign, bind_ok] at h
  obtain ⟨_, -, c, -, h⟩ := h
  split at h
  · cases h
    exact ⟨hd, .refl d⟩
  · obtain ⟨d₂, hhist, h⟩ := bind_ok.mp h
    obtain ⟨_, -, h⟩ := bind_ok.mp h
    cases h
    exact kept_history hd hhist (kept_setCard fun _ _ _ => rfl) rfl hd.comments

theorem archiveCard_ok {archived : Bool} (hd : WellFormed d)
    (h : archiveCard env id archived actor override d = .ok (r, d')) : WellFormed d' ∧ Kept d d' := by
  simp only [archiveCard, bind_ok] at h
  obtain ⟨c, -, h⟩ := h
  split at h
  · cases h
    exact ⟨hd, .refl d⟩
  · obtain ⟨_, -, h⟩ := bind_ok.mp h
    obtain ⟨d₂, hhist, h⟩ := bind_ok.mp h
    obtain ⟨_, -, h⟩ := bind_ok.mp h
    cases h
    exact kept_history hd hhist (kept_setCard fun _ _ _ => rfl) rfl hd.comments

theorem comment_ok {text : String} {r : BoardComment} (hd : WellFormed d)
    (h : comment env id text actor d = .ok (r, d')) : WellFormed d' ∧ Kept d d' := by
  simp only [comment, bind_ok] at h
  obtain ⟨_, -, _, -, comments, hpush, d₂, hhist, h⟩ := h
  cases h
  obtain ⟨hlen, rfl⟩ := push_ok.mp hpush
  have hcomments := hd.comments.snoc (by simpa using hlen)
  refine kept_history hd hhist ⟨rfl, rfl⟩ rfl ?_
  simpa using hcomments

theorem release_ok {owner : String} (hd : WellFormed d)
    (h : release env owner assignee cards d = .ok d') : WellFormed d' ∧ Kept d d' := by
  induction cards generalizing d with
  | nil =>
    cases h
    exact ⟨hd, .refl _⟩
  | cons c cards ih =>
    rw [release] at h
    split at h
    · exact ih hd h
    · obtain ⟨d₁, hhist, h⟩ := bind_ok.mp h
      obtain ⟨hd₁, hkept⟩ := kept_history hd hhist (kept_setCard fun _ _ _ => rfl) rfl hd.comments
      obtain ⟨hd', hkept'⟩ := ih hd₁ h
      exact ⟨hd', hkept.trans hkept'⟩

end Plur1bus.Board
