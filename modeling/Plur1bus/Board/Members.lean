import Plur1bus.Board.Runs

/-!
Who a card may be assigned to, and how full a column may get. Both are read off
the tags of the cards: a mutation is an equation between the tags before and
after, and the assignees and the number of unarchived cards of a column depend
on nothing else.

The assignments live on the board and the memberships in their own tables. What
keeps them together is that a removal releases the assignments in its own
transaction, and that `assign` looks the membership up in the transaction that
writes the card.
-/

namespace Plur1bus.Board

open Program List Function

variable {env : Env} {d d' : Data} {db db' start : Db}

/-! ### Tags -/

/-- A card as far as assignments and limits see it. -/
structure Tag where
  id : String
  columnId : String
  archived : Bool
  assignees : List BoardActor

def tag (c : BoardCard) : Tag := ⟨c.id, c.columnId, c.archived, c.assignees⟩

def tags (d : Data) : List Tag := d.cards.map tag

def Tag.activeIn (k : String) (t : Tag) : Bool := t.columnId = k ∧ t.archived = false

theorem active_eq (d : Data) (k : String) : active d k = (tags d).countP (Tag.activeIn k) := by
  rw [active, tags, countP_map, countP_eq_length_filter]
  rfl

theorem nodup_tags (hd : WellFormed d) : ((tags d).map (·.id)).Nodup := by
  rw [tags, List.map_map]
  exact hd.cardIds

variable {id : String}

theorem tags_setCard {g : BoardCard → BoardCard} {u : Tag → Tag} (hg : ∀ x, tag (g x) = u (tag x)) :
    tags (setCard d id g) = (tags d).map (fun t => if t.id = id then u t else t) := by
  rw [tags, tags, setCard, List.map_map, List.map_map]
  refine map_congr_left fun x _ => ?_
  rw [comp_apply, comp_apply]
  by_cases hx : x.id = id
  · rw [if_pos hx, if_pos (show (tag x).id = id from hx), hg]
  · rw [if_neg hx, if_neg (show (tag x).id ≠ id from hx)]

variable {actor : BoardActor}

theorem tags_history {kind : ActivityKind} {detail : Detail}
    (h : history env d id kind actor detail = .ok d') : tags d' = tags d := by
  obtain ⟨activity, -, h⟩ := bind_ok.mp h
  cases h
  have hsame : ∀ c : BoardCard,
      tag { c with updatedAt := env.clock d.activity.length, updatedBy := actor } = tag c :=
    fun _ => rfl
  have hset : tags (setCard d id _) = _ := tags_setCard (u := fun t => t) hsame
  refine hset.trans ?_
  simp only [ite_self, map_id']

theorem tags_renumber (lane : List String) (cards : List BoardCard) :
    (renumber lane cards).map tag = cards.map tag := by
  rw [renumber, List.map_map]
  refine map_congr_left fun x _ => ?_
  simp only [comp_apply]
  split <;> rfl

variable {P : Platform} {c : BoardCard} {k : String} {position : Option Number}

/-- `place` changes the column of one card. -/
theorem tags_place (h : place P d c k position = .ok d') :
    tags d' = (tags d).map (fun t => if t.id = c.id then { t with columnId := k } else t) := by
  obtain ⟨_, -, h⟩ := bind_ok.mp h
  obtain ⟨i, -, h⟩ := bind_ok.mp h
  have hset : tags (setCard d c.id (fun x => { x with columnId := k })) =
      (tags d).map (fun t => if t.id = c.id then { t with columnId := k } else t) :=
    tags_setCard fun _ => rfl
  dsimp only at h
  split at h <;> cases h
  · rw [tags, tags_renumber]
    exact hset
  · rw [tags, tags_renumber, tags_renumber]
    exact hset

theorem columns_place (h : place P d c k position = .ok d') : d'.columns = d.columns := by
  obtain ⟨_, -, h⟩ := bind_ok.mp h
  obtain ⟨i, -, h⟩ := bind_ok.mp h
  dsimp only at h
  split at h <;> cases h <;> rfl

/-- The tag with a card's id is that card's. -/
theorem tag_eq_of_id (hd : WellFormed d) {t : Tag} (ht : t ∈ tags d) (hc : c ∈ d.cards)
    (hid : t.id = c.id) : t = tag c := by
  obtain ⟨x, hx, rfl⟩ := mem_map.mp ht
  rw [inj_on_of_nodup_map hd.cardIds hx hc hid]

/-! ### Counting -/

/-- A change to every tag adds at most those that come in. -/
theorem countP_map_le (p : Tag → Bool) (g : Tag → Tag) (l : List Tag) :
    (l.map g).countP p ≤ l.countP p + l.countP (fun t => p (g t) && !p t) := by
  rw [countP_map]
  induction l with
  | nil => simp
  | cons t l ih => grind

/-- At most one tag has a given id. -/
theorem countP_id_le (h : ((tags d).map (·.id)).Nodup) (id : String) :
    (tags d).countP (fun t => t.id = id) ≤ 1 := by
  have hcount : (tags d).countP (fun t => decide (t.id = id)) = ((tags d).map (·.id)).count id := by
    rw [List.count, countP_map]
    congr 1
  rw [hcount]
  exact nodup_iff_count_le_one.mp h id

/-- A change to the card with one id, seen from a column that gains at most that card. -/
theorem countP_update_le (hd : WellFormed d) (k id : String) (u : Tag → Tag) :
    ((tags d).map (fun t => if t.id = id then u t else t)).countP (Tag.activeIn k) ≤ active d k + 1 := by
  have hin : (tags d).countP (fun t => Tag.activeIn k (if t.id = id then u t else t) &&
      !Tag.activeIn k t) ≤ (tags d).countP (fun t => t.id = id) := by
    refine countP_mono_left fun t _ ht => ?_
    by_contra hne
    simp_all
  have hone := countP_id_le (nodup_tags hd) id
  have hle := countP_map_le (Tag.activeIn k) (fun t => if t.id = id then u t else t) (tags d)
  rw [active_eq]
  omega

variable {g : Tag → Tag}

/-- A change that brings no card into the column. -/
theorem countP_map_le_of_imp (hg : ∀ t ∈ tags d, (g t).activeIn k = true → t.activeIn k = true) :
    ((tags d).map g).countP (Tag.activeIn k) ≤ active d k := by
  rw [active_eq, countP_map]
  exact countP_mono_left hg

/-! ### Limits -/

/-- No column with a limit has grown beyond it. -/
def Within (d d' : Data) : Prop := ∀ col ∈ d'.columns, ∀ limit, col.wipLimit = some limit →
    active d col.id < active d' col.id → active d' col.id ≤ limit

theorem within_of_le (h : ∀ k, active d' k ≤ active d k) : Within d d' :=
  fun col _ _ _ hlt => absurd hlt (Nat.not_lt.mpr (h col.id))

theorem within_of_tags (h : tags d' = tags d) : Within d d' :=
  within_of_le fun k => by rw [active_eq, active_eq, h]

/-- What a passed limit check says about the column with that id. -/
theorem room (hd : WellFormed d) {n : ℕ} {u : Unit} (h : wip d k n false = .ok u) (hn : 0 < n)
    {col : BoardColumn} (hcol : col ∈ d.columns) (hid : col.id = k) {limit : ℕ}
    (hlimit : col.wipLimit = some limit) : active d k + n ≤ limit := by
  obtain ⟨c, hc, h⟩ := bind_ok.mp h
  obtain ⟨hmem, hck⟩ := column_ok hc
  have hcc : c = col := inj_on_of_nodup_map hd.columnIds hmem hcol (hck.trans hid.symm)
  have hfits := ensure_ok.mp h
  by_contra hover
  exact hfits ⟨hn, rfl, limit, by simp [hcc, hlimit], by omega⟩

/-- One card comes into a column that has room for it. -/
theorem within_of_room (hd : WellFormed d) {u : Unit} (h : wip d k 1 false = .ok u)
    (hcolumns : d'.columns = d.columns) (hk : active d' k ≤ active d k + 1)
    (hrest : ∀ j, j ≠ k → active d' j ≤ active d j) : Within d d' := by
  intro col hcol limit hlimit hlt
  by_cases hj : col.id = k
  · have := room hd h Nat.one_pos (hcolumns ▸ hcol) hj hlimit
    rw [hj]
    omega
  · exact absurd hlt (Nat.not_lt.mpr (hrest _ hj))

variable {projectId : String} {input : CardInput} {r : BoardCard}

theorem tags_createCard {override : Bool} (hfresh : env.id ∉ cardIds d)
    (h : createCard env projectId input actor override d = .ok (r, d')) :
    tags d' = tags d ++ [⟨env.id, input.columnId, false, []⟩] := by
  simp only [createCard, bind_ok] at h
  obtain ⟨_, -, name, -, c, hfields, cards, hpush, d₁, hplace, d₂, hhist, _, -, h⟩ := h
  cases h
  obtain ⟨-, rfl⟩ := push_ok.mp hpush
  have hsame := fields_ok hfields
  have hid : c.id = env.id := hsame.id
  have hold : (tags d).map (fun t => if t.id = c.id then { t with columnId := input.columnId }
      else t) = tags d := by
    refine (map_congr_left fun t ht => ?_).trans (map_id _)
    obtain ⟨x, hx, rfl⟩ := mem_map.mp ht
    have hne : (tag x).id ≠ c.id := fun hxc => hfresh (hid ▸ hxc ▸ mem_map_of_mem hx)
    rw [if_neg hne]
    rfl
  have hnew : tag c = ⟨env.id, input.columnId, false, []⟩ := by
    rw [tag, hid, hsame.columnId, hsame.archived, hsame.assignees]
  have htags : tags { d with cards := d.cards ++ [c] } = tags d ++ [tag c] := by
    simp [tags]
  rw [tags_history hhist, tags_place hplace, htags, map_append, hold, hnew]
  simp [hid]

theorem within_createCard (hd : WellFormed d) (hfresh : env.id ∉ cardIds d)
    (h : createCard env projectId input actor false d = .ok (r, d')) : Within d d' := by
  have htags := tags_createCard hfresh h
  have hcolumns : d'.columns = d.columns := by
    simp only [createCard, bind_ok] at h
    obtain ⟨_, -, _, -, c, hfields, cards, hpush, d₁, hplace, d₂, hhist, _, -, h⟩ := h
    cases h
    rw [(history_ok hhist).1.columns, columns_place hplace]
  obtain ⟨_, hwip, -⟩ := bind_ok.mp h
  refine within_of_room hd hwip hcolumns ?_ fun j hj => ?_
  · rw [active_eq, active_eq, htags, countP_append]
    have := countP_le_length (p := Tag.activeIn input.columnId)
      (l := [⟨env.id, input.columnId, false, []⟩])
    simpa using this
  · rw [active_eq, active_eq, htags, countP_append]
    simp [Tag.activeIn, hj.symm]

variable {columnId : String}

theorem tags_moveCard {override : Bool}
    (h : moveCard env id columnId position actor override d = .ok (r, d')) :
    tags d' = (tags d).map (fun t => if t.id = id then { t with columnId } else t) := by
  simp only [moveCard, bind_ok] at h
  obtain ⟨c, hc, _, -, _, -, d₁, hplace, moved, -, d₂, hhist, r', hr, h⟩ := h
  cases h
  obtain ⟨-, rfl⟩ := card_ok hc
  rw [tags_history hhist, tags_place hplace]

theorem within_moveCard (hd : WellFormed d)
    (h : moveCard env id columnId position actor false d = .ok (r, d')) : Within d d' := by
  have htags := tags_moveCard h
  simp only [moveCard, bind_ok] at h
  obtain ⟨c, hc, _, -, _, hwip, d₁, hplace, moved, -, d₂, hhist, r', -, h⟩ := h
  cases h
  obtain ⟨hmem, rfl⟩ := card_ok hc
  unfold wipWhen at hwip
  split at hwip
  · refine within_of_room hd hwip (by rw [(history_ok hhist).1.columns, columns_place hplace])
      ?_ fun j hj => ?_
    · rw [active_eq, htags]
      exact countP_update_le hd _ _ fun t => { t with columnId := columnId }
    · rw [active_eq, htags]
      refine countP_map_le_of_imp fun t _ ht => ?_
      by_cases htc : t.id = c.id
      · simp [htc, Tag.activeIn, hj.symm] at ht
      · simpa [htc] using ht
  · -- within its own column a card moves without being counted again
    rename_i hsame
    have hsame : c.columnId = columnId := of_not_not hsame
    refine within_of_le fun k => ?_
    rw [active_eq, htags]
    refine countP_map_le_of_imp fun t ht hact => ?_
    by_cases htc : t.id = c.id
    · have htag := tag_eq_of_id hd ht hmem htc
      rw [if_pos htc] at hact
      simpa [htag, tag, Tag.activeIn, hsame] using hact
    · simpa [htc] using hact

variable {archived : Bool}

theorem tags_archiveCard {override : Bool}
    (h : archiveCard env id archived actor override d = .ok (r, d')) : tags d' = tags d ∨
      tags d' = (tags d).map (fun t => if t.id = id then { t with archived } else t) := by
  obtain ⟨c, -, h⟩ := bind_ok.mp h
  split at h
  · cases h
    exact .inl rfl
  · obtain ⟨_, -, h⟩ := bind_ok.mp h
    obtain ⟨d₂, hhist, h⟩ := bind_ok.mp h
    obtain ⟨_, -, h⟩ := bind_ok.mp h
    cases h
    rw [tags_history hhist]
    exact .inr (tags_setCard fun _ => rfl)

theorem within_archiveCard (hd : WellFormed d)
    (h : archiveCard env id archived actor false d = .ok (r, d')) : Within d d' := by
  have hkept := (archiveCard_ok hd h).2
  rcases tags_archiveCard h with htags | htags
  · exact within_of_tags htags
  obtain ⟨c, hc, h⟩ := bind_ok.mp h
  obtain ⟨hmem, rfl⟩ := card_ok hc
  split at h
  · cases h
    exact within_of_le fun _ => le_rfl
  obtain ⟨_, hwip, -⟩ := bind_ok.mp h
  unfold wipWhen at hwip
  split at hwip
  · refine within_of_room hd hwip hkept.columns ?_ fun j hj => ?_
    · rw [active_eq, htags]
      exact countP_update_le hd _ _ fun t => { t with archived := archived }
    · rw [active_eq, htags]
      refine countP_map_le_of_imp fun t ht hact => ?_
      by_cases htc : t.id = c.id
      · have htag := tag_eq_of_id hd ht hmem htc
        rw [if_pos htc] at hact
        simp [htag, tag, Tag.activeIn, hj.symm] at hact
      · simpa [htc] using hact
  · rename_i harch
    refine within_of_le fun k => ?_
    rw [active_eq, htags]
    refine countP_map_le_of_imp fun t ht hact => ?_
    by_cases htc : t.id = c.id
    · simp [htc, Tag.activeIn, harch] at hact
    · simpa [htc] using hact

variable {cards : List BoardCard}

theorem tags_moveAll {target : String} {override : Bool}
    (h : moveAll env id target actor override cards d = .ok d') : tags d' = (tags d).map (fun t =>
      if t.id ∈ cards.map (·.id) then { t with columnId := target } else t) ∧
      d'.columns = d.columns := by
  induction cards generalizing d with
  | nil =>
    cases h
    exact ⟨by simp, rfl⟩
  | cons c cards ih =>
    simp only [moveAll, bind_ok] at h
    obtain ⟨d₁, hplace, d₂, hhist, h⟩ := h
    obtain ⟨htags, hcolumns⟩ := ih h
    refine ⟨?_, by rw [hcolumns, (history_ok hhist).1.columns, columns_place hplace]⟩
    rw [htags, tags_history hhist, tags_place hplace, List.map_map]
    refine map_congr_left fun t _ => ?_
    by_cases htc : t.id = c.id
    · simp [htc]
    · simp [htc]

variable {target : Option String}

/-- The cards of a deleted column take the column they go to. -/
theorem tags_deleteColumn {override : Bool} {r : Unit} (hd : WellFormed d)
    (h : deleteColumn env id target actor override d = .ok (r, d')) : tags d' = (tags d).map (fun t =>
      if t.columnId = id then { t with columnId := target.getD "" } else t) ∧
      d'.columns = renumberColumns (d.columns.filter (fun c => c.id ≠ id)) := by
  simp only [deleteColumn, bind_ok] at h
  obtain ⟨_, -, _, -, _, -, d₁, hmove, h⟩ := h
  cases h
  obtain ⟨htags, hcolumns⟩ := tags_moveAll hmove
  refine ⟨htags.trans (map_congr_left fun t ht => ?_), by rw [hcolumns]⟩
  obtain ⟨x, hx, rfl⟩ := mem_map.mp ht
  have hmem : (tag x).id ∈ (byNumber (·.position) (inColumn d id)).map (·.id) ↔
      (tag x).columnId = id := mem_order hd.cardIds hx id
  simp only [hmem]

theorem within_deleteColumn {r : Unit} (hd : WellFormed d)
    (h : deleteColumn env id target actor false d = .ok (r, d')) : Within d d' := by
  obtain ⟨htags, hcolumns⟩ := tags_deleteColumn hd h
  simp only [deleteColumn, bind_ok] at h
  obtain ⟨_, -, _, -, _, hdel, -⟩ := h
  intro col hcol limit hlimit hlt
  -- the column was there before, with its limit
  obtain ⟨col₀, hcol₀, hid, hlim⟩ : ∃ col₀ ∈ d.columns, col₀.id = col.id ∧ col₀.wipLimit = some limit := by
    rw [hcolumns] at hcol
    obtain ⟨i, hi, rfl⟩ := mem_mapIdx.mp hcol
    exact ⟨_, mem_of_mem_filter (getElem_mem hi), rfl, hlimit⟩
  by_cases htarget : col.id = target.getD ""
  · have hin : (tags d).countP (fun t => Tag.activeIn col.id
        (if t.columnId = id then { t with columnId := target.getD "" } else t) &&
          !Tag.activeIn col.id t) ≤ active d id := by
      rw [active_eq]
      refine countP_mono_left fun t _ ht => ?_
      by_cases htc : t.columnId = id
      · simp_all [Tag.activeIn]
      · simp_all
    have hle := countP_map_le (Tag.activeIn col.id) (fun t =>
      if t.columnId = id then { t with columnId := target.getD "" } else t) (tags d)
    rw [← htags, ← active_eq, ← active_eq] at hle
    have hpos : 0 < active d id := by omega
    unfold deletable at hdel
    split at hdel
    · -- without a target the column was empty
      have hempty := ensure_ok.mp hdel
      have hzero : active d id = 0 := by
        rw [active]
        refine length_eq_zero_iff.mpr (filter_eq_nil_iff.mpr fun x hx hact => ?_)
        have hcol' : x.columnId = id := (of_decide_eq_true hact).1
        have hmem : x ∈ inColumn d id := mem_filter.mpr ⟨hx, decide_eq_true hcol'⟩
        simp [hempty] at hmem
      omega
    · have := room hd hdel hpos hcol₀ (hid.trans htarget) hlim
      rw [← htarget] at this
      omega
  · have hle : active d' col.id ≤ active d col.id := by
      rw [active_eq, htags]
      refine countP_map_le_of_imp fun t _ ht => ?_
      by_cases htc : t.columnId = id
      · simp [htc, Tag.activeIn, Ne.symm htarget] at ht
      · simpa [htc] using ht
    omega

theorem tags_updateCard {patch : CardPatch} (hd : WellFormed d)
    (h : updateCard env id patch actor d = .ok (r, d')) : tags d' = tags d := by
  simp only [updateCard, bind_ok] at h
  obtain ⟨c, hc, c', hfields, d₂, hhist, _, -, h⟩ := h
  cases h
  obtain ⟨hmem, rfl⟩ := card_ok hc
  have hsame := fields_ok hfields
  rw [tags_history hhist, tags, tags, setCard, List.map_map]
  refine map_congr_left fun x hx => ?_
  by_cases hxc : x.id = c.id
  · have hxc' : x = c := inj_on_of_nodup_map hd.cardIds hx hmem hxc
    rw [comp_apply, if_pos hxc, hxc', tag, tag, hsame.id, hsame.columnId, hsame.archived, hsame.assignees]
  · rw [comp_apply, if_neg hxc]

theorem tags_comment {text : String} {r : BoardComment} (h : comment env id text actor d = .ok (r, d')) :
    tags d' = tags d := by
  simp only [comment, bind_ok] at h
  obtain ⟨_, -, _, -, comments, hpush, d₂, hhist, h⟩ := h
  cases h
  rw [tags_history hhist]
  rfl

variable {p : Project}

/-- An assignment that is made is one to somebody who belongs to the project. -/
theorem tags_assign {assignee : BoardActor} {add : Bool} (hd : WellFormed d)
    (h : assign env p id assignee add actor d = .ok (r, d')) :
    ∃ g : Tag → Tag, tags d' = (tags d).map g ∧
      ∀ t ∈ tags d, (g t).columnId = t.columnId ∧ (g t).archived = t.archived ∧
        ∀ a ∈ (g t).assignees, p.belongs a = true ∨ a ∈ t.assignees := by
  obtain ⟨_, hbelongs, h⟩ := bind_ok.mp h
  have hbelongs := ensure_ok.mp hbelongs
  obtain ⟨c, hc, h⟩ := bind_ok.mp h
  obtain ⟨hmem, rfl⟩ := card_ok hc
  split at h
  · cases h
    exact ⟨id, (map_id _).symm, fun t _ => ⟨rfl, rfl, fun a ha => .inr ha⟩⟩
  · obtain ⟨d₂, hhist, h⟩ := bind_ok.mp h
    obtain ⟨_, -, h⟩ := bind_ok.mp h
    cases h
    have htags := (tags_history hhist).trans (tags_setCard (u := fun t =>
      ⟨t.id, t.columnId, t.archived,
        if add then c.assignees ++ [assignee] else c.assignees.filter (· ≠ assignee)⟩)
      fun _ => rfl)
    refine ⟨_, htags, fun t ht => ?_⟩
    by_cases htc : t.id = c.id
    · have htag := tag_eq_of_id hd ht hmem htc
      rw [if_pos htc]
      refine ⟨rfl, rfl, fun a ha => ?_⟩
      cases add with
      | true =>
        rcases mem_append.mp ha with ha | ha
        · exact .inr (htag ▸ ha)
        · exact .inl (mem_singleton.mp ha ▸ hbelongs rfl)
      | false => exact .inr (htag ▸ mem_of_mem_filter ha)
    · rw [if_neg htc]
      exact ⟨rfl, rfl, fun a ha => .inr ha⟩

/-! ### Assignees -/

/-- Some card is assigned to `a`. -/
def Assigned (d : Data) (a : BoardActor) : Prop := ∃ t ∈ tags d, a ∈ t.assignees

variable {a : BoardActor}

theorem assigned_of_map (P : BoardActor → Prop) (h : tags d' = (tags d).map g)
    (hg : ∀ t ∈ tags d, ∀ a ∈ (g t).assignees, P a ∨ a ∈ t.assignees) (ha : Assigned d' a) :
    P a ∨ Assigned d a := by
  obtain ⟨t, ht, hat⟩ := ha
  rw [h] at ht
  obtain ⟨s, hs, rfl⟩ := mem_map.mp ht
  rcases hg s hs a hat with hp | has
  · exact .inl hp
  · exact .inr ⟨s, hs, has⟩

variable {owner : String} {b : BoardActor}

/-- `releaseAssignee` leaves no assignment to the released actor: a card that
still has one is still to come in the loop. -/
theorem release_assigned
    (hinv : ∀ t ∈ tags d, a ∈ t.assignees → ∃ c ∈ cards, c.id = t.id ∧ a ∈ c.assignees)
    (h : release env owner a cards d = .ok d') (hb : Assigned d' b) : b ≠ a ∧ Assigned d b := by
  induction cards generalizing d with
  | nil =>
    cases h
    refine ⟨?_, hb⟩
    rintro rfl
    obtain ⟨t, ht, hbt⟩ := hb
    obtain ⟨c, hc, -⟩ := hinv t ht hbt
    cases hc
  | cons c cards ih =>
    rw [release] at h
    split at h
    · rename_i hnot
      refine ih (fun t ht hat => ?_) h
      obtain ⟨c', hc', hid, hac'⟩ := hinv t ht hat
      rcases mem_cons.mp hc' with rfl | hc'
      · simp [contains_iff_mem, hac'] at hnot
      · exact ⟨c', hc', hid, hac'⟩
    · obtain ⟨d₁, hhist, h⟩ := bind_ok.mp h
      have htags := (tags_history hhist).trans (tags_setCard (u := fun t =>
        ⟨t.id, t.columnId, t.archived, t.assignees.filter (· ≠ a)⟩) fun _ => rfl)
      have hinv₁ : ∀ t ∈ tags d₁, a ∈ t.assignees → ∃ c' ∈ cards, c'.id = t.id ∧ a ∈ c'.assignees := by
        intro t ht hat
        rw [htags] at ht
        obtain ⟨s, hs, rfl⟩ := mem_map.mp ht
        by_cases hsc : s.id = c.id
        · simp [hsc] at hat
        · grind
      obtain ⟨hne, hb₁⟩ := ih hinv₁ h
      refine ⟨hne, (assigned_of_map (fun _ => False) htags ?_ hb₁).elim False.elim id⟩
      intro t _ b hb
      by_cases htc : t.id = c.id
      · rw [if_pos htc] at hb
        exact .inr (mem_of_mem_filter hb)
      · rw [if_neg htc] at hb
        exact .inr hb

theorem releaseAssignee_assigned (h : releaseAssignee env p a d = .ok d') (hb : Assigned d' b) :
    b ≠ a ∧ Assigned d b := by
  refine release_assigned (fun t ht hat => ?_) h hb
  obtain ⟨c, hc, rfl⟩ := mem_map.mp ht
  exact ⟨c, hc, rfl, hat⟩

theorem tags_release (h : release env owner a cards d = .ok d') (k : String) :
    active d' k = active d k := by
  induction cards generalizing d with
  | nil =>
    cases h
    rfl
  | cons c cards ih =>
    rw [release] at h
    split at h
    · exact ih h
    · obtain ⟨d₁, hhist, h⟩ := bind_ok.mp h
      have htags := (tags_history hhist).trans (tags_setCard (u := fun t =>
        ⟨t.id, t.columnId, t.archived, t.assignees.filter (· ≠ a)⟩) fun _ => rfl)
      rw [ih h, active_eq, active_eq, htags, countP_map]
      refine countP_congr fun t _ => ?_
      by_cases htc : t.id = c.id <;> simp [htc, Tag.activeIn]

/-! ### The two facts over a run -/

/-- The override flag a mutation was called with. -/
def BoardOp.override : BoardOp → Bool
  | .deleteColumn _ _ _ override => override
  | .createCard _ _ override => override
  | .moveCard _ _ _ _ override => override
  | .archiveCard _ _ _ override => override
  | _ => false

def Op.override : Op → Bool
  | .board _ bop => bop.override
  | _ => false

/-- What a mutation does to assignments and to limited columns. -/
theorem run_tags {bop : BoardOp} (hd : WellFormed d) (hfresh : bop.Fresh env d)
    (h : bop.run env projectId p d = .ok d') :
    (∀ a, Assigned d' a → p.belongs a = true ∨ Assigned d a) ∧ (bop.override = false → Within d d') := by
  have hsame : ∀ {d' : Data}, tags d' = tags d →
      (∀ a, Assigned d' a → p.belongs a = true ∨ Assigned d a) ∧ Within d d' := fun h =>
    ⟨fun a ⟨t, ht, hat⟩ => .inr ⟨t, h ▸ ht, hat⟩, within_of_tags h⟩
  cases bop with
  | createColumn input =>
    obtain ⟨⟨r, _⟩, hop, rfl⟩ := map_ok.mp h
    have hcards := (wellFormed_createColumn hd hfresh hop).2
    exact (hsame (congrArg (List.map tag) hcards)).imp_right fun h _ => h
  | updateColumn id patch =>
    obtain ⟨⟨r, _⟩, hop, rfl⟩ := map_ok.mp h
    have hcards := (wellFormed_updateColumn hd hop).2
    exact (hsame (congrArg (List.map tag) hcards)).imp_right fun h _ => h
  | moveColumn id position =>
    obtain ⟨⟨r, _⟩, hop, rfl⟩ := map_ok.mp h
    have hcards := (wellFormed_moveColumn hd hop).2
    exact (hsame (congrArg (List.map tag) hcards)).imp_right fun h _ => h
  | deleteColumn id target actor override =>
    obtain ⟨⟨r, _⟩, hop, rfl⟩ := map_ok.mp h
    have htags := (tags_deleteColumn hd hop).1
    refine ⟨fun a => assigned_of_map (p.belongs · = true) htags fun t _ b hb => .inr ?_, ?_⟩
    · split at hb <;> exact hb
    · rintro rfl
      exact within_deleteColumn hd hop
  | createCard input actor override =>
    obtain ⟨⟨r, _⟩, hop, rfl⟩ := map_ok.mp h
    refine ⟨fun a ⟨t, ht, hat⟩ => .inr ?_, ?_⟩
    · rw [tags_createCard hfresh hop] at ht
      rcases mem_append.mp ht with ht | ht
      · exact ⟨t, ht, hat⟩
      · rw [mem_singleton.mp ht] at hat
        cases hat
    · rintro rfl
      exact within_createCard hd hfresh hop
  | updateCard id patch actor =>
    obtain ⟨⟨r, _⟩, hop, rfl⟩ := map_ok.mp h
    exact (hsame (tags_updateCard hd hop)).imp_right fun h _ => h
  | moveCard id columnId position actor override =>
    obtain ⟨⟨r, _⟩, hop, rfl⟩ := map_ok.mp h
    have htags := tags_moveCard hop
    refine ⟨fun a => assigned_of_map (p.belongs · = true) htags fun t _ b hb => .inr ?_, ?_⟩
    · split at hb <;> exact hb
    · rintro rfl
      exact within_moveCard hd hop
  | assign id assignee add actor =>
    obtain ⟨⟨r, _⟩, hop, rfl⟩ := map_ok.mp h
    obtain ⟨g, htags, hg⟩ := tags_assign hd hop
    refine ⟨fun a => assigned_of_map (p.belongs · = true) htags fun t ht => (hg t ht).2.2, fun _ => ?_⟩
    refine within_of_le fun k => ?_
    rw [active_eq, htags]
    refine countP_map_le_of_imp fun t ht hact => ?_
    simpa [Tag.activeIn, (hg t ht).1, (hg t ht).2.1] using hact
  | archiveCard id archived actor override =>
    obtain ⟨⟨r, _⟩, hop, rfl⟩ := map_ok.mp h
    refine ⟨?_, ?_⟩
    · rcases tags_archiveCard hop with htags | htags
      · exact (hsame htags).1
      · refine fun a => assigned_of_map (p.belongs · = true) htags fun t _ b hb => .inr ?_
        split at hb <;> exact hb
    · rintro rfl
      exact within_archiveCard hd hop
  | comment id text actor =>
    obtain ⟨⟨r, _⟩, hop, rfl⟩ := map_ok.mp h
    exact (hsame (tags_comment hop)).imp_right fun h _ => h

/-- Every assignee is a member, or an agent, of the card's project. -/
def Held (db : Db) : Prop :=
  ∀ projectId p d, db.projects projectId = some p → db.boards projectId = some d →
    ∀ c ∈ d.cards, ∀ a ∈ c.assignees, p.belongs a = true

theorem Held.assigned (h : Held db) (hp : db.projects projectId = some p)
    (hd : db.boards projectId = some d) (ha : Assigned d a) : p.belongs a = true := by
  obtain ⟨t, ht, hat⟩ := ha
  obtain ⟨c, hc, rfl⟩ := mem_map.mp ht
  exact h projectId p d hp hd c hc a hat

/-- One project's rows change, and its assignees belong to it afterwards. -/
theorem Held.update (h : Held db) (projectId : String) (p : Project) (d : Data)
    (hother : ∀ q, q ≠ projectId → db'.projects q = db.projects q ∧ db'.boards q = db.boards q)
    (hp : db'.projects projectId = some p) (hd : db'.boards projectId = some d)
    (ha : ∀ a, Assigned d a → p.belongs a = true) : Held db' := by
  intro q p' e hp' he c hc a hac
  by_cases hq : q = projectId
  · subst hq
    rw [hp] at hp'
    rw [hd] at he
    cases hp'
    cases he
    exact ha a ⟨tag c, mem_map_of_mem hc, hac⟩
  · rw [(hother q hq).1] at hp'
    rw [(hother q hq).2] at he
    exact h q p' e hp' he c hc a hac

/-- A project that keeps whom it had. -/
theorem Held.setProject {p' : Project} (h : Held db) (hp : db.projects projectId = some p)
    (hkeeps : ∀ a, p.belongs a = true → p'.belongs a = true) : Held (db.setProject projectId p') := by
  intro q p'' e hp'' he c hc a hac
  rw [projects_setProject] at hp''
  split at hp''
  · rename_i hq
    cases hp''
    exact hkeeps a (h q p e (hq ▸ hp) he c hc a hac)
  · exact h q p'' e hp'' he c hc a hac

theorem upsert_keeps {userId : String} {role : ProjectRole} {members : List (String × ProjectRole)}
    (h : members.any (fun m => m.1 = id) = true) :
    (upsert userId role members).any (fun m => m.1 = id) = true := by
  induction members with
  | nil => cases h
  | cons m members ih =>
    rw [upsert]
    split
    · rename_i hm
      simpa [← hm] using h
    · rcases Bool.or_eq_true_iff.mp h with hm | hm
      · simp_all
      · simp [ih hm]

theorem Held.effect {op : Op} (hwf : ∀ p d, db.boards p = some d → WellFormed d) (h : Held db)
    (hfresh : op.Fresh env db) (heff : Effect env db op db') : Held db' := by
  cases heff with
  | @board projectId bop p d d' hp hd hrun =>
    refine h.update projectId p d' (fun q hq => by simp [hq]) (by simpa using hp) (by simp)
      fun a ha => ?_
    exact ((run_tags (hwf _ _ hd) (hfresh _ hd) hrun).1 a ha).elim id (h.assigned hp hd)
  | @releaseAssignee projectId assignee p d d' hd hrun =>
    intro q p' e hp' he c hc a hac
    rw [boards_setBoard] at he
    split at he
    · rename_i hq
      cases he
      have ha := releaseAssignee_assigned hrun ⟨tag c, mem_map_of_mem hc, hac⟩
      exact h.assigned hp' (hq ▸ hd) ha.2
    · exact h q p' e hp' he c hc a hac
  | createProject hnew =>
    refine h.update env.id _ (defaultBoard env.id) (fun q hq => by simp [hq])
      (by rw [projects_setBoard, projects_setProject, if_pos rfl]) (by simp) ?_
    rintro a ⟨t, ht, -⟩
    cases ht
  | archiveProject hp => exact h.setProject hp fun a ha => ha
  | addMember hp =>
    refine h.setProject hp fun a ha => ?_
    cases a with
    | mk kind id =>
      cases kind with
      | person => exact upsert_keeps ha
      | agent => exact ha
  | addAgent hp =>
    refine h.setProject hp fun a ha => ?_
    cases a with
    | mk kind id =>
      cases kind with
      | person => exact ha
      | agent =>
        simp only [Project.belongs, contains_iff_mem] at ha ⊢
        split
        · exact ha
        · exact mem_append_left _ ha
  | @removeMember projectId userId p p' d d' hp hd hp' hrun =>
    refine h.update projectId p' d' (fun q hq => by simp [hq]) (by simp) (by simp)
      fun a ha => ?_
    obtain ⟨hne, hold⟩ := releaseAssignee_assigned hrun ha
    have hbelongs := h.assigned hp hd hold
    subst hp'
    cases a with
    | mk kind id =>
      cases kind with
      | agent => exact hbelongs
      | person =>
        have hid : id ≠ userId := fun hid => hne (by rw [hid])
        simp only [Project.belongs, List.any_eq_true, decide_eq_true_eq, Prod.exists,
          mem_filter] at hbelongs ⊢
        obtain ⟨u, role, hmem, rfl⟩ := hbelongs
        exact ⟨u, role, ⟨hmem, hid⟩, rfl⟩
  | @removeAgent projectId agentId p p' d d' hp hd hp' hrun =>
    refine h.update projectId p' d' (fun q hq => by simp [hq]) (by simp) (by simp)
      fun a ha => ?_
    obtain ⟨hne, hold⟩ := releaseAssignee_assigned hrun ha
    have hbelongs := h.assigned hp hd hold
    subst hp'
    cases a with
    | mk kind id =>
      cases kind with
      | person => exact hbelongs
      | agent =>
        have hid : id ≠ agentId := fun hid => hne (by rw [hid])
        simp only [Project.belongs, contains_iff_mem, mem_filter, decide_eq_true_eq] at hbelongs ⊢
        exact ⟨hbelongs, hid⟩

/-- No call grows a limited column beyond its limit unless it overrides the limit. -/
theorem within_effect {op : Op} (hwf : ∀ p d, db.boards p = some d → WellFormed d)
    (hfresh : op.Fresh env db) (hover : op.override = false) (heff : Effect env db op db')
    (hd : db.boards projectId = some d) (hd' : db'.boards projectId = some d') : Within d d' := by
  have hset : ∀ {q : String} {e e' : Data}, db.boards q = some e → Within e e' →
      (if projectId = q then some e' else db.boards projectId) = some d' → Within d d' := by
    intro q e e' he hwithin hif
    split at hif
    · rename_i hq
      rw [hq, he] at hd
      cases hd
      cases hif
      exact hwithin
    · rw [hd] at hif
      cases hif
      exact within_of_le fun _ => le_rfl
  have hrelease : ∀ {p : Project} {a : BoardActor} {e e' : Data},
      releaseAssignee env p a e = .ok e' → Within e e' := fun h =>
    within_of_le fun k => (tags_release h k).le
  have hsame : db.boards projectId = some d' → Within d d' := by
    intro h
    rw [hd] at h
    cases h
    exact within_of_le fun _ => le_rfl
  cases heff with
  | board hp he hrun =>
    rw [boards_setBoard] at hd'
    exact hset he ((run_tags (hwf _ _ he) (hfresh _ he) hrun).2 hover) hd'
  | releaseAssignee he hrun =>
    rw [boards_setBoard] at hd'
    exact hset he (hrelease hrun) hd'
  | createProject hnew =>
    rw [boards_setBoard] at hd'
    split at hd'
    · rename_i hq
      rw [hq, hnew] at hd
      cases hd
    · exact hsame hd'
  | archiveProject _ => exact hsame hd'
  | addMember _ => exact hsame hd'
  | addAgent _ => exact hsame hd'
  | removeMember _ he _ hrun =>
    rw [boards_setBoard] at hd'
    exact hset he (hrelease hrun) hd'
  | removeAgent _ he _ hrun =>
    rw [boards_setBoard] at hd'
    exact hset he (hrelease hrun) hd'

theorem held_of_reaches (hwf : ∀ p d, start.boards p = some d → WellFormed d)
    (hheld : Held start) (hrun : Reaches start db) : Held db := by
  have hstart : Sound start start ∧ Held start := ⟨⟨hwf, fun p d hd => ⟨d, hd, prefix_refl _⟩⟩, hheld⟩
  refine (hrun.invariant (I := fun db => Sound start db ∧ Held db) hstart ?_).2
  rintro db env op db' ⟨hsound, hheld⟩ hfresh heff
  exact ⟨hsound.effect hfresh heff, hheld.effect hsound.wellFormed hfresh heff⟩

/-- In every state a run reaches, assignees belong to the project of their card,
and the next call, whatever it does, grows no column beyond its limit unless it
was told to override the limit. -/
theorem board_members_and_limits (hwf : ∀ p d, start.boards p = some d → WellFormed d)
    (hheld : Held start) (hrun : Reaches start db) :
    Held db ∧ ∀ env op, op.Fresh env db → op.override = false →
        ∀ projectId d d', db.boards projectId = some d → (step db env op).boards projectId = some d' →
          ∀ col ∈ d'.columns, ∀ limit, col.wipLimit = some limit →
            active d col.id < active d' col.id → active d' col.id ≤ limit := by
  have hsound := sound_of_reaches hwf hrun
  refine ⟨held_of_reaches hwf hheld hrun, fun env op hfresh hover projectId d d' hd hd' => ?_⟩
  unfold step at hd'
  split at hd'
  · rename_i hop
    exact within_effect hsound.wellFormed hfresh hover (effect_of_run hop) hd hd'
  · rw [hd] at hd'
    cases hd'
    exact within_of_le fun _ => le_rfl

section Sample

/-- A member is added, a card is assigned to it and to the owner, and the member
is removed again. -/
def sampleRemoved : Db := step
    (step
      (step
        (step sampleDb (sampleEnv "") (.addMember "p" "bob" .member))
        (sampleEnv "") (.board "p" (.assign "card_1" ⟨.person, "bob"⟩ true sampleActor)))
      (sampleEnv "") (.board "p" (.assign "card_1" sampleActor true sampleActor)))
    (sampleEnv "") (.removeMember "p" "bob")

theorem sampleRemoved_assignees : (sampleRemoved.boards "p").map
    (fun d => d.cards.map (·.assignees)) = some [[sampleActor], []] := by
  decide

theorem board_members_and_limits_removed :
    Held sampleRemoved ∧ (sampleRemoved.boards "p").map (fun d => d.cards.map (·.assignees)) =
      some [[sampleActor], []] := by
  have hheld : Held sampleStart :=
    held_of_reaches (fun _ _ h => by cases h) (fun _ _ _ h => by cases h) reaches_sampleStart
  have hrun : Reaches sampleStart sampleRemoved := by
    refine .step (.step (.step (.step reaches_sampleDb _ _ ?_) _ _ ?_) _ _ ?_) _ _ ?_
    · trivial
    · exact fun _ _ => trivial
    · exact fun _ _ => trivial
    · trivial
  exact ⟨(board_members_and_limits wellFormed_sampleStart hheld hrun).1, sampleRemoved_assignees⟩

end Sample

end Plur1bus.Board
