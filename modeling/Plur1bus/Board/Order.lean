import Plur1bus.Board.Store

/-!
The order of a board. Columns stand at their array index, the cards of a column
are numbered densely, and the logs number their entries.

What a mutation does to the cards is said through `order d k`, the card ids of
column `k` from top to bottom. `place` takes the moved id out of every column
and puts it into the target at the index asked for, cut to the column's size;
every other mutation leaves every column as it is. The positions the code
stores are the indices in these lists, so the loops that renumber two columns
are the two equations about them.
-/

namespace Plur1bus.Board

open Program List

/-! ### Calls that answer -/

theorem push_ok {α : Type} {l l' : List α} {a : α} :
    push l a = .ok l' ↔ l.length < MAX_ARRAY ∧ l' = l ++ [a] := by
  unfold push
  split <;> simp_all [eq_comm]

variable {d : Data} {id : String}

theorem column_ok {c : BoardColumn} (h : column d id = .ok c) : c ∈ d.columns ∧ c.id = id := by
  unfold column at h
  split at h
  · rename_i c' hc
    cases h
    exact ⟨mem_of_find?_eq_some hc, by simpa using List.find?_some hc⟩
  · cases h

theorem card_ok {c : BoardCard} (h : card d id = .ok c) : c ∈ d.cards ∧ c.id = id := by
  unfold card at h
  split at h
  · rename_i c' hc
    cases h
    exact ⟨mem_of_find?_eq_some hc, by simpa using List.find?_some hc⟩
  · cases h

/-- Where an accepted position argument points. -/
def spot (position : Option Number) (size : ℕ) : ℕ :=
  match position with
  | some (.int n) => min n.toNat size
  | _ => size

theorem index_ok {position : Option Number} {size i : ℕ} (h : index position size = .ok i) :
    i = spot position size ∧ i ≤ size := by
  unfold index at h
  split at h
  · cases h
    exact ⟨rfl, le_rfl⟩
  · rename_i n
    split at h
    · rename_i k hk
      cases h
      cases n with
      | other => simp [Number.safeFrom] at hk
      | int n =>
        simp only [Number.safeFrom, Option.ite_none_right_eq_some, Option.some.injEq] at hk
        exact ⟨by rw [← hk.2]; rfl, Nat.min_le_right _ _⟩
    · cases h

/-! ### The order of a column -/

/-- The ids of the cards of a column, from top to bottom. -/
def order (d : Data) (columnId : String) : List String :=
  keysInOrder (·.id) (·.position) (inColumn d columnId)

def cardIds (d : Data) : List String := d.cards.map (·.id)

/-- The ids of a log: its entries numbered from one on, as many as an array holds. -/
def Numbered (ids : List String) : Prop :=
  ids = (List.range ids.length).map (fun i => seqId (i + 1)) ∧ ids.length ≤ MAX_ARRAY

structure WellFormed (d : Data) : Prop where
  columnPositions : d.columns.map (·.position) = List.range d.columns.length
  columnIds : (d.columns.map (·.id)).Nodup
  cardIds : (cardIds d).Nodup
  columnOf : ∀ c ∈ d.cards, c.columnId ∈ d.columns.map (·.id)
  dense : ∀ k, Dense (·.position) (inColumn d k)
  activity : Numbered (d.activity.map (·.id))
  comments : Numbered (d.comments.map (·.id))

theorem nodup_inColumn (hd : (cardIds d).Nodup) (k : String) : ((inColumn d k).map (·.id)).Nodup :=
  hd.sublist (filter_sublist.map _)

theorem mem_order (hd : (cardIds d).Nodup) {x : BoardCard} (hx : x ∈ d.cards) (k : String) :
    x.id ∈ order d k ↔ x.columnId = k := by
  have hperm : (order d k).Perm ((inColumn d k).map (·.id)) := keysInOrder_perm _ _ _
  rw [hperm.mem_iff, mem_map]
  constructor
  · rintro ⟨y, hy, hyx⟩
    obtain ⟨hy, hk⟩ := mem_filter.mp hy
    have : y = x := inj_on_of_nodup_map hd hy hx hyx
    exact this ▸ of_decide_eq_true hk
  · intro hk
    exact ⟨x, mem_filter.mpr ⟨hx, decide_eq_true hk⟩, rfl⟩

theorem exists_of_mem_order {k : String} (h : id ∈ order d k) : ∃ x ∈ d.cards, x.id = id := by
  have hperm : (order d k).Perm ((inColumn d k).map (·.id)) := keysInOrder_perm _ _ _
  obtain ⟨x, hx, hid⟩ := mem_map.mp (hperm.mem_iff.mp h)
  exact ⟨x, mem_of_mem_filter hx, hid⟩

/-- A column read off a change to every card: if after the change the cards of
`k` are those of a list of ids and each is numbered by its index there, then the
column is dense and that list is its order. -/
theorem order_of_map {d' : Data} {f : BoardCard → BoardCard} (hd : (cardIds d).Nodup)
    (hcards : d'.cards = d.cards.map f) (hid : ∀ x, (f x).id = x.id) {lane : List String}
    (hlane : lane.Nodup) {k : String} (hmem : ∀ x ∈ d.cards, (f x).columnId = k ↔ x.id ∈ lane)
    (hsub : ∀ id ∈ lane, ∃ x ∈ d.cards, x.id = id)
    (hpos : ∀ x ∈ d.cards, x.id ∈ lane → (f x).position = lane.idxOf x.id) :
    Dense (·.position) (inColumn d' k) ∧ order d' k = lane := by
  have hfilter : inColumn d' k = (d.cards.filter (fun x => (f x).columnId = k)).map f := by
    rw [inColumn, hcards, filter_map]
    rfl
  have hids : (inColumn d' k).map (·.id) = (d.cards.filter (fun x => (f x).columnId = k)).map (·.id) := by
    rw [hfilter, List.map_map]
    exact map_congr_left fun x _ => hid x
  have hnodup : ((inColumn d' k).map (·.id)).Nodup := by
    rw [hids]
    exact hd.sublist (filter_sublist.map _)
  refine keysInOrder_of_idxOf hlane ?_ ?_
  · grind
  · grind

/-! ### Placing a card -/

/-- What `place` leaves: `c` stands in column `k` at index `i`, every column
has lost `c` and is otherwise in its old order. -/
structure Placed (d d' : Data) (c : BoardCard) (k : String) (i : ℕ) : Prop where
  columns : d'.columns = d.columns
  activity : d'.activity = d.activity
  comments : d'.comments = d.comments
  cards : ∃ position : BoardCard → ℕ, d'.cards = d.cards.map (fun x =>
    { x with columnId := if x.id = c.id then k else x.columnId, position := position x })
  dense : ∀ j, Dense (·.position) (inColumn d' j)
  bound : i ≤ (others d k c).length
  target : order d' k = insertAt (keysInOrder (·.id) (·.position) (others d k c)) i c.id
  rest : ∀ j, j ≠ k → order d' j = (order d j).erase c.id

section Place

variable {P : Platform} {d d' : Data} {c : BoardCard} {k : String} {position : Option Number}

/-- The card object after its column was set and one list was numbered. -/
def relocate (c : BoardCard) (k : String) (lane : List String) (x : BoardCard) : BoardCard := { x with
    columnId := if x.id = c.id then k else x.columnId
    position := if x.id ∈ lane then lane.idxOf x.id else x.position }

theorem renumber_setCard (lane : List String) :
    renumber lane (setCard d c.id (fun x => { x with columnId := k })).cards =
      d.cards.map (relocate c k lane) := by
  unfold renumber setCard
  rw [List.map_map]
  refine map_congr_left fun x _ => ?_
  simp only [Function.comp_apply, relocate]
  by_cases hx : x.id = c.id
  · simp only [hx, if_true]
    split <;> rfl
  · simp only [hx, if_false]
    split <;> rfl

variable {x : BoardCard}

theorem mem_others (hd : (cardIds d).Nodup) (hx : x ∈ d.cards) :
    x.id ∈ (others d k c).map (·.id) ↔ x.columnId = k ∧ x.id ≠ c.id := by
  rw [mem_map]
  constructor
  · rintro ⟨y, hy, hyx⟩
    obtain ⟨hy, hne⟩ := mem_filter.mp hy
    obtain ⟨hy, hk⟩ := mem_filter.mp hy
    have : y = x := inj_on_of_nodup_map hd hy hx hyx
    exact this ▸ ⟨of_decide_eq_true hk, of_decide_eq_true hne⟩
  · rintro ⟨hk, hne⟩
    refine ⟨x, mem_filter.mpr ⟨mem_filter.mpr ⟨hx, ?_⟩, ?_⟩, rfl⟩
    · exact decide_eq_true hk
    · exact decide_eq_true hne

theorem insertionSort_before (hn : ((others d k c).map (·.position)).Nodup) :
    (others d k c).insertionSort (before P) = byNumber (·.position) (others d k c) := by
  refine insertionSort_eq_byNumber (before P) hn (fun a b h => .inl h) ?_
  rintro a b h (hab | ⟨hab, -⟩) <;> omega

/-- The column left behind, before it is numbered anew: the moved card is gone
and nothing else has changed. -/
theorem left_eq (hd : (cardIds d).Nodup) (hold : c.columnId ≠ k) {lane : List String}
    (hlane : ∀ x ∈ d.cards, x.id ∈ lane → x.columnId = k ∨ x.id = c.id) :
    (d.cards.map (relocate c k lane)).filter (fun x => x.columnId = c.columnId) =
      others d c.columnId c := by
  rw [filter_map, others, inColumn, filter_filter]
  have hpred : d.cards.filter ((fun x => decide (x.columnId = c.columnId)) ∘ relocate c k lane) =
      d.cards.filter (fun x => decide (x.id ≠ c.id) && decide (x.columnId = c.columnId)) := by
    refine filter_congr fun x _ => ?_
    by_cases hx : x.id = c.id
    · simp [relocate, hx, hold.symm]
    · simp [relocate, hx]
  rw [hpred]
  refine (map_congr_left fun x hx => ?_).trans (map_id _)
  obtain ⟨hx, hk⟩ := mem_filter.mp hx
  obtain ⟨hne, hcol⟩ : x.id ≠ c.id ∧ x.columnId = c.columnId := by simpa using hk
  have hnot : x.id ∉ lane := by
    intro h
    rcases hlane x hx h with h | h
    · exact hold (hcol.symm.trans h)
    · exact hne h
  simp [relocate, hne, hnot]

/-- The ids of the target column with the moved one put in. -/
def lane (d : Data) (k : String) (c : BoardCard) (i : ℕ) : List String :=
  insertAt (keysInOrder (·.id) (·.position) (others d k c)) i c.id

variable {i : ℕ}

theorem mem_lane (hd : (cardIds d).Nodup) (hx : x ∈ d.cards) :
    x.id ∈ lane d k c i ↔ x.id = c.id ∨ x.columnId = k := by
  rw [lane, (insertAt_perm _ _ _).mem_iff, mem_cons, (keysInOrder_perm _ _ _).mem_iff, mem_others hd hx]
  by_cases hxc : x.id = c.id <;> simp [hxc]

theorem nodup_lane (hd : (cardIds d).Nodup) (i : ℕ) : (lane d k c i).Nodup := by
  have hperm := keysInOrder_perm (·.id) (·.position) (others d k c)
  refine insertAt_nodup i ?_ ?_
  · exact hperm.nodup_iff.mpr (hd.sublist ((filter_sublist.trans filter_sublist).map _))
  · intro h
    obtain ⟨x, hx, hid⟩ := mem_map.mp (hperm.mem_iff.mp h)
    exact of_decide_eq_true (mem_filter.mp hx).2 hid

theorem exists_of_mem_lane (hc : c.id ∈ cardIds d) {id : String} (h : id ∈ lane d k c i) :
    ∃ x ∈ d.cards, x.id = id := by
  rcases mem_cons.mp ((insertAt_perm _ _ _).mem_iff.mp h) with rfl | h
  · exact mem_map.mp hc
  · obtain ⟨x, hx, hid⟩ := mem_map.mp ((keysInOrder_perm _ _ _).mem_iff.mp h)
    exact ⟨x, mem_of_mem_filter (mem_of_mem_filter hx), hid⟩

theorem mem_erase_order (hd : (cardIds d).Nodup) (hx : x ∈ d.cards) (j : String) :
    x.id ∈ (order d j).erase c.id ↔ x.id ≠ c.id ∧ x.columnId = j := by
  have hnodup : (order d j).Nodup := (keysInOrder_perm _ _ _).nodup_iff.mpr (nodup_inColumn hd j)
  rw [hnodup.mem_erase_iff, mem_order hd hx]

/-- A numbering of the target by `lane` and of every other column by its old
order without `c` is what `Placed` asks for. -/
theorem placed_of_numbering (hd : (cardIds d).Nodup) (hc : c.id ∈ cardIds d)
    (hbound : i ≤ (others d k c).length) {number : BoardCard → ℕ}
    (hd' : d' = { d with cards := d.cards.map (fun x =>
      { x with columnId := if x.id = c.id then k else x.columnId, position := number x }) })
    (hlane : ∀ x ∈ d.cards, x.id ∈ lane d k c i → number x = (lane d k c i).idxOf x.id)
    (hrest : ∀ x ∈ d.cards, x.id ≠ c.id → x.columnId ≠ k →
      number x = ((order d x.columnId).erase c.id).idxOf x.id) : Placed d d' c k i := by
  have hcards := congrArg Data.cards hd'
  have htarget : Dense (·.position) (inColumn d' k) ∧ order d' k = lane d k c i := by
    refine order_of_map hd hcards (fun _ => rfl) (nodup_lane hd i) (fun x hx => ?_)
      (fun _ h => exists_of_mem_lane hc h) hlane
    rw [mem_lane hd hx]
    by_cases hxc : x.id = c.id <;> simp [hxc]
  have hothers : ∀ j, j ≠ k → Dense (·.position) (inColumn d' j) ∧ order d' j = (order d j).erase c.id := by
    intro j hj
    have hnodup : (order d j).Nodup := (keysInOrder_perm _ _ _).nodup_iff.mpr (nodup_inColumn hd j)
    refine order_of_map hd hcards (fun _ => rfl) (hnodup.erase _) (fun x hx => ?_)
      (fun _ h => exists_of_mem_order (mem_of_mem_erase h)) (fun x hx hmem => ?_)
    · rw [mem_erase_order hd hx]
      by_cases hxc : x.id = c.id <;> simp [hxc, hj.symm]
    · obtain ⟨hne, rfl⟩ := (mem_erase_order hd hx j).mp hmem
      exact hrest x hx hne hj
  exact
    { columns := by rw [hd']
      activity := by rw [hd']
      comments := by rw [hd']
      cards := ⟨number, hcards⟩
      dense := fun j => by
        by_cases hj : j = k
        · exact hj ▸ htarget.1
        · exact (hothers j hj).1
      bound := hbound
      target := htarget.2
      rest := fun j hj => (hothers j hj).2 }

/-- `c` may be an older copy of a card of the board, as long as it has the
card's column. -/
theorem place_ok (hd : (cardIds d).Nodup) {y : BoardCard} (hy : y ∈ d.cards) (hid : y.id = c.id)
    (hcol : y.columnId = c.columnId)
    (hdense : ∀ j, j ≠ k → Dense (·.position) (inColumn d j))
    (hn : ((others d k c).map (·.position)).Nodup) (h : place P d c k position = .ok d') :
    k ∈ d.columns.map (·.id) ∧ Placed d d' c k (spot position (others d k c).length) := by
  obtain ⟨col, hfound, h⟩ := bind_ok.mp h
  obtain ⟨i, hi, h⟩ := bind_ok.mp h
  obtain ⟨hmem, hk⟩ := column_ok hfound
  have hc : c.id ∈ cardIds d := hid ▸ mem_map_of_mem hy
  refine ⟨mem_map.mpr ⟨col, hmem, hk⟩, ?_⟩
  change index position ((others d k c).insertionSort (before P)).length = _ at hi
  have hlen : (byNumber (·.position) (others d k c)).length = (others d k c).length :=
    (byNumber_perm _ _).length_eq
  rw [insertionSort_before hn, hlen] at hi
  obtain ⟨hspot, hbound⟩ := index_ok hi
  rw [← hspot]
  have hcards : renumber (insertAt (((others d k c).insertionSort (before P)).map (·.id)) i c.id)
      (setCard d c.id (fun x => { x with columnId := k })).cards =
        d.cards.map (relocate c k (lane d k c i)) := by
    rw [insertionSort_before hn]
    exact renumber_setCard _
  -- outside the target a card has the index it had in its own column
  have hindex : ∀ x ∈ d.cards, x.columnId ≠ k →
      (order d x.columnId).idxOf x.id = x.position := fun x hx hk =>
    idxOf_keysInOrder (hdense _ hk) (nodup_inColumn hd _)
      (mem_filter.mpr ⟨hx, decide_eq_true rfl⟩)
  have hnotLane : ∀ x ∈ d.cards, x.id ≠ c.id → x.columnId ≠ k → x.id ∉ lane d k c i :=
    fun x hx hne hk h => ((mem_lane hd hx).mp h).elim hne hk
  have hkeep : ∀ x ∈ d.cards, x.columnId ≠ c.columnId →
      (order d x.columnId).erase c.id = order d x.columnId := fun x hx hk =>
    erase_of_not_mem fun h =>
      hk (((mem_order hd hy _).mp (hid ▸ h)).symm.trans hcol)
  change (if c.columnId = k then _ else _) = _ at h
  split at h
  · rename_i hsame
    rw [hcards] at h
    refine placed_of_numbering hd hc hbound (Except.ok.inj h).symm (fun x _ hx => if_pos hx) fun x hx hne hk => ?_
    rw [if_neg (hnotLane x hx hne hk), hkeep x hx (hsame ▸ hk), hindex x hx hk]
  · rename_i hother
    dsimp only at h
    rw [hcards, left_eq hd hother fun x hx h => ((mem_lane hd hx).mp h).symm] at h
    have hleft : keysInOrder (·.id) (·.position) (others d c.columnId c) =
        (order d c.columnId).erase c.id :=
      keysInOrder_filter_ne (hdense _ hother) (nodup_inColumn hd _) c.id
    rw [hleft] at h
    have hboth : renumber ((order d c.columnId).erase c.id)
        (d.cards.map (relocate c k (lane d k c i))) = d.cards.map (fun x =>
          { x with
            columnId := if x.id = c.id then k else x.columnId
            position := if x.id ∈ (order d c.columnId).erase c.id then
                ((order d c.columnId).erase c.id).idxOf x.id
              else if x.id ∈ lane d k c i then (lane d k c i).idxOf x.id else x.position }) := by
      rw [renumber, List.map_map]
      refine map_congr_left fun x _ => ?_
      by_cases hx : x.id ∈ (order d c.columnId).erase c.id <;>
        simp only [Function.comp_apply, relocate, hx, if_true, if_false]
    rw [hboth] at h
    refine placed_of_numbering hd hc hbound (Except.ok.inj h).symm (fun x hx hl => ?_) fun x hx hne hk => ?_
    · have hnot : x.id ∉ (order d c.columnId).erase c.id := by
        rw [mem_erase_order hd hx]
        rintro ⟨hne, hcol⟩
        exact ((mem_lane hd hx).mp hl).elim hne fun hk => hother (hcol.symm.trans hk)
      rw [if_neg hnot, if_pos hl]
    · by_cases hcol : x.columnId = c.columnId
      · rw [hcol, if_pos ((mem_erase_order hd hx _).mpr ⟨hne, hcol⟩)]
      · have hnot : x.id ∉ (order d c.columnId).erase c.id := fun h =>
          hcol ((mem_erase_order hd hx _).mp h).2
        rw [if_neg hnot, if_neg (hnotLane x hx hne hk), hkeep x hx hcol, hindex x hx hk]

end Place

end Plur1bus.Board
