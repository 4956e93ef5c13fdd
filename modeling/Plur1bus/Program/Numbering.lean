import Mathlib.Data.List.Sort
import Mathlib.Data.List.NodupEquivFin
import Mathlib.Data.List.Perm.Basic

/-!
Items that carry their own place. A group of items is densely numbered when
the numbers on them are `0, 1, …` in some order; sorting by number then lists
the keys of the group, and that list says everything about the numbering: an
item's number is the index of its key. The two directions, `idxOf_keysInOrder`
and `keysInOrder_of_idxOf`, turn a renumbering loop into a statement about
lists of keys.

`insertAt` is the splice of one key into such a list. Taking the key out again
gives the list it was put into, which is how "nothing else changed its relative
order" is said.
-/

namespace Program

variable {α ι : Type} {key : α → ι} {num : α → ℕ} {l : List α}

/-- The numbers on the items are `0, …, n - 1`, in some order. -/
def Dense (num : α → ℕ) (l : List α) : Prop := (l.map num).Perm (List.range l.length)

/-- The items sorted by their number. Equal numbers keep their order. -/
def byNumber (num : α → ℕ) (l : List α) : List α := l.insertionSort (fun a b => num a ≤ num b)

/-- The keys of the items in the order of their numbers. -/
def keysInOrder (key : α → ι) (num : α → ℕ) (l : List α) : List ι := (byNumber num l).map key

theorem byNumber_perm (num : α → ℕ) (l : List α) : (byNumber num l).Perm l := List.perm_insertionSort _ l

theorem byNumber_sorted (num : α → ℕ) (l : List α) :
    (byNumber num l).Pairwise (fun a b => num a ≤ num b) := by
  have : Std.Total (fun a b : α => num a ≤ num b) := ⟨fun a b => le_total (num a) (num b)⟩
  have : IsTrans α (fun a b => num a ≤ num b) := ⟨fun _ _ _ => le_trans⟩
  exact List.pairwise_insertionSort _ l

theorem keysInOrder_perm (key : α → ι) (num : α → ℕ) (l : List α) :
    (keysInOrder key num l).Perm (l.map key) :=
  (byNumber_perm num l).map key

/-- A sort by number and then by something else is a sort by number where the
numbers differ. -/
theorem insertionSort_eq_byNumber (r : α → α → Prop) [DecidableRel r]
    (hn : (l.map num).Nodup) (hr : ∀ a b, num a < num b → r a b)
    (hr' : ∀ a b, num b < num a → ¬r a b) : l.insertionSort r = byNumber num l := by
  induction l with
  | nil => rfl
  | cons a l ih =>
    obtain ⟨hna, hnl⟩ := List.nodup_cons.mp hn
    have hsort : l.insertionSort r = byNumber num l := ih hnl
    -- the first item compares with the others by number, as none of them has its number
    have hcmp : ∀ b ∈ byNumber num l, r a b ↔ num a ≤ num b := by
      intro b hb
      have hb' : b ∈ l := (byNumber_perm num l).mem_iff.mp hb
      have hne : num a ≠ num b := fun h => hna (h ▸ List.mem_map_of_mem hb')
      rcases lt_or_gt_of_ne hne with h | h
      · exact ⟨fun _ => h.le, fun _ => hr a b h⟩
      · exact ⟨fun hab => absurd hab (hr' a b h), fun hab => absurd hab (by omega)⟩
    have hins : ∀ m : List α, (∀ b ∈ m, r a b ↔ num a ≤ num b) →
        m.orderedInsert r a = m.orderedInsert (fun a b => num a ≤ num b) a := by
      intro m hm
      induction m with
      | nil => rfl
      | cons b m ihm => simp_all
    rw [List.insertionSort_cons, hsort, hins _ hcmp]
    rfl

theorem Dense.nodup (h : Dense num l) : (l.map num).Nodup := h.nodup_iff.mpr List.nodup_range

theorem map_num_byNumber (h : Dense num l) : (byNumber num l).map num = List.range l.length := by
  have hperm : ((byNumber num l).map num).Perm (List.range l.length) :=
    ((byNumber_perm num l).map num).trans h
  refine hperm.eq_of_pairwise (fun a b _ _ => le_antisymm) ?_ ?_
  · exact List.pairwise_map.mpr (byNumber_sorted num l)
  · exact List.pairwise_lt_range.imp le_of_lt

/-- Sorting commutes with leaving items out, where the numbers tell them apart. -/
theorem byNumber_filter (h : Dense num l) (p : α → Bool) :
    byNumber num (l.filter p) = (byNumber num l).filter p := by
  have hperm : (byNumber num (l.filter p)).Perm ((byNumber num l).filter p) :=
    (byNumber_perm num _).trans ((byNumber_perm num l).filter p).symm
  refine hperm.eq_of_pairwise (fun a b ha hb hab hba => ?_) (byNumber_sorted num _)
    ((byNumber_sorted num l).filter p)
  have ha' : a ∈ l := List.mem_of_mem_filter ((byNumber_perm num _).mem_iff.mp ha)
  have hb' : b ∈ l := (byNumber_perm num l).mem_iff.mp (List.mem_of_mem_filter hb)
  exact List.inj_on_of_nodup_map h.nodup ha' hb' (le_antisymm hab hba)

/-- Only keys and numbers matter. -/
theorem keysInOrder_map {β : Type} (f : α → β) (key : β → ι) (num : β → ℕ) (l : List α) :
    keysInOrder key num (l.map f) = keysInOrder (fun a => key (f a)) (fun a => num (f a)) l := by
  have hsort : byNumber num (l.map f) = (byNumber (fun a => num (f a)) l).map f :=
    (List.map_insertionSort _ _ f l fun _ _ _ _ => Iff.rfl).symm
  rw [keysInOrder, hsort, List.map_map]
  rfl

section Keys

variable [DecidableEq ι]

/-- Leaving out the item with one key takes that key out of the order. -/
theorem keysInOrder_filter_ne (h : Dense num l) (hk : (l.map key).Nodup) (k : ι) :
    keysInOrder key num (l.filter (fun a => key a ≠ k)) = (keysInOrder key num l).erase k := by
  have hnodup : (keysInOrder key num l).Nodup := (keysInOrder_perm key num l).nodup_iff.mpr hk
  rw [keysInOrder, byNumber_filter h, hnodup.erase_eq_filter, keysInOrder, List.filter_map]
  congr 1
  refine List.filter_congr fun a _ => ?_
  simp [bne, beq_eq_decide]

/-- In a densely numbered group an item's number is its key's index. -/
theorem idxOf_keysInOrder (h : Dense num l) (hk : (l.map key).Nodup) {a : α} (ha : a ∈ l) :
    (keysInOrder key num l).idxOf (key a) = num a := by
  obtain ⟨i, hi, rfl⟩ := List.getElem_of_mem ((byNumber_perm num l).mem_iff.mpr ha)
  have hnodup : (keysInOrder key num l).Nodup := (keysInOrder_perm key num l).nodup_iff.mpr hk
  have hlen : i < (keysInOrder key num l).length := by simpa [keysInOrder] using hi
  have hkey : (keysInOrder key num l)[i] = key (byNumber num l)[i] := by simp [keysInOrder]
  have hnum : num (byNumber num l)[i] = i := by
    have hi' : i < ((byNumber num l).map num).length := by simpa using hi
    have : ((byNumber num l).map num)[i] = i := by
      simp only [map_num_byNumber h, List.getElem_range]
    simpa using this
  rw [hnum, ← hkey, hnodup.idxOf_getElem]

variable {lane : List ι}

/-- Numbers read off a list of the keys are dense, and sorting by them gives
that list back. -/
theorem keysInOrder_of_idxOf (hlane : lane.Nodup) (hperm : (l.map key).Perm lane)
    (hnum : ∀ a ∈ l, num a = lane.idxOf (key a)) : Dense num l ∧ keysInOrder key num l = lane := by
  have hlen : l.length = lane.length := by simpa using hperm.length_eq
  have hself : lane.map (fun k => lane.idxOf k) = List.range lane.length := by
    refine List.ext_getElem (by simp) fun i hi _ => ?_
    have hi' : i < lane.length := by simpa using hi
    simp [hlane.idxOf_getElem i hi']
  have hmap : l.map num = (l.map key).map (fun k => lane.idxOf k) := by
    rw [List.map_map]
    exact List.map_congr_left hnum
  refine ⟨?_, ?_⟩
  · unfold Program.Dense
    rw [hmap, hlen, ← hself]
    exact hperm.map _
  · have hkeys : (keysInOrder key num l).Perm lane := (keysInOrder_perm key num l).trans hperm
    -- both lists are sorted by index in the lane, and the index tells their members apart
    have hsorted : (keysInOrder key num l).Pairwise (fun a b => lane.idxOf a ≤ lane.idxOf b) := by
      refine List.pairwise_map.mpr ((byNumber_sorted num l).imp_of_mem fun {a b} ha hb hab => ?_)
      have ha' := (byNumber_perm num l).mem_iff.mp ha
      have hb' := (byNumber_perm num l).mem_iff.mp hb
      rwa [← hnum a ha', ← hnum b hb']
    have hlaneSorted : lane.Pairwise (fun a b => lane.idxOf a ≤ lane.idxOf b) := by
      refine List.pairwise_iff_getElem.mpr fun i j hi hj hij => ?_
      rw [hlane.idxOf_getElem i hi, hlane.idxOf_getElem j hj]
      exact hij.le
    refine hkeys.eq_of_pairwise (fun a b ha _ hab hba => ?_) hsorted hlaneSorted
    exact (List.idxOf_inj (hkeys.mem_iff.mp ha)).mp (le_antisymm hab hba)

/-! ### Putting one key in -/

/-- `splice(i, 0, k)`. -/
def insertAt (lane : List ι) (i : ℕ) (k : ι) : List ι := lane.take i ++ k :: lane.drop i

theorem insertAt_perm (lane : List ι) (i : ℕ) (k : ι) : (insertAt lane i k).Perm (k :: lane) := by
  have h : (lane.take i ++ k :: lane.drop i).Perm (k :: (lane.take i ++ lane.drop i)) := List.perm_middle
  rwa [List.take_append_drop] at h

variable {k : ι}

theorem insertAt_nodup (i : ℕ) (hl : lane.Nodup) (hk : k ∉ lane) : (insertAt lane i k).Nodup :=
  (insertAt_perm lane i k).nodup_iff.mpr (List.nodup_cons.mpr ⟨hk, hl⟩)

theorem erase_insertAt (i : ℕ) (hk : k ∉ lane) : (insertAt lane i k).erase k = lane := by
  have htake : k ∉ lane.take i := fun h => hk (List.mem_of_mem_take h)
  rw [insertAt, List.erase_append_right _ htake, List.erase_cons_head, List.take_append_drop]

theorem idxOf_insertAt {i : ℕ} (hi : i ≤ lane.length) (hk : k ∉ lane) :
    (insertAt lane i k).idxOf k = i := by
  have htake : k ∉ lane.take i := fun h => hk (List.mem_of_mem_take h)
  rw [insertAt, List.idxOf_append_of_notMem htake, List.idxOf_cons_self, List.length_take]
  omega

theorem insertAt_length (lane : List ι) (k : ι) : insertAt lane lane.length k = lane ++ [k] := by
  simp [insertAt]

end Keys

end Program
