import Mathlib.Data.Int.Notation
import Mathlib.Data.List.Basic
import Mathlib.Tactic.Common

/-!
Linked logs: entries with consecutive numbers, each of which names its
predecessor's digest and carries its own. Nothing is assumed of the digest;
where one is collision-free on the inputs that occur, a linked log whose
entries all come from another one is a prefix of it (`Linked.eq_take`).
-/

namespace Program

open List

/-- How an entry shows its number, its predecessor's digest and its own, and
how the latter is computed. -/
structure LinkShape (E H : Type) where
  seq : E → ℤ
  prev : E → H
  own : E → H
  digest : H → E → H

section

variable {E H : Type} (c : LinkShape E H)

/-- `es` continues a log whose next number is `n` and whose last digest is `p`. -/
def Linked : ℤ → H → List E → Prop
  | _, _, [] => True
  | n, p, e :: es => c.seq e = n ∧ c.prev e = p ∧ c.own e = c.digest p e ∧ Linked (n + 1) (c.own e) es

/-- The digest a log ends on. -/
def lastOwn (p : H) (es : List E) : H := (es.getLast?.map c.own).getD p

variable {c}

@[simp] theorem lastOwn_nil (p : H) : lastOwn c p [] = p := rfl

@[simp] theorem lastOwn_cons (p : H) (e : E) (es : List E) :
    lastOwn c p (e :: es) = lastOwn c (c.own e) es := by
  cases es with
  | nil => rfl
  | cons e' es => simp [lastOwn, List.getLast?_cons]

variable {n : ℤ} {p : H}

theorem linked_append (as bs : List E) : Linked c n p (as ++ bs) ↔
      Linked c n p as ∧ Linked c (n + as.length) (lastOwn c p as) bs := by
  induction as generalizing n p with
  | nil => simp [Linked]
  | cons a as ih =>
      have hlen : n + 1 + (as.length : ℤ) = n + ((a :: as).length : ℤ) := by
        simp only [length_cons, Int.natCast_add, Int.cast_ofNat_Int]
        omega
      simp only [cons_append, Linked, lastOwn_cons, ih, hlen, and_assoc]

/-- A log grows by an entry that follows its last one. -/
theorem Linked.snoc {n : ℤ} {p : H} {es : List E} (h : Linked c n p es) {e : E}
    (hseq : c.seq e = n + es.length) (hprev : c.prev e = lastOwn c p es)
    (hown : c.own e = c.digest (lastOwn c p es) e) : Linked c n p (es ++ [e]) := by
  rw [linked_append]
  exact ⟨h, hseq, hprev, hown, trivial⟩

variable {es : List E}

theorem Linked.seq_getElem (h : Linked c n p es) (i : ℕ) (hi : i < es.length) : c.seq es[i] = n + i := by
  induction es generalizing n p i with
  | nil => simp at hi
  | cons e es ih =>
      cases i with
      | zero => simpa using h.1
      | succ i =>
          have hi' : i < es.length := by simpa using hi
          have := ih h.2.2.2 i hi'
          simp only [getElem_cons_succ, Int.natCast_add, Int.cast_ofNat_Int]
          omega

theorem Linked.seq_lt (h : Linked c n p es) {e : E} (he : e ∈ es) : c.seq e < n + es.length := by
  obtain ⟨i, hi, rfl⟩ := getElem_of_mem he
  rw [h.seq_getElem i hi]
  omega

theorem Linked.digest_mem (h : Linked c n p es) {e : E} (he : e ∈ es) :
    c.own e = c.digest (c.prev e) e := by
  induction es generalizing n p with
  | nil => simp at he
  | cons a es ih =>
      rcases mem_cons.mp he with rfl | he
      · rw [h.2.1]
        exact h.2.2.1
      · exact ih h.2.2.2 he

/-- A linked log made of entries of another one, from the same start, is a
prefix of it. -/
theorem Linked.eq_take {p' : H} {rs : List E} (hes : Linked c n p es) (hrs : Linked c n p' rs)
    (hmem : ∀ r ∈ rs, r ∈ es) : rs.length ≤ es.length ∧ rs = es.take rs.length := by
  -- an entry of both sits at the same place in both
  have hplace : ∀ i (hi : i < rs.length), ∃ hi' : i < es.length, es[i] = rs[i] := by
    intro i hi
    obtain ⟨j, hj, hji⟩ := getElem_of_mem (hmem rs[i] (getElem_mem hi))
    have hseq := hes.seq_getElem j hj
    rw [hji, hrs.seq_getElem i hi] at hseq
    have hij : i = j := by omega
    subst hij
    exact ⟨hj, hji⟩
  have hlen : rs.length ≤ es.length := by grind
  refine ⟨hlen, ext_getElem (by simp [hlen]) ?_⟩
  intro i hi _
  obtain ⟨_, hi'⟩ := hplace i hi
  rw [getElem_take, hi']

end

end Program
