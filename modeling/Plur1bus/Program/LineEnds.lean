import Mathlib.Data.List.Basic
import Mathlib.Data.Nat.Notation
import Mathlib.Tactic.Common

/-!
Lines that end in LF, CRLF or CR. A reader that gets its text a piece at a time holds a CR back at
the end of a piece, since an LF may follow; what it reads does not depend on the pieces.
-/

namespace Program

open List

def isLineEnd (c : Char) : Bool := c = '\n' || c = '\r'

/-- The lines of a text and what stands after the last of them, where a line was begun before.
Before the end of the text, a CR that nothing follows ends no line yet. -/
def cutLines (final : Bool) : List Char → List Char → List (List Char) × List Char
  | begun, [] => ([], begun)
  | begun, '\n' :: t => (begun :: (cutLines final [] t).1, (cutLines final [] t).2)
  | begun, '\r' :: '\n' :: t => (begun :: (cutLines final [] t).1, (cutLines final [] t).2)
  | begun, '\r' :: d :: t => (begun :: (cutLines final [] (d :: t)).1, (cutLines final [] (d :: t)).2)
  | begun, ['\r'] => if final then ([begun], []) else ([], begun ++ ['\r'])
  | begun, c :: t => cutLines final (begun ++ [c]) t

/-- No character of it ends a line. -/
def Unended (cs : List Char) : Prop := ∀ c ∈ cs, isLineEnd c = false

theorem unended_nil : Unended [] := fun _ h => absurd h not_mem_nil

theorem Unended.snoc {cs : List Char} {c : Char} (h : Unended cs) (hc : isLineEnd c = false) : Unended (cs ++ [c]) := by
  intro d hd
  obtain hd | hd := mem_append.mp hd
  · exact h d hd
  · rwa [mem_singleton.mp hd]

theorem isLineEnd_iff {c : Char} : isLineEnd c = true ↔ c = '\n' ∨ c = '\r' := by
  simp [isLineEnd]

section

variable {final : Bool} {begun : List Char}

theorem cutLines_nil : cutLines final begun [] = ([], begun) := rfl

theorem cutLines_lf (t : List Char) :
    cutLines final begun ('\n' :: t) = (begun :: (cutLines final [] t).1, (cutLines final [] t).2) := rfl

theorem cutLines_crlf (t : List Char) :
    cutLines final begun ('\r' :: '\n' :: t) = (begun :: (cutLines final [] t).1, (cutLines final [] t).2) := rfl

theorem cutLines_cr {d : Char} (hd : d ≠ '\n') (t : List Char) :
    cutLines final begun ('\r' :: d :: t) = (begun :: (cutLines final [] (d :: t)).1, (cutLines final [] (d :: t)).2) :=
  cutLines.eq_4 final begun d t hd

theorem cutLines_last : cutLines true begun ['\r'] = ([begun], []) := rfl

theorem cutLines_held : cutLines false begun ['\r'] = ([], begun ++ ['\r']) := rfl

theorem cutLines_char {c : Char} (hc : isLineEnd c = false) (t : List Char) :
    cutLines final begun (c :: t) = cutLines final (begun ++ [c]) t := by
  simp_all [isLineEnd, cutLines]

/-- Characters that end no line are part of the line that is begun. -/
theorem cutLines_unended {seg : List Char} (hseg : Unended seg) (t : List Char) :
    cutLines final begun (seg ++ t) = cutLines final (begun ++ seg) t := by
  induction seg generalizing begun with
  | nil => rw [nil_append, append_nil]
  | cons c seg ih =>
    have hc := hseg c mem_cons_self
    have hrest : Unended seg := fun d hd => hseg d (mem_cons_of_mem _ hd)
    rw [cons_append, cutLines_char hc, ih hrest, append_assoc, singleton_append]

end

/-- A line that is begun stands at the start of what is left. -/
theorem cutLines_begun {final : Bool} {begun : List Char} (h : Unended begun) (t : List Char) :
    cutLines final [] (begun ++ t) = cutLines final begun t := by
  rw [cutLines_unended h, nil_append]

/-- What is left after a piece goes before the next piece, and the lines are those of the whole. -/
theorem cutLines_append {final : Bool} {begun : List Char} (a b : List Char) (h : Unended begun) :
    cutLines final begun (a ++ b) =
      ((cutLines false begun a).1 ++ (cutLines final [] ((cutLines false begun a).2 ++ b)).1,
        (cutLines final [] ((cutLines false begun a).2 ++ b)).2) := by
  fun_induction cutLines false begun a with
  | case1 begun => rw [nil_append, cutLines_begun h, nil_append]
  | case2 begun t ih => rw [cons_append, cutLines_lf, ih unended_nil, cons_append]
  | case3 begun t ih => rw [cons_append, cons_append, cutLines_crlf, ih unended_nil, cons_append]
  | case4 begun d t hd ih =>
    have ih := ih unended_nil
    rw [cons_append] at ih
    rw [cons_append, cons_append, cutLines_cr hd, ih, cons_append]
  | case5 begun hfalse => cases hfalse
  | case6 begun _ => rw [append_assoc, cutLines_begun h, nil_append]
  | case7 begun c t hlf _ hcr hlast ih =>
    have hc : isLineEnd c = false := by
      rw [Bool.eq_false_iff]
      intro hend
      obtain rfl | rfl := isLineEnd_iff.mp hend
      · exact hlf rfl
      · cases t with
        | nil => exact hlast rfl rfl
        | cons d t => exact hcr d t rfl rfl
    rw [cons_append, cutLines_char hc, ih (h.snoc hc)]

end Program
