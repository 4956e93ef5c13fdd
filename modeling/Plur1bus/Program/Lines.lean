import Mathlib.Data.List.Basic
import Mathlib.Tactic.Common

/-!
Files of terminated lines. A file is a list of symbols; a line is complete
when a separator ends it, and what follows the last separator is the fragment
an interrupted write leaves. `content` lays lines out, `afterLast` finds where
the complete part ends.
-/

namespace Program.Lines

open List

variable {α : Type}

/-- The lines, each with its separator. -/
def content (sep : α) (ls : List (List α)) : List α := ls.flatMap (· ++ [sep])

/-- The place after the last separator, or the start. -/
def afterLast [DecidableEq α] (sep : α) (b : List α) : ℕ :=
  (b.reverse.dropWhile (fun a => !decide (a = sep))).length

section

variable {sep : α}

@[simp] theorem content_nil : content sep [] = [] := rfl

@[simp] theorem content_append (as bs : List (List α)) :
    content sep (as ++ bs) = content sep as ++ content sep bs := by
  simp [content]

theorem content_snoc (as : List (List α)) (l : List α) :
    content sep (as ++ [l]) = content sep as ++ l ++ [sep] := by
  simp [content]

theorem content_cons (l : List α) (ls : List (List α)) :
    content sep (l :: ls) = l ++ sep :: content sep ls := by
  simp [content]

variable [DecidableEq α]

/-- Every file is lines and a fragment. -/
theorem exists_content (sep : α) (b : List α) :
    ∃ ls frag, b = content sep ls ++ frag ∧ (∀ l ∈ ls, sep ∉ l) ∧ sep ∉ frag := by
  induction b with
  | nil => exact ⟨[], [], rfl, by simp, by simp⟩
  | cons a b ih =>
      obtain ⟨ls, frag, rfl, hls, hfrag⟩ := ih
      by_cases ha : a = sep
      · refine ⟨[] :: ls, frag, ?_, ?_, hfrag⟩
        · rw [content_cons, ha]
          rfl
        · simpa using hls
      · cases ls with
        | nil =>
            refine ⟨[], a :: frag, rfl, by simp, ?_⟩
            simpa [hfrag] using fun h => ha h.symm
        | cons l ls =>
            refine ⟨(a :: l) :: ls, frag, by simp [content_cons], ?_, hfrag⟩
            intro l' hl'
            rcases mem_cons.mp hl' with rfl | hl'
            · have hl := hls l (mem_cons_self ..)
              simpa [hl] using fun h => ha h.symm
            · exact hls l' (mem_cons_of_mem _ hl')

theorem dropWhile_ne_of_not_mem {l r : List α} (h : sep ∉ l) :
    (l ++ r).dropWhile (fun a => !decide (a = sep)) = r.dropWhile (fun a => !decide (a = sep)) := by
  induction l with
  | nil => rfl
  | cons a l ih =>
      rw [mem_cons, not_or] at h
      have ha : a ≠ sep := fun heq => h.1 heq.symm
      simp [ha, ih h.2]

variable {frag : List α}

theorem afterLast_append {b : List α} (h : sep ∉ frag) : afterLast sep (b ++ frag) = afterLast sep b := by
  unfold afterLast
  rw [reverse_append, dropWhile_ne_of_not_mem (by simpa using h)]

@[simp] theorem afterLast_snoc (b : List α) : afterLast sep (b ++ [sep]) = b.length + 1 := by
  simp [afterLast]

/-- The complete part of a file is its content. -/
theorem afterLast_content (ls : List (List α)) (h : sep ∉ frag) :
    afterLast sep (content sep ls ++ frag) = (content sep ls).length := by
  rw [afterLast_append h]
  rcases eq_nil_or_concat ls with rfl | ⟨ls, l, rfl⟩
  · rfl
  · rw [concat_eq_append, content_snoc, afterLast_snoc]
    simp only [length_append, length_singleton]

/-- What follows the complete part is the fragment. -/
theorem drop_afterLast (ls : List (List α)) (h : sep ∉ frag) :
    (content sep ls ++ frag).drop (afterLast sep (content sep ls ++ frag)) = frag := by
  rw [afterLast_content ls h, drop_left]

variable {ls : List (List α)}

/-- Splitting a file gives its lines and the fragment after the last separator. -/
theorem splitOn_content_append (h : ∀ l ∈ ls, sep ∉ l) (hfrag : sep ∉ frag) :
    (content sep ls ++ frag).splitOn sep = ls ++ [frag] := by
  induction ls with
  | nil => exact splitOn_eq_singleton hfrag
  | cons l ls ih =>
      have hl : sep ∉ l := h l (mem_cons_self ..)
      have hls := ih fun l' hl' => h l' (mem_cons_of_mem _ hl')
      rw [content_cons, append_assoc, cons_append, splitOn_append_cons_self_of_not_mem hl, hls]
      rfl

/-- The piece after the last separator of complete lines is empty. -/
theorem splitOn_content (h : ∀ l ∈ ls, sep ∉ l) : (content sep ls).splitOn sep = ls ++ [[]] := by
  have hsplit := splitOn_content_append h (not_mem_nil (a := sep))
  rwa [append_nil] at hsplit

/-- A file's content starts with its first line. -/
theorem takeWhile_content {l : List α} (ls : List (List α)) (h : sep ∉ l) :
    (content sep (l :: ls)).takeWhile (fun a => !decide (a = sep)) = l := by
  have hall : ∀ a ∈ l, (!decide (a = sep)) = true := by
    intro a ha
    have : a ≠ sep := fun heq => h (heq ▸ ha)
    simp [this]
  rw [content_cons, takeWhile_append_of_pos hall]
  simp

/-! ### Finding separators -/

/-- The place of the last separator. -/
def lastIdxOf? (sep : α) (b : List α) : Option ℕ := (b.reverse.idxOf? sep).map fun k => b.length - 1 - k

/-- A list has no separator, or is cut by `idxOf?` at its first one. -/
theorem idxOf?_cases (sep : α) (b : List α) : (sep ∉ b ∧ b.idxOf? sep = none) ∨
    ∃ x y, b = x ++ sep :: y ∧ sep ∉ x ∧ b.idxOf? sep = some x.length := by
  induction b with
  | nil => exact .inl ⟨not_mem_nil, rfl⟩
  | cons a b ih =>
      by_cases ha : a = sep
      · refine .inr ⟨[], b, by rw [ha]; rfl, not_mem_nil, ?_⟩
        rw [List.idxOf?_cons, if_pos (by simpa using ha)]
        rfl
      · grind

/-- A list has no separator, or is cut by `lastIdxOf?` at its last one. -/
theorem lastIdxOf?_cases (sep : α) (b : List α) : (sep ∉ b ∧ lastIdxOf? sep b = none) ∨
    ∃ x y, b = x ++ sep :: y ∧ sep ∉ y ∧ lastIdxOf? sep b = some x.length := by
  unfold lastIdxOf?
  obtain ⟨hno, hnone⟩ | ⟨x, y, hb, hx, hsome⟩ := idxOf?_cases sep b.reverse
  · exact .inl ⟨by simpa using hno, by rw [hnone]; rfl⟩
  · have hrev : b = y.reverse ++ sep :: x.reverse := by
      have h := congrArg List.reverse hb
      simpa using h
    refine .inr ⟨y.reverse, x.reverse, hrev, by simpa using hx, ?_⟩
    rw [hsome, Option.map_some]
    have hlen := congrArg List.length hrev
    simp only [length_append, length_cons, length_reverse] at hlen
    rw [length_reverse]
    congr 1
    omega

end

end Program.Lines
