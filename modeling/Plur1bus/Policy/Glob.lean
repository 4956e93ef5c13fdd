import Plur1bus.Policy.Decide
import Plur1bus.Program.Glob

/-!
`globMatch` decides the language of its pattern. The loop remembers one star
only, the last it passed, and the place in the name that star was last tried
up to; the invariant says why that is enough. What the loop has read since the
last star is a literal run, both in the pattern and in the name, and the whole
question is equivalent to the question from that star on. A new star takes
over because a star absorbs anything in front of a suffix it absorbs; a
mismatch moves the remembered place forward by one because the literal run
after the star cannot stand where it was tried.
-/

namespace Plur1bus.Policy

open Program List

section Glob

variable {α : Type} [DecidableEq α] {star : α} {pattern name : List α}

/-- What the loop of `globMatch` keeps. Before the first star the rest of the
pattern has to match the rest of the name. From then on the pattern from the
last star has to match the name from `mark`, and between them and the two
positions lies one and the same literal run. -/
def GlobState (star : α) (pattern name : List α) (p n : ℕ) (last : Option ℕ) (mark : ℕ) : Prop :=
  match last with
  | none => Globs star pattern name ↔ Globs star (pattern.drop p) (name.drop n)
  | some s => ∃ run, star ∉ run ∧ pattern.drop (s + 1) = run ++ pattern.drop p ∧
      name.drop mark = run ++ name.drop n ∧
      (Globs star pattern name ↔ Globs star (star :: pattern.drop (s + 1)) (name.drop mark))

theorem GlobState.start : GlobState star pattern name 0 0 none 0 := by
  simp [GlobState]

variable {last : Option ℕ} {mark : ℕ} {rest : List α}

/-- The question from the last star on, as the invariant keeps it, does not
need the run that was read if another star comes next. -/
theorem GlobState.at_star {p n : ℕ} (h : GlobState star pattern name p n last mark)
    (hp : pattern.drop p = star :: rest) :
    Globs star pattern name ↔ Globs star (star :: rest) (name.drop n) := by
  cases last with
  | none => rw [show Globs star pattern name ↔ _ from h, hp]
  | some s =>
      obtain ⟨run, hrun, hpattern, hname, hiff⟩ := h
      rw [hiff, hpattern, hp, hname]
      constructor
      · intro hglobs
        obtain ⟨front, tail, hsplit, htail⟩ := globs_star.mp hglobs
        obtain ⟨after, rfl, hafter⟩ := (globs_literal_append hrun).mp htail
        -- What is left after the run is a suffix of what was left before.
        have hsuffix : after <:+ name.drop n := by
          have hboth : after <:+ run ++ name.drop n := ⟨front ++ run, by rw [hsplit]; simp⟩
          refine suffix_of_suffix_length_le hboth (suffix_append _ _) ?_
          have hlen := congrArg List.length hsplit
          simp only [length_append] at hlen
          omega
        exact globs_star_of_suffix hsuffix hafter
      · intro hglobs
        exact globs_star.mpr ⟨[], _, rfl, (globs_literal_append hrun).mpr ⟨_, rfl, hglobs⟩⟩

theorem GlobState.pass_star {p n : ℕ} (h : GlobState star pattern name p n last mark)
    (hp : p < pattern.length) (hstar : pattern[p] = star) :
    GlobState star pattern name (p + 1) n (some p) n := by
  have hdrop : pattern.drop p = star :: pattern.drop (p + 1) := by
    rw [drop_eq_getElem_cons hp, hstar]
  exact ⟨[], not_mem_nil, rfl, rfl, h.at_star hdrop⟩

theorem GlobState.pass_literal {p n : ℕ} (h : GlobState star pattern name p n last mark)
    (hp : p < pattern.length) (hn : n < name.length) (hstar : pattern[p] ≠ star)
    (heq : pattern[p] = name[n]) : GlobState star pattern name (p + 1) (n + 1) last mark := by
  have hpattern : pattern.drop p = pattern[p] :: pattern.drop (p + 1) := drop_eq_getElem_cons hp
  have hname : name.drop n = pattern[p] :: name.drop (n + 1) := by
    rw [drop_eq_getElem_cons hn, heq]
  cases last with
  | none =>
      show Globs star pattern name ↔ _
      rw [show Globs star pattern name ↔ _ from h, hpattern, hname, globs_literal hstar]
      simp
  | some s =>
      obtain ⟨run, hrun, hread, hmark, hiff⟩ := h
      refine ⟨run ++ [pattern[p]], ?_, ?_, ?_, hiff⟩
      · simp [hrun, Ne.symm hstar]
      · rw [hread, hpattern]; simp
      · rw [hmark, hname]; simp

/-- The pattern cannot go on at `p` with the name at `n`. -/
def Stuck (star : α) (pattern name : List α) (p n : ℕ) : Prop := ¬ Globs star (pattern.drop p) (name.drop n)

theorem stuck_of_ne {p n : ℕ} (hp : p < pattern.length) (hn : n < name.length)
    (hstar : pattern[p] ≠ star) (hne : pattern[p] ≠ name[n]) : Stuck star pattern name p n := by
  rw [Stuck, drop_eq_getElem_cons hp, drop_eq_getElem_cons hn, globs_literal hstar]
  rintro ⟨rest, hrest, _⟩
  simp only [List.cons.injEq] at hrest
  exact hne hrest.1.symm

theorem stuck_of_end {p n : ℕ} (hp : ¬ p < pattern.length) (hn : n < name.length) :
    Stuck star pattern name p n := by
  rw [Stuck, drop_eq_nil_of_le (by omega), globs_nil]
  intro hnil
  have := drop_eq_nil_iff.mp hnil
  omega

/-- On a mismatch the star takes one symbol more. -/
theorem GlobState.back_up {p n s : ℕ} (h : GlobState star pattern name p n (some s) mark)
    (hstuck : Stuck star pattern name p n) (hmark : mark < name.length) :
    GlobState star pattern name (s + 1) (mark + 1) (some s) (mark + 1) := by
  obtain ⟨run, hrun, hread, hname, hiff⟩ := h
  refine ⟨[], not_mem_nil, rfl, rfl, ?_⟩
  have hhere : ¬ Globs star (pattern.drop (s + 1)) (name.drop mark) := by
    rw [hread, hname, globs_literal_append hrun]
    rintro ⟨rest, hrest, hglobs⟩
    exact hstuck (append_cancel_left hrest ▸ hglobs)
  rw [hiff]
  rw [drop_eq_getElem_cons hmark] at hhere ⊢
  rw [globs_star_cons]
  exact ⟨fun hor => hor.resolve_left hhere, .inr⟩

/-- With the name used up, only stars may be left. -/
theorem GlobState.at_end {p n : ℕ} (h : GlobState star pattern name p n last mark)
    (hn : ¬ n < name.length) : Globs star pattern name ↔ Globs star (pattern.drop p) [] := by
  have hnil : name.drop n = [] := drop_eq_nil_of_le (by omega)
  cases last with
  | none => rw [show Globs star pattern name ↔ _ from h, hnil]
  | some s =>
      obtain ⟨run, hrun, hread, hname, hiff⟩ := h
      rw [hiff, hread, hname, hnil, append_nil]
      constructor
      · intro hglobs
        obtain ⟨front, tail, hsplit, htail⟩ := globs_star.mp hglobs
        obtain ⟨after, rfl, hafter⟩ := (globs_literal_append hrun).mp htail
        -- The run is all that was left, so nothing stands before or after it.
        have hlen := congrArg List.length hsplit
        simp only [length_append] at hlen
        have hafterNil : after = [] := eq_nil_of_length_eq_zero (by omega)
        exact hafterNil ▸ hafter
      · intro hglobs
        exact globs_star.mpr ⟨[], run, rfl, (globs_literal_append hrun).mpr ⟨[], by simp, hglobs⟩⟩

/-- What a run of the loop says of the pattern, from any state it can be in. -/
theorem globLoop_decides {p n : ℕ} (hle : mark ≤ n) (h : GlobState star pattern name p n last mark) :
    (∃ q, globLoop star pattern name p n last mark hle = some q ∧ Globs star (pattern.drop q) []) ↔
      Globs star pattern name := by
  induction p, n, last, mark, hle using globLoop.induct star pattern name with
  | case1 p n last mark hle hn hp hstar ih =>
      rw [globLoop.eq_def, dif_pos hn, dif_pos hp, if_pos hstar]
      exact ih (h.pass_star hp hstar)
  | case2 p n last mark hle hn hp hstar heq ih =>
      rw [globLoop.eq_def, dif_pos hn, dif_pos hp, if_neg hstar, if_pos heq]
      exact ih (h.pass_literal hp hn hstar heq)
  | case3 p n mark hle hn hp hstar hne s ih =>
      rw [globLoop.eq_def, dif_pos hn, dif_pos hp, if_neg hstar, if_neg hne]
      exact ih (h.back_up (stuck_of_ne hp hn hstar hne) (by omega))
  | case4 p n mark hle hn hp hstar hne =>
      rw [globLoop.eq_def, dif_pos hn, dif_pos hp, if_neg hstar, if_neg hne]
      have hstuck := stuck_of_ne hp hn hstar hne
      rw [show Globs star pattern name ↔ _ from h]
      exact ⟨fun hex => (by cases hex.choose_spec.1), fun hglobs => absurd hglobs hstuck⟩
  | case5 p n mark hle hn hp s ih =>
      rw [globLoop.eq_def, dif_pos hn, dif_neg hp]
      exact ih (h.back_up (stuck_of_end hp hn) (by omega))
  | case6 p n mark hle hn hp =>
      rw [globLoop.eq_def, dif_pos hn, dif_neg hp]
      rw [show Globs star pattern name ↔ _ from h]
      exact ⟨fun hex => (by cases hex.choose_spec.1), fun hglobs => absurd hglobs (stuck_of_end hp hn)⟩
  | case7 p n last mark hle hn =>
      rw [globLoop.eq_def, dif_neg hn, h.at_end hn]
      simp

theorem all_stars_iff : rest.all (· = star) = true ↔ Globs star rest [] := by
  rw [globs_empty_word]
  simp

/-- A name matches a pattern exactly when the pattern's literal runs stand in
it in their order with arbitrary runs for the stars, which is what the
recursive reading of the pattern says too. -/
theorem globMatch_iff_globs (star : α) (pattern name : List α) :
    (globMatch star pattern name = true ↔ Globs star pattern name) ∧ (globMatch star pattern name = true ↔
        ∃ runs, runs.length + 1 = (literalRuns star pattern).length ∧
          name = weave (literalRuns star pattern) runs) := by
  have hdecides : globMatch star pattern name = true ↔ Globs star pattern name := by
    rw [← globLoop_decides le_rfl GlobState.start]
    unfold globMatch
    cases globLoop star pattern name 0 0 none 0 le_rfl with
    | none => simp
    | some p => simp only [all_stars_iff, Option.some.injEq, exists_eq_left']
  exact ⟨hdecides, hdecides.trans globs_iff_weave⟩

end Glob

end Plur1bus.Policy
