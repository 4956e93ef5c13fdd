import Mathlib.Data.List.Basic

/-!
The language of glob patterns over an alphabet with one distinguished symbol,
the star. It is given twice: by recursion along the pattern (`Globs`), where a
star gives away some run of the word and any other symbol must head it, and at
once for the whole pattern (`globs_iff_weave`): the literal runs between the
stars, in their order, with arbitrary runs put between them.

Two facts carry every matcher of such patterns. A literal run in front of a
pattern has to stand in front of the word (`globs_literal_append`), and a star
that absorbs a word's suffix absorbs every longer one (`globs_star_of_suffix`):
the second is why a matcher may forget all stars but the last.
-/

namespace Program

open List

variable {α : Type} [DecidableEq α] {star : α}

/-- A star stands for some run, every other symbol for itself. -/
def Globs (star : α) : List α → List α → Prop
  | [], word => word = []
  | c :: pattern, word =>
      if c = star then ∃ run rest, word = run ++ rest ∧ Globs star pattern rest
      else ∃ rest, word = c :: rest ∧ Globs star pattern rest

variable {word : List α}

@[simp] theorem globs_nil : Globs star [] word ↔ word = [] := Iff.rfl

variable {pattern : List α}

theorem globs_star :
    Globs star (star :: pattern) word ↔ ∃ run rest, word = run ++ rest ∧ Globs star pattern rest := by
  simp [Globs]

theorem globs_literal {c : α} (hc : c ≠ star) :
    Globs star (c :: pattern) word ↔ ∃ rest, word = c :: rest ∧ Globs star pattern rest := by
  simp [Globs, hc]

theorem globs_literal_append : ∀ {run word : List α}, star ∉ run →
      (Globs star (run ++ pattern) word ↔ ∃ rest, word = run ++ rest ∧ Globs star pattern rest)
  | [], word, _ => by simp
  | c :: run, word, h => by
      have hc : c ≠ star := fun he => h (he ▸ mem_cons_self)
      have hrun : star ∉ run := fun he => h (mem_cons_of_mem _ he)
      rw [cons_append, globs_literal hc]
      constructor
      · rintro ⟨rest, rfl, hrest⟩
        obtain ⟨tail, rfl, htail⟩ := (globs_literal_append hrun).mp hrest
        exact ⟨tail, rfl, htail⟩
      · rintro ⟨tail, rfl, htail⟩
        exact ⟨run ++ tail, rfl, (globs_literal_append hrun).mpr ⟨tail, rfl, htail⟩⟩

/-- A star that absorbs a suffix of a word absorbs the word. -/
theorem globs_star_of_suffix {rest : List α} (hsuffix : rest <:+ word)
    (h : Globs star (star :: pattern) rest) : Globs star (star :: pattern) word := by
  obtain ⟨front, rfl⟩ := hsuffix
  obtain ⟨run, tail, rfl, htail⟩ := globs_star.mp h
  exact globs_star.mpr ⟨front ++ run, tail, by simp, htail⟩

/-- A star gives its run back one symbol at a time. -/
theorem globs_star_cons {c : α} : Globs star (star :: pattern) (c :: word) ↔
      Globs star pattern (c :: word) ∨ Globs star (star :: pattern) word := by
  constructor
  · intro h
    obtain ⟨run, rest, hword, hrest⟩ := globs_star.mp h
    cases run with
    | nil =>
        rw [nil_append] at hword
        exact .inl (hword ▸ hrest)
    | cons d run =>
        obtain ⟨_, rfl⟩ : c = d ∧ word = run ++ rest := by simpa using hword
        exact .inr (globs_star.mpr ⟨run, rest, rfl, hrest⟩)
  · rintro (h | h)
    · exact globs_star.mpr ⟨[], c :: word, rfl, h⟩
    · exact globs_star_of_suffix (suffix_cons c word) h

theorem globs_empty_word : Globs star pattern [] ↔ ∀ c ∈ pattern, c = star := by
  induction pattern with
  | nil => simp
  | cons c pattern ih =>
      by_cases hc : c = star
      · subst hc
        rw [globs_star]
        simp [ih]
      · rw [globs_literal hc]
        simp [hc]

/-! ### The whole pattern at once -/

/-- The literal runs with the runs of the stars put between them. -/
def weave : List (List α) → List (List α) → List α
  | literal :: literals, run :: runs => literal ++ run ++ weave literals runs
  | literals, _ => literals.flatten

/-- The maximal literal runs of a pattern. -/
def literalRuns (star : α) (pattern : List α) : List (List α) := pattern.splitOn star

theorem literalRuns_ne_nil (pattern : List α) : literalRuns star pattern ≠ [] := splitOnP_ne_nil _ _

/-- A pattern matches the words made of its literal runs, in their order, with
one arbitrary run for each star. -/
theorem globs_iff_weave : Globs star pattern word ↔
      ∃ runs, runs.length + 1 = (literalRuns star pattern).length ∧
        word = weave (literalRuns star pattern) runs := by
  induction pattern generalizing word with
  | nil =>
      have hnil : literalRuns star ([] : List α) = [[]] := by
        simp [literalRuns, List.splitOn]
      simp [hnil, weave]
  | cons c pattern ih =>
      obtain ⟨literal, literals, hsplit⟩ :=
        exists_cons_of_ne_nil (literalRuns_ne_nil pattern : literalRuns star pattern ≠ [])
      by_cases hc : c = star
      · subst hc
        have hcons : literalRuns c (c :: pattern) = [] :: literalRuns c pattern := by
          simp [literalRuns, List.splitOn, splitOnP_cons_eq_if_modifyHead]
        rw [globs_star, hcons]
        constructor
        · rintro ⟨run, rest, rfl, hrest⟩
          obtain ⟨runs, hlen, rfl⟩ := ih.mp hrest
          exact ⟨run :: runs, by simp [hlen], by simp [weave]⟩
        · rintro ⟨runs, hlen, rfl⟩
          cases runs with
          | nil => simp [hsplit] at hlen
          | cons run runs =>
              have hruns : runs.length + 1 = (literalRuns c pattern).length := by simpa using hlen
              exact ⟨run, _, by simp [weave], ih.mpr ⟨runs, hruns, rfl⟩⟩
      · have hcons : literalRuns star (c :: pattern) = (c :: literal) :: literals := by
          simp only [literalRuns, List.splitOn] at hsplit ⊢
          simp [splitOnP_cons_eq_if_modifyHead, hc, hsplit]
        rw [globs_literal hc, hcons]
        rw [hsplit] at ih
        have hweave : ∀ runs, weave ((c :: literal) :: literals) runs = c :: weave (literal :: literals) runs := by
          intro runs
          cases runs <;> simp [weave]
        constructor
        · grind
        · rintro ⟨runs, hlen, rfl⟩
          exact ⟨_, hweave runs, ih.mpr ⟨runs, hlen, rfl⟩⟩

end Program
