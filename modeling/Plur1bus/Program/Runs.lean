import Mathlib.Logic.Basic
import Mathlib.Tactic.Common

/-!
Runs of a machine that takes one act after another. `List.foldl act s as` is the
state after the acts `as`; `Along act C s as` says that `C` holds of every act in
the state it is taken in. What each act keeps, if it meets `C`, every run along
`C` keeps, and what each such act guarantees from there holds along the run.
-/

namespace Program

open List

variable {σ α : Type} {act : σ → α → σ} {C D : σ → α → Prop} {I : σ → Prop} {s : σ} {as : List α}

/-- Every act of the run meets the condition in the state it is taken in. -/
def Along (act : σ → α → σ) (C : σ → α → Prop) : σ → List α → Prop
  | _, [] => True
  | s, a :: as => C s a ∧ Along act C (act s a) as

namespace Along

instance instDecidable [∀ s a, Decidable (C s a)] : ∀ s as, Decidable (Along act C s as)
  | _, [] => .isTrue trivial
  | s, a :: as =>
    have := instDecidable (act s a) as
    inferInstanceAs (Decidable (_ ∧ _))

theorem append {bs : List α} :
    Along act C s (as ++ bs) ↔ Along act C s as ∧ Along act C (as.foldl act s) bs := by
  induction as generalizing s with
  | nil => simp [Along]
  | cons a as ih => simp [Along, ih, and_assoc]

/-- The condition holds of an act in the middle of the run. -/
theorem middle {before after : List α} {a : α} (h : Along act C s (before ++ a :: after)) :
    C (before.foldl act s) a := (append.mp h).2.1

theorem and (h : Along act C s as) (h' : Along act D s as) : Along act (fun s a => C s a ∧ D s a) s as := by
  induction as generalizing s with
  | nil => trivial
  | cons a as ih => exact ⟨⟨h.1, h'.1⟩, ih h.2 h'.2⟩

theorem keeps (hstep : ∀ s a, I s → C s a → I (act s a)) (hs : I s) (h : Along act C s as) :
    I (as.foldl act s) := by
  induction as generalizing s with
  | nil => exact hs
  | cons a as ih => exact ih (hstep s a hs h.1) h.2

theorem mono (hstep : ∀ s a, I s → C s a → I (act s a)) (hD : ∀ s a, I s → C s a → D s a)
    (hs : I s) (h : Along act C s as) : Along act D s as := by
  induction as generalizing s with
  | nil => trivial
  | cons a as ih => exact ⟨hD s a hs h.1, ih (hstep s a hs h.1) h.2⟩

end Along

/-! ### States on the way -/

/-- Every state the run passes through, the first and the last included. -/
def Throughout (act : σ → α → σ) (P : σ → Prop) (s : σ) (as : List α) : Prop :=
  ∀ before, before <+: as → P (before.foldl act s)

namespace Throughout

variable {P Q : σ → Prop}

theorem nil : Throughout act P s [] ↔ P s := ⟨fun h => h [] prefix_rfl, fun h before hb => by
    rw [prefix_nil.mp hb]
    exact h⟩

theorem cons {a : α} : Throughout act P s (a :: as) ↔ P s ∧ Throughout act P (act s a) as := by
  constructor
  · intro h
    exact ⟨h [] List.nil_prefix, fun before hb => h (a :: before) (cons_prefix_cons.mpr ⟨rfl, hb⟩)⟩
  · rintro ⟨hs, h⟩ before hb
    cases before with
    | nil => exact hs
    | cons b before =>
      obtain ⟨rfl, hrest⟩ := cons_prefix_cons.mp hb
      exact h before hrest

theorem append {bs : List α} : Throughout act P s (as ++ bs) ↔
    Throughout act P s as ∧ Throughout act P (as.foldl act s) bs := by
  induction as generalizing s with
  | nil =>
    rw [nil_append, nil]
    exact ⟨fun h => ⟨h [] List.nil_prefix, h⟩, fun h => h.2⟩
  | cons a as ih => rw [cons_append, cons, cons, ih, foldl_cons, and_assoc]

theorem mono (hPQ : ∀ s, P s → Q s) (h : Throughout act P s as) : Throughout act Q s as :=
  fun before hb => hPQ _ (h before hb)

theorem last (h : Throughout act P s as) : P (as.foldl act s) := h as prefix_rfl

end Throughout

/-- What every act of the run keeps holds on the way. -/
theorem Along.throughout (hstep : ∀ s a, I s → C s a → I (act s a)) (hs : I s)
    (h : Along act C s as) : Throughout act I s as := by
  rintro before ⟨after, rfl⟩
  exact (Along.append.mp h).1.keeps hstep hs

end Program
