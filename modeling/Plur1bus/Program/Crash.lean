import Plur1bus.Program.Exec
import Mathlib.Data.List.Basic

/-!
Programs that can be cut off. The state is a disk; a program reads it freely
and changes it one effect at a time. A world counts down to a crash: the
effect it reaches is left undone, or half done as its `part` says, and nothing
runs after it. What a program throws can be caught, a crash cannot.
-/

namespace Program

/-- A disk, the effects until the crash (`none` when there is none), how much of
the interrupted effect still reaches the disk, and the effects so far. -/
structure World (D E : Type) where
  disk : D
  left : Option ℕ := none
  torn : ℕ := 0
  log : List E := []

inductive Stop (ε : Type)
  | crash
  | thrown (e : ε)
  deriving DecidableEq, Repr

namespace World

variable {D E : Type}

/-- The world after an effect. -/
def after (w : World D E) (e : E) (whole : D → D) : World D E :=
  { w with disk := whole w.disk, left := w.left.map (· - 1), log := w.log ++ [e] }

end World

variable {D E ε α : Type}

/-- One effect on the disk; `part n` is what `n` units of it leave when it is
interrupted. -/
def effect (e : E) (whole : D → D) (part : ℕ → D → D) : Prog (Stop ε) (World D E) Unit := fun w =>
  if w.left = some 0 then (.error .crash, { w with disk := part w.torn w.disk })
  else (.ok (), w.after e whole)

def raise (e : ε) : Prog (Stop ε) (World D E) α := Prog.throw (.thrown e)

def raiseError : Except ε α → Prog (Stop ε) (World D E) α
  | .ok a => pure a
  | .error e => raise e

/-- Answers what `m` throws. -/
def attempt (m : Prog (Stop ε) (World D E) α) : Prog (Stop ε) (World D E) (Except ε α) :=
  Prog.tryCatch (do let a ← m; pure (.ok a)) fun
    | .crash => Prog.throw .crash
    | .thrown e => pure (.error e)

/-- Answers what `m` throws, and turns the step the countdown names into one that
fails with `failed`: what follows runs, and no second step fails. -/
def recover (failed : ε) (m : Prog (Stop ε) (World D E) α) :
    Prog (Stop ε) (World D E) (Except ε α) := fun w =>
  match m w with
  | (.ok a, w') => (.ok (.ok a), w')
  | (.error (.thrown e), w') => (.ok (.error e), w')
  | (.error .crash, w') => (.ok (.error failed), { w' with left := none })

open Prog

variable {X : Stop ε → World D E → Prop} {w : World D E}

theorem wp_effect {e : E} {whole : D → D} {part : ℕ → D → D} {Q : Unit → World D E → Prop} :
    wp (effect e whole part) Q X w ↔ (w.left = some 0 → X .crash { w with disk := part w.torn w.disk }) ∧
        (w.left ≠ some 0 → Q () (w.after e whole)) := by
  unfold wp effect
  by_cases h : w.left = some 0 <;> simp [h]

theorem wp_raise {e : ε} {Q : α → World D E → Prop} : wp (raise e) Q X w ↔ X (.thrown e) w := Iff.rfl

variable {m : Prog (Stop ε) (World D E) α} {Q : Except ε α → World D E → Prop}

theorem wp_attempt : wp (attempt m) Q X w ↔
      wp m (fun a t => Q (.ok a) t) (fun e t => (e = .crash → X .crash t) ∧
        ∀ e', e = .thrown e' → Q (.error e') t) w := by
  unfold attempt
  rw [wp_tryCatch, wp_bind]
  constructor
  · intro h
    refine wp_mono h (fun _ _ ht => ht) ?_
    intro e t ht
    cases e with
    | crash => exact ⟨fun _ => ht, nofun⟩
    | thrown e => exact ⟨nofun, fun e' he => by cases he; exact ht⟩
  · intro h
    refine wp_mono h (fun _ _ ht => ht) ?_
    intro e t ht
    cases e with
    | crash => exact ht.1 rfl
    | thrown e => exact ht.2 e rfl

theorem wp_recover {failed : ε} : wp (recover failed m) Q X w ↔ wp m (fun a t => Q (.ok a) t) (fun e t =>
        (e = .crash → Q (.error failed) { t with left := none }) ∧
          ∀ e', e = .thrown e' → Q (.error e') t) w := by
  unfold recover wp
  rcases hm : m w with ⟨(_ | e) | a, t⟩ <;> simp [hm]

/-! ### Counting effects -/

/-- From `w` to `w'` there were `k` effects, and none of them was interrupted. -/
structure Passed (w w' : World D E) (k : ℕ) : Prop where
  left : w'.left = w.left.map (· - k)
  whole : ∀ i < k, w.left ≠ some i
  torn : w'.torn = w.torn

namespace Passed

variable {w w' w'' : World D E} {j k : ℕ}

theorem refl (w : World D E) : Passed w w 0 where
  left := by cases w.left <;> simp
  whole := nofun
  torn := rfl

/-- The countdown before the effects. -/
theorem left_eq (h : Passed w w' k) (hj : w'.left = some j) : w.left = some (k + j) := by
  rw [h.left] at hj
  obtain ⟨n, hn, hsub⟩ := Option.map_eq_some_iff.mp hj
  have hk : k ≤ n := by
    by_contra hlt
    exact h.whole n (by omega) hn
  rw [hn]
  congr 1
  omega

theorem trans (h : Passed w w' j) (h' : Passed w' w'' k) : Passed w w'' (j + k) where
  left := by
    rw [h'.left, h.left, Option.map_map]
    congr 1
    funext n
    simp only [Function.comp]
    omega
  whole := by
    intro i hi hleft
    by_cases hj : i < j
    · exact h.whole i hj hleft
    · refine h'.whole (i - j) (by omega) ?_
      rw [h.left, hleft]
      rfl
  torn := h'.torn.trans h.torn

theorem after (e : E) (whole : D → D) (hleft : w.left ≠ some 0) : Passed w (w.after e whole) 1 where
  left := rfl
  whole := by
    intro i hi
    rw [show i = 0 by omega]
    exact hleft
  torn := rfl

theorem of_none (h : Passed w w' k) (hleft : w.left = none) : w'.left = none := by
  rw [h.left, hleft]
  rfl

end Passed

end Program
