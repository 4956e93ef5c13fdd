import Plur1bus.Program.Exec

/-!
What a program answers, whatever the state it starts in. `Answers Q m` says that
every answer of `m` is in `Q`; of a throw it says nothing. Where the state is only
a record of what was done, this is all that later steps rely on.
-/

namespace Program.Prog

variable {ε σ α β : Type}

def Answers (Q : α → Prop) (m : Prog ε σ α) : Prop := ∀ s, wp m (fun a _ => Q a) (fun _ _ => True) s

namespace Answers

variable {Q P : α → Prop} {m : Prog ε σ α}

theorem ok {s t : σ} {a : α} (h : Answers Q m) (hm : m s = (.ok a, t)) : Q a := wp.ok (h s) hm

theorem mono (h : Answers Q m) (hQ : ∀ a, Q a → P a) : Answers P m :=
  fun s => wp_mono (h s) (fun a _ => hQ a) (fun _ _ => id)

theorem any (m : Prog ε σ α) : Answers (fun _ => True) m := fun _ => wp_trivial m

protected theorem pure {a : α} (h : Q a) : Answers Q (pure a : Prog ε σ α) := fun _ => h

protected theorem throw (e : ε) : Answers Q (throw e : Prog ε σ α) := fun _ => trivial

protected theorem ofExcept {r : Except ε α} (h : ∀ a, r = .ok a → Q a) :
    Answers Q (ofExcept r : Prog ε σ α) :=
  fun _ => (wp_ofExcept r).mpr ⟨h, fun _ _ => trivial⟩

variable {f : α → Prog ε σ β}

protected theorem bind {Q : β → Prop} (hm : Answers P m) (hf : ∀ a, P a → Answers Q (f a)) :
    Answers Q (m >>= f) := by
  intro s
  rw [wp_bind]
  exact wp_mono (hm s) (fun a t ha => hf a ha t) (fun _ _ => id)

/-- What comes behind a step that answers nothing of interest. -/
theorem after {Q : β → Prop} (hf : ∀ a, Answers Q (f a)) : Answers Q (m >>= f) :=
  (any m).bind (fun a _ => hf a)

protected theorem ite {p : Prop} [Decidable p] {m' : Prog ε σ α} (h : p → Answers Q m)
    (h' : ¬p → Answers Q m') : Answers Q (if p then m else m') := by
  by_cases hp : p
  · rw [if_pos hp]
    exact h hp
  · rw [if_neg hp]
    exact h' hp

/-- Every answer of a traversal is that of an element of the list. -/
protected theorem traverse {Q : β → Prop} {as : List α} (h : ∀ a ∈ as, Answers Q (f a)) :
    Answers (fun bs => ∀ b ∈ bs, Q b) (traverse f as) := by
  induction as with
  | nil => exact Answers.pure (by simp)
  | cons a as ih =>
    refine (h a List.mem_cons_self).bind (fun b hb => ?_)
    refine (ih (fun a ha => h a (List.mem_cons_of_mem _ ha))).bind (fun bs hbs => ?_)
    refine Answers.pure ?_
    rw [List.forall_mem_cons]
    exact ⟨hb, hbs⟩

end Answers

end Program.Prog
