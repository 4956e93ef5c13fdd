import Mathlib.Logic.Basic
import Mathlib.Tactic.Common

/-!
Programs that update a state and may throw. A throw keeps the state it was
raised in: undoing what was done before it is the business of whoever catches
it, and that is exactly the point where the programs verified with this file
go wrong or do not.

`Prog.wp m Q E s` says how `m` ends when it starts in `s`: in `Q` with its
answer, or in `E` with what it threw. The rules are equivalences, so unfolding
a program and rewriting with them runs it symbolically, and a callee is stepped
over with its own specification through `wp_mono`.

`Prog.Keeps I m` is the special case of an invariant that holds at every exit;
it is closed under every construct, so a composed program keeps what its
primitives keep.
-/

namespace Program

variable {ε σ α β : Type}

/-- A program over the state `σ` that answers an `α` or throws an `ε`. -/
def Prog (ε σ α : Type) : Type := σ → Except ε α × σ

namespace Prog

protected def pure (a : α) : Prog ε σ α := fun s => (.ok a, s)

protected def bind (m : Prog ε σ α) (f : α → Prog ε σ β) : Prog ε σ β := fun s =>
  match m s with
  | (.ok a, t) => f a t
  | (.error e, t) => (.error e, t)

instance : Monad (Prog ε σ) where
  pure := Prog.pure
  bind := Prog.bind

def throw (e : ε) : Prog ε σ α := fun s => (.error e, s)

def ofExcept : Except ε α → Prog ε σ α
  | .ok a => Prog.pure a
  | .error e => throw e

def gets (f : σ → α) : Prog ε σ α := fun s => (.ok (f s), s)

def modify (f : σ → σ) : Prog ε σ Unit := fun s => (.ok (), f s)

def tryCatch (m : Prog ε σ α) (h : ε → Prog ε σ α) : Prog ε σ α := fun s =>
  match m s with
  | (.ok a, t) => (.ok a, t)
  | (.error e, t) => h e t

/-- Runs `f` over the state at either exit of `m`. -/
def finallyModify (m : Prog ε σ α) (f : σ → σ) : Prog ε σ α := fun s =>
  match m s with
  | (r, t) => (r, f t)

/-- Runs `f` at each element in turn and collects the answers. -/
def traverse (f : α → Prog ε σ β) : List α → Prog ε σ (List β)
  | [] => pure []
  | a :: as => do
    let b ← f a
    let bs ← traverse f as
    pure (b :: bs)

/-! ### How a program ends -/

def wp (m : Prog ε σ α) (Q : α → σ → Prop) (E : ε → σ → Prop) (s : σ) : Prop :=
  match m s with
  | (.ok a, t) => Q a t
  | (.error e, t) => E e t

section Rules

variable {Q : α → σ → Prop} {E : ε → σ → Prop} {s : σ}

@[simp] theorem wp_pure (a : α) : wp (pure a : Prog ε σ α) Q E s ↔ Q a s := Iff.rfl

@[simp] theorem wp_throw (e : ε) : wp (throw e : Prog ε σ α) Q E s ↔ E e s := Iff.rfl

@[simp] theorem wp_gets (f : σ → α) : wp (gets f : Prog ε σ α) Q E s ↔ Q (f s) s := Iff.rfl

@[simp] theorem wp_modify {Q : Unit → σ → Prop} (f : σ → σ) :
    wp (modify f : Prog ε σ Unit) Q E s ↔ Q () (f s) := Iff.rfl

@[simp] theorem wp_bind {Q : β → σ → Prop} (m : Prog ε σ α) (f : α → Prog ε σ β) :
    wp (m >>= f) Q E s ↔ wp m (fun a t => wp (f a) Q E t) E s := by
  change wp (Prog.bind m f) Q E s ↔ _
  unfold wp Prog.bind
  rcases m s with ⟨_ | _, t⟩ <;> rfl

@[simp] theorem wp_tryCatch (m : Prog ε σ α) (h : ε → Prog ε σ α) :
    wp (tryCatch m h) Q E s ↔ wp m Q (fun e t => wp (h e) Q E t) s := by
  unfold wp tryCatch
  rcases m s with ⟨_ | _, t⟩ <;> rfl

@[simp] theorem wp_finallyModify (m : Prog ε σ α) (f : σ → σ) :
    wp (finallyModify m f) Q E s ↔ wp m (fun a t => Q a (f t)) (fun e t => E e (f t)) s := by
  unfold wp finallyModify
  rcases m s with ⟨_ | _, t⟩ <;> rfl

theorem wp_ofExcept (r : Except ε α) : wp (ofExcept r : Prog ε σ α) Q E s ↔
      (∀ a, r = .ok a → Q a s) ∧ (∀ e, r = .error e → E e s) := by
  cases r with
  | ok a => simp [ofExcept, wp, Prog.pure]
  | error e => simp [ofExcept, wp, throw]

@[simp] theorem wp_ite {p : Prop} [Decidable p] (m m' : Prog ε σ α) :
    wp (if p then m else m') Q E s ↔ (p → wp m Q E s) ∧ (¬p → wp m' Q E s) := by
  by_cases hp : p <;> simp [hp]

variable {m : Prog ε σ α} {Q' : α → σ → Prop} {E' : ε → σ → Prop}

theorem wp_mono (h : wp m Q E s) (hQ : ∀ a t, Q a t → Q' a t) (hE : ∀ e t, E e t → E' e t) :
    wp m Q' E' s := by
  unfold wp at h ⊢
  rcases hm : m s with ⟨_ | _, t⟩ <;> rw [hm] at h
  · exact hE _ _ h
  · exact hQ _ _ h

theorem wp_congr {m' : Prog ε σ α} (h : m s = m' s) : wp m Q E s ↔ wp m' Q E s := by
  unfold wp
  rw [h]

theorem wp_trivial (m : Prog ε σ α) : wp m (fun _ _ => True) (fun _ _ => True) s := by
  unfold wp
  rcases m s with ⟨_ | _, t⟩ <;> trivial

/-- A continuation that holds wherever it starts holds after any program. -/
theorem wp_of_forall (hQ : ∀ a t, Q a t) (hE : ∀ e t, E e t) : wp m Q E s :=
  wp_mono (wp_trivial m) (fun a t _ => hQ a t) fun e t _ => hE e t

theorem wp_and (h : wp m Q E s) (h' : wp m Q' E' s) :
    wp m (fun a t => Q a t ∧ Q' a t) (fun e t => E e t ∧ E' e t) s := by
  unfold wp at h h' ⊢
  rcases hm : m s with ⟨_ | _, t⟩ <;> rw [hm] at h h' <;> exact ⟨h, h'⟩

theorem wp_self (m : Prog ε σ α) :
    wp m (fun a t => m s = (.ok a, t)) (fun e t => m s = (.error e, t)) s := by
  unfold wp
  rcases m s with ⟨_ | _, t⟩ <;> rfl

theorem wp.ok (h : wp m Q E s) {a : α} {t : σ} (hm : m s = (.ok a, t)) : Q a t := by
  unfold wp at h
  rw [hm] at h
  exact h

theorem wp.error (h : wp m Q E s) {e : ε} {t : σ} (hm : m s = (.error e, t)) : E e t := by
  unfold wp at h
  rw [hm] at h
  exact h

end Rules

/-! ### Invariants -/

/-- `m` ends in `I` at either exit when it starts in `I`. -/
def Keeps (I : σ → Prop) (m : Prog ε σ α) : Prop := ∀ s, I s → I (m s).2

section Keeps

variable {I : σ → Prop}

variable {m : Prog ε σ α}

theorem wp_snd {s : σ} : wp m (fun _ => I) (fun _ => I) s ↔ I (m s).2 := by
  unfold wp
  rcases m s with ⟨_ | _, t⟩ <;> rfl

theorem keeps_iff_wp : Keeps I m ↔ ∀ s, I s → wp m (fun _ => I) (fun _ => I) s := by
  simp only [wp_snd, Keeps]

theorem Keeps.pure (a : α) : Keeps I (pure a : Prog ε σ α) := fun _ hs => hs

theorem Keeps.throw (e : ε) : Keeps I (throw e : Prog ε σ α) := fun _ hs => hs

theorem Keeps.gets (f : σ → α) : Keeps I (gets f : Prog ε σ α) := fun _ hs => hs

theorem Keeps.ofExcept (r : Except ε α) : Keeps I (ofExcept r : Prog ε σ α) := by
  cases r with
  | ok a => exact fun _ hs => hs
  | error e => exact fun _ hs => hs

variable {f : σ → σ}

theorem Keeps.modify (h : ∀ s, I s → I (f s)) : Keeps I (modify f : Prog ε σ Unit) := h

theorem Keeps.bind {f : α → Prog ε σ β} (hm : Keeps I m) (hf : ∀ a, Keeps I (f a)) : Keeps I (m >>= f) := by
  rw [keeps_iff_wp] at hm ⊢
  intro s hs
  rw [wp_bind]
  exact wp_mono (hm s hs) (fun a t ht => keeps_iff_wp.mp (hf a) t ht) fun _ _ ht => ht

theorem Keeps.ite {p : Prop} [Decidable p] {m' : Prog ε σ α} (hm : Keeps I m) (hm' : Keeps I m') :
    Keeps I (if p then m else m') := by
  split
  · exact hm
  · exact hm'

theorem Keeps.tryCatch {h : ε → Prog ε σ α} (hm : Keeps I m) (hh : ∀ e, Keeps I (h e)) :
    Keeps I (tryCatch m h) := by
  rw [keeps_iff_wp] at hm ⊢
  intro s hs
  rw [wp_tryCatch]
  exact wp_mono (hm s hs) (fun _ _ ht => ht) fun e t ht => keeps_iff_wp.mp (hh e) t ht

theorem Keeps.finallyModify (hm : Keeps I m) (hf : ∀ s, I s → I (f s)) : Keeps I (finallyModify m f) := by
  intro s hs
  exact hf _ (hm s hs)

theorem Keeps.traverse {f : α → Prog ε σ β} (hf : ∀ a, Keeps I (f a)) (as : List α) :
    Keeps I (traverse f as) := by
  induction as with
  | nil => exact Keeps.pure _
  | cons a as ih => exact (hf a).bind fun _ => ih.bind fun _ => Keeps.pure _

end Keeps

end Prog

end Program
