import Plur1bus.Program.Crash

/-!
Programs that can be cut off, judged by what they leave on the disk.
`Triple P m Q R C` says that `m`, started on a disk in `P`, answers on a disk in `Q`,
throws on one in `R`, and is cut off only on one in `C`, and that it is cut off only
if a countdown is running. One derivation carries the three ends together; the crash
condition `C` and the failure condition `R` are the same through a whole program, so
only the middle condition changes from step to step.

`leaves m d n torn` is the disk after `m` with a crash at its `n`-th effect, or after
all of `m` if it has fewer.
-/

namespace Program

variable {D E ε α β : Type}

def Triple (P : D → Prop) (m : Prog (Stop ε) (World D E) α) (Q : α → D → Prop)
    (R : ε → D → Prop) (C : D → Prop) : Prop :=
  ∀ w, P w.disk → Prog.wp m
    (fun a t => Q a t.disk ∧ (w.left = none → t.left = none))
    (fun e t => (e = .crash → C t.disk ∧ w.left ≠ none) ∧
      ∀ x, e = .thrown x → R x t.disk ∧ (w.left = none → t.left = none)) w

namespace Triple

variable {P P' : D → Prop} {m : Prog (Stop ε) (World D E) α} {Q Q' : α → D → Prop}
  {R R' : ε → D → Prop} {C C' : D → Prop} {S : β → D → Prop}

theorem mono (h : Triple P m Q R C) (hP : ∀ d, P' d → P d) (hQ : ∀ a d, Q a d → Q' a d)
    (hR : ∀ e d, R e d → R' e d) (hC : ∀ d, C d → C' d) : Triple P' m Q' R' C' := by
  intro w hw
  refine Prog.wp_mono (h w (hP _ hw)) ?_ ?_
  · intro a t ht
    exact ⟨hQ a _ ht.1, ht.2⟩
  · simp_all

theorem pre (h : Triple P m Q R C) (hP : ∀ d, P' d → P d) : Triple P' m Q R C :=
  h.mono hP (fun _ _ => id) (fun _ _ => id) (fun _ => id)

theorem post (h : Triple P m Q R C) (hQ : ∀ a d, Q a d → Q' a d) : Triple P m Q' R C :=
  h.mono (fun _ => id) hQ (fun _ _ => id) (fun _ => id)

theorem fail (h : Triple P m Q R C) (hR : ∀ e d, R e d → R' e d) : Triple P m Q R' C :=
  h.mono (fun _ => id) (fun _ _ => id) hR (fun _ => id)

/-- What holds of the disk before may be used to choose the conditions. -/
theorem of_pre (h : ∀ d, P d → Triple (fun d' => d' = d) m Q R C) : Triple P m Q R C :=
  fun w hw => h w.disk hw w rfl

theorem of_or (h : Triple P m Q R C) (h' : Triple P' m Q R C) : Triple (fun d => P d ∨ P' d) m Q R C := by
  intro w hw
  obtain hw | hw := hw
  · exact h w hw
  · exact h' w hw

protected theorem pure {a : α} (h : ∀ d, P d → Q a d) :
    Triple P (pure a : Prog (Stop ε) (World D E) α) Q R C :=
  fun w hw => ⟨h _ hw, id⟩

protected theorem bind {f : α → Prog (Stop ε) (World D E) β} (hm : Triple P m Q R C)
    (hf : ∀ a, Triple (Q a) (f a) S R C) : Triple P (m >>= f) S R C := by
  intro w hw
  rw [Prog.wp_bind]
  refine Prog.wp_mono (hm w hw) ?_ (fun _ _ => id)
  intro a t ht
  refine Prog.wp_mono (hf a t ht.1) ?_ ?_
  · intro b u hu
    exact ⟨hu.1, fun hw => hu.2 (ht.2 hw)⟩
  · grind

protected theorem gets {f : World D E → α} (h : ∀ w, P w.disk → Q (f w) w.disk) :
    Triple P (Prog.gets f : Prog (Stop ε) (World D E) α) Q R C :=
  fun w hw => ⟨h w hw, id⟩

variable {f : D → α} {k : α → Prog (Stop ε) (World D E) β}

/-- What is read from the disk may be used to choose the conditions. -/
theorem gets_any (hk : ∀ v, Triple (fun d => P d ∧ f d = v) (k v) S R C) :
    Triple P ((Prog.gets fun w => f w.disk) >>= k) S R C := by
  intro w hw
  rw [Prog.wp_bind]
  exact hk (f w.disk) w ⟨hw, rfl⟩

/-- What is read is known. -/
theorem gets_eq (v : α) (hv : ∀ d, P d → f d = v) (hk : Triple P (k v) S R C) :
    Triple P ((Prog.gets fun w => f w.disk) >>= k) S R C := by
  intro w hw
  rw [Prog.wp_bind]
  show Prog.wp (k (f w.disk)) _ _ w
  rw [hv w.disk hw]
  exact hk w hw

protected theorem modify {f : World D E → World D E} {Q : Unit → D → Prop}
    (hleft : ∀ w, (f w).left = w.left) (h : ∀ w, P w.disk → Q () (f w).disk) :
    Triple P (Prog.modify f : Prog (Stop ε) (World D E) Unit) Q R C :=
  fun w hw => ⟨h w hw, fun hnone => (hleft w).trans hnone⟩

protected theorem raise {e : ε} (h : ∀ d, P d → R e d) :
    Triple P (raise e : Prog (Stop ε) (World D E) α) Q R C := by
  intro w hw
  rw [wp_raise]
  refine ⟨fun he => (by cases he), fun x hx => ?_⟩
  cases hx
  exact ⟨h _ hw, id⟩

protected theorem ite {p : Prop} [Decidable p] {m' : Prog (Stop ε) (World D E) α}
    (h : p → Triple P m Q R C) (h' : ¬p → Triple P m' Q R C) :
    Triple P (if p then m else m') Q R C := by
  by_cases hp : p
  · rw [if_pos hp]
    exact h hp
  · rw [if_neg hp]
    exact h' hp

/-- An effect is done, or interrupted at any point. -/
protected theorem effect {e : E} {whole : D → D} {part : ℕ → D → D} {Q : Unit → D → Prop}
    (hwhole : ∀ d, P d → Q () (whole d)) (hpart : ∀ n d, P d → C (part n d)) :
    Triple P (effect e whole part : Prog (Stop ε) (World D E) Unit) Q R C := by
  intro w hw
  rw [wp_effect]
  constructor
  · simp_all
  · intro _
    refine ⟨hwhole _ hw, fun hnone => ?_⟩
    show w.left.map _ = none
    rw [hnone]
    rfl

/-- What `m` throws is an answer. -/
protected theorem attempt {Q : Except ε α → D → Prop}
    (h : Triple P m (fun a => Q (.ok a)) (fun e => Q (.error e)) C) :
    Triple P (attempt m) Q R C := by
  intro w hw
  rw [wp_attempt]
  refine Prog.wp_mono (h w hw) (fun _ _ => id) ?_
  intro e t ht
  refine ⟨fun he => ⟨fun _ => ht.1 he, fun x hx => (by cases hx)⟩, ?_⟩
  intro x hx
  exact ht.2 x hx

theorem attempt_bind {k : Except ε α → Prog (Stop ε) (World D E) β} (hm : Triple P m Q R' C)
    (hok : ∀ a, Triple (Q a) (k (.ok a)) S R C) (herror : ∀ e, Triple (R' e) (k (.error e)) S R C) :
    Triple P (Program.attempt m >>= k) S R C := by
  refine Triple.bind (Q := fun r d => (∃ a, r = .ok a ∧ Q a d) ∨ ∃ e, r = .error e ∧ R' e d)
    (Triple.attempt (hm.mono ?_ ?_ ?_ ?_)) ?_
  · exact fun _ => id
  · exact fun a d hd => .inl ⟨a, rfl, hd⟩
  · exact fun e d hd => .inr ⟨e, rfl, hd⟩
  · exact fun _ => id
  intro r
  refine Triple.of_or ?_ ?_
  · refine Triple.of_pre ?_
    rintro d ⟨a, rfl, hd⟩
    refine (hok a).pre ?_
    rintro _ rfl
    exact hd
  · refine Triple.of_pre ?_
    rintro d ⟨e, rfl, hd⟩
    refine (herror e).pre ?_
    rintro _ rfl
    exact hd

/-- What does not throw needs no second branch. -/
theorem attempt_ok {k : Except ε α → Prog (Stop ε) (World D E) β}
    (hm : Triple P m Q (fun _ _ => False) C) (hok : ∀ a, Triple (Q a) (k (.ok a)) S R C) :
    Triple P (Program.attempt m >>= k) S R C :=
  attempt_bind hm hok fun _ => Triple.of_pre fun _ hd => hd.elim

end Triple

/-! ### Runs that are cut off -/

/-- The disk after `m`, cut off at its `n`-th effect if it has that many. -/
def leaves (m : Prog (Stop ε) (World D E) α) (d : D) (n torn : ℕ) : D :=
  (m { disk := d, left := some n, torn := torn }).2.disk

variable {P C : D → Prop} {m : Prog (Stop ε) (World D E) α} {Q : α → D → Prop} {R : ε → D → Prop} {d : D}

theorem Triple.leaves (h : Triple P m Q R C) (hd : P d) (n torn : ℕ) :
    C (leaves m d n torn) ∨ (∃ a, Q a (leaves m d n torn)) ∨ ∃ e, R e (leaves m d n torn) := by
  have hwp := h { disk := d, left := some n, torn := torn } hd
  unfold Program.leaves
  cases hm : m { disk := d, left := some n, torn := torn } with
  | mk r t =>
    cases r with
    | ok a => exact .inr (.inl ⟨a, (hwp.ok hm).1⟩)
    | error e =>
      cases e with
      | crash => exact .inl ((hwp.error hm).1 rfl).1
      | thrown e => exact .inr (.inr ⟨e, ((hwp.error hm).2 e rfl).1⟩)

/-- Without a countdown a program comes to one of its two ends. -/
theorem Triple.ends (h : Triple P m Q R C) (hd : P d) : (∃ a t, m { disk := d } = (.ok a, t) ∧ Q a t.disk) ∨
      ∃ e t, m { disk := d } = (.error (.thrown e), t) ∧ R e t.disk := by
  have hwp := h { disk := d } hd
  cases hm : m { disk := d } with
  | mk r t =>
    cases r with
    | ok a => exact .inl ⟨a, t, rfl, (hwp.ok hm).1⟩
    | error e =>
      cases e with
      | crash => exact absurd rfl ((hwp.error hm).1 rfl).2
      | thrown e => exact .inr ⟨e, t, rfl, ((hwp.error hm).2 e rfl).1⟩

end Program
