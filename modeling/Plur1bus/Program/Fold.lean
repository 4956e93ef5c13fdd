import Plur1bus.Program.Exec

/-!
Programs that go through a list. `Steps R s as bs t` says that the elements of `as`, taken in
turn from `s`, answer `bs` and end in `t`; a traversal that does not throw is such a chain, and
so is one over what the elements decode to. A chain is built from what each step needs of the
elements that are left, and taken apart by what each step adds to what was answered.
-/

namespace Program

variable {ε σ α β γ : Type}

namespace Prog

theorem bind_eq_ok {m : Prog ε σ α} {f : α → Prog ε σ β} {s t : σ} {b : β} :
    (m >>= f) s = (.ok b, t) ↔ ∃ a u, m s = (.ok a, u) ∧ f a u = (.ok b, t) := by
  show Prog.bind m f s = _ ↔ _
  unfold Prog.bind
  cases hm : m s with
  | mk r u => grind

@[simp] theorem pure_eq_ok {s t : σ} {a b : α} : (pure a : Prog ε σ α) s = (.ok b, t) ↔ a = b ∧ s = t := by
  show ((.ok a, s) : Except ε α × σ) = (.ok b, t) ↔ _
  constructor
  · intro h
    cases h
    exact ⟨rfl, rfl⟩
  · rintro ⟨rfl, rfl⟩
    rfl

@[simp] theorem gets_eq_ok {f : σ → α} {s t : σ} {b : α} :
    (gets f : Prog ε σ α) s = (.ok b, t) ↔ f s = b ∧ s = t := pure_eq_ok

@[simp] theorem modify_eq_ok {f : σ → σ} {s t : σ} {u : Unit} :
    (modify f : Prog ε σ Unit) s = (.ok u, t) ↔ f s = t := by
  show ((.ok (), f s) : Except ε Unit × σ) = (.ok u, t) ↔ _
  constructor
  · intro h
    cases h
    rfl
  · rintro rfl
    rfl

@[simp] theorem throw_eq_ok {e : ε} {s t : σ} {b : α} : (throw e : Prog ε σ α) s = (.ok b, t) ↔ False := by
  constructor
  · intro h
    cases h
  · exact False.elim

theorem ofExcept_eq_ok {r : Except ε α} {s t : σ} {b : α} :
    (ofExcept r : Prog ε σ α) s = (.ok b, t) ↔ r = .ok b ∧ s = t := by
  cases r with
  | error e =>
    constructor
    · intro h
      cases h
    · rintro ⟨h, -⟩
      cases h
  | ok a =>
    constructor
    · intro h
      cases h
      exact ⟨rfl, rfl⟩
    · rintro ⟨h, rfl⟩
      cases h
      rfl

end Prog

/-- The elements in turn, with what each answers. -/
inductive Steps (R : σ → α → β → σ → Prop) : σ → List α → List β → σ → Prop
  | nil (s : σ) : Steps R s [] [] s
  | cons {s u t : σ} {a : α} {b : β} {as : List α} {bs : List β} :
    R s a b u → Steps R u as bs t → Steps R s (a :: as) (b :: bs) t

theorem Prog.traverse_eq_ok {f : α → Prog ε σ β} {as : List α} {bs : List β} {s t : σ} :
    Prog.traverse f as s = (.ok bs, t) ↔ Steps (fun s a b t => f a s = (.ok b, t)) s as bs t := by
  induction as generalizing bs s with
  | nil =>
    unfold Prog.traverse
    rw [Prog.pure_eq_ok]
    constructor
    · rintro ⟨rfl, rfl⟩
      exact .nil s
    · intro h
      cases h
      exact ⟨rfl, rfl⟩
  | cons a as ih =>
    unfold Prog.traverse
    rw [Prog.bind_eq_ok]
    constructor
    · rintro ⟨b, u, hb, h⟩
      obtain ⟨bs', t', hbs, h⟩ := Prog.bind_eq_ok.mp h
      obtain ⟨rfl, rfl⟩ := Prog.pure_eq_ok.mp h
      exact .cons hb (ih.mp hbs)
    · intro h
      cases h with
      | cons hb hbs => exact ⟨_, _, hb, Prog.bind_eq_ok.mpr ⟨_, _, ih.mpr hbs, Prog.pure_eq_ok.mpr ⟨rfl, rfl⟩⟩⟩

/-- What each element of a list decodes to, if all do. -/
def decodeAll (f : α → Option γ) : List α → Option (List γ)
  | [] => some []
  | a :: as =>
    match f a, decodeAll f as with
    | some c, some cs => some (c :: cs)
    | _, _ => none

theorem decodeAll_cons {f : α → Option γ} {a : α} {as : List α} {cs : List γ} :
    decodeAll f (a :: as) = some cs ↔ ∃ c cs', f a = some c ∧ decodeAll f as = some cs' ∧ cs = c :: cs' := by
  rw [decodeAll]
  cases f a with
  | none => simp
  | some c =>
    cases decodeAll f as with
    | none => simp
    | some cs' => simp [eq_comm]

namespace Steps

variable {R R' : σ → α → β → σ → Prop} {S : σ → γ → β → σ → Prop} {s t : σ} {as : List α} {bs : List β}

/-- A chain over elements is one over what they decode to. -/
theorem decoded {decode : α → Option γ} (h : ∀ s a b t, R s a b t ↔ ∃ c, decode a = some c ∧ S s c b t) :
    Steps R s as bs t ↔ ∃ cs, decodeAll decode as = some cs ∧ Steps S s cs bs t := by
  induction as generalizing s bs with
  | nil =>
    constructor
    · intro hsteps
      cases hsteps
      exact ⟨[], rfl, .nil _⟩
    · rintro ⟨cs, hcs, hsteps⟩
      cases hcs
      cases hsteps
      exact .nil _
  | cons a as ih =>
    constructor
    · intro hsteps
      cases hsteps with
      | cons hb hrest =>
        obtain ⟨c, hc, hS⟩ := (h _ _ _ _).mp hb
        obtain ⟨cs, hcs, hsteps⟩ := ih.mp hrest
        exact ⟨c :: cs, decodeAll_cons.mpr ⟨c, cs, hc, hcs, rfl⟩, .cons hS hsteps⟩
    · rintro ⟨cs, hcs, hsteps⟩
      obtain ⟨c, cs', hc, hcs', rfl⟩ := decodeAll_cons.mp hcs
      cases hsteps with
      | cons hS hrest => exact .cons ((h _ _ _ _).mpr ⟨c, hc, hS⟩) (ih.mpr ⟨cs', hcs', hrest⟩)

/-- What each step keeps of the state and of what was answered so far. -/
theorem keeps {δ : Type} {I : σ → List δ → Prop} {f : β → List δ}
    (h : ∀ s a b t log, R s a b t → I s log → I t (log ++ f b)) (hsteps : Steps R s as bs t)
    {log : List δ} (hI : I s log) : I t (log ++ bs.flatMap f) := by
  induction hsteps generalizing log with
  | nil s =>
    rw [List.flatMap_nil, List.append_nil]
    exact hI
  | cons hR _ ih =>
    rw [List.flatMap_cons, ← List.append_assoc]
    exact ih (h _ _ _ _ _ hR hI)

/-- Every step can be taken, and what is left after it is as the next one needs it. -/
theorem exists_of {J : σ → List α → Prop} (h : ∀ s a as, J s (a :: as) → ∃ b t, R s a b t ∧ J t as)
    (hJ : J s as) : ∃ bs t, Steps R s as bs t ∧ J t [] := by
  induction as generalizing s with
  | nil => exact ⟨[], s, .nil s, hJ⟩
  | cons a as ih =>
    obtain ⟨b, u, hR, hJ'⟩ := h s a as hJ
    obtain ⟨bs, t, hsteps, hend⟩ := ih hJ'
    exact ⟨b :: bs, t, .cons hR hsteps, hend⟩

end Steps

end Program
