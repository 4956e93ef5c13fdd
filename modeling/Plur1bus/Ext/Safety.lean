import Plur1bus.Ext.Locals

/-!
The audit stays inside of what it has read: no index is past the end of a slice, no
difference is below zero, and no read goes past the end of the file.
-/

namespace Plur1bus.Ext

open Program List

/-- Neither does the process stop nor does a read go past the end of the file. -/
def Safe {α : Type} (x : Except Stop α) : Prop := x ≠ .error .panicked ∧ x ≠ .error .truncated

section

variable {α β : Type}

@[simp] theorem safe_ok (a : α) : Safe (.ok a : Except Stop α) := ⟨fun h => (by cases h), fun h => (by cases h)⟩

@[simp] theorem safe_pure (a : α) : Safe (pure a : Except Stop α) := safe_ok a

@[simp] theorem safe_refused (r : Refusal) : Safe (.error (.refused r) : Except Stop α) :=
  ⟨fun h => (by cases h), fun h => (by cases h)⟩

theorem safe_bind {x : Except Stop α} {f : α → Except Stop β} :
    Safe (x >>= f) ↔ Safe x ∧ ∀ a, x = .ok a → Safe (f a) := by
  cases x with
  | ok a =>
    constructor
    · intro h
      refine ⟨safe_ok a, fun b hb => ?_⟩
      cases hb
      exact h
    · exact fun h => h.2 a rfl
  | error e =>
    constructor
    · refine fun h => ⟨⟨fun he => h.1 ?_, fun he => h.2 ?_⟩, fun b hb => (by cases hb)⟩
      · cases he; rfl
      · cases he; rfl
    · refine fun h => ⟨fun he => h.1.1 ?_, fun he => h.1.2 ?_⟩
      · cases he; rfl
      · cases he; rfl

theorem safe_ite {p : Prop} [Decidable p] {x y : Except Stop α} (hx : p → Safe x) (hy : ¬ p → Safe y) :
    Safe (if p then x else y) := by
  split
  next h => exact hx h
  next h => exact hy h

@[simp] theorem safe_ensure {p : Prop} [Decidable p] (r : Refusal) : Safe (ensure p (Stop.refused r)) := by
  unfold ensure
  split <;> simp

end

variable {b : Bytes} {i : ℕ}

theorem safe_u16At : Safe (u16At b i) ↔ i + 2 ≤ b.length := by
  unfold u16At
  split <;> simp_all [Safe]

theorem safe_u32At : Safe (u32At b i) ↔ i + 4 ≤ b.length := by
  unfold u32At
  split <;> simp_all [Safe]

theorem safe_slice {j : ℕ} : Safe (slice b i j) ↔ i ≤ j ∧ j ≤ b.length := by
  unfold slice
  split <;> simp_all [Safe]

theorem safe_sub {a b : ℕ} : Safe (sub a b) ↔ b ≤ a := by
  unfold sub
  split <;> simp_all [Safe]

variable {file : Bytes}

theorem safe_readAt {pos len : ℕ} : Safe (readAt file pos len) ↔ len = 0 ∨ pos + len ≤ file.length := by
  unfold readAt
  split <;> simp_all [Safe]

theorem safe_forbiddenExtra (extra : Bytes) : Safe (forbiddenExtra extra) := by
  induction extra using forbiddenExtra.induct with
  | case1 extra h ih =>
    rw [forbiddenExtra, dif_pos h]
    simp only [safe_bind, safe_u16At, u16At_ok]
    refine ⟨by omega, fun id _ => ⟨by omega, fun len _ => ?_⟩⟩
    refine safe_ite (fun _ => safe_pure _) fun h1 => safe_ite (fun _ => safe_pure _) fun h2 =>
      safe_ite (fun _ => safe_pure _) fun h3 => ?_
    exact ih len
  | case2 extra h =>
    rw [forbiddenExtra, dif_neg h]
    exact safe_pure _

theorem safe_insertDirs (fold : List Char → List Char) (raw : Bytes) (dirs : List (List Char)) (f : Folded) :
    Safe (f.insertDirs fold raw dirs) := by
  induction dirs generalizing f with
  | nil => exact safe_ok f
  | cons d dirs ih =>
    unfold Folded.insertDirs
    refine safe_ite (fun _ => safe_refused _) fun _ => ?_
    split
    · exact safe_ite (fun _ => safe_refused _) fun _ => ih f
    · exact ih _

theorem safe_insert (fold : List Char → List Char) (f : Folded) (raw : Bytes) (name : List Char) :
    Safe (f.insert fold raw name) :=
  safe_ite (fun _ => safe_refused _) fun _ => safe_insertDirs fold raw _ _

theorem safe_checkSegments (raw : Bytes) (segments : List (List Char)) : Safe (checkSegments raw segments) := by
  induction segments with
  | nil => exact safe_pure ()
  | cons segment segments ih =>
    simp only [checkSegments, checkSegment, safe_bind]
    exact ⟨⟨safe_ensure _, fun _ _ => ⟨safe_ensure _, fun _ _ => ⟨safe_ensure _, fun _ _ => safe_ensure _⟩⟩⟩,
      fun _ _ => ih⟩

theorem safe_checkName (isNormalized : List Char → Bool) (limits : Limits) (raw : Bytes) :
    Safe (checkName isNormalized limits raw) := by
  unfold checkName
  split
  · exact safe_refused _
  · simp only [safe_bind, unsafeEntry, safe_ensure, true_and, safe_pure, implies_true, and_true]
    intros
    exact safe_checkSegments raw _

theorem safe_checkType (raw : Bytes) (external : ℕ) : Safe (checkType raw external) :=
  safe_ite (fun _ => safe_refused _) fun _ => safe_ite (fun _ => safe_ok _) fun _ =>
    safe_ite (fun _ => safe_refused _) fun _ => safe_ite (fun _ => safe_refused _) fun _ => safe_refused _

theorem safe_checkFields {h raw extra : Bytes} (hlen : h.length = CENTRAL_LEN) : Safe (checkFields h raw extra) := by
  unfold CENTRAL_LEN at hlen
  simp only [checkFields, safe_bind, safe_u16At, safe_u32At, unsupportedAt, unsupported, safe_ensure, true_and, hlen,
    implies_true, and_true]
  refine ⟨by omega, fun _ _ => ⟨by omega, fun _ _ => ⟨by omega, fun _ _ => ⟨by omega, fun _ _ => ⟨by omega,
    fun _ _ => ⟨by omega, fun _ _ _ _ _ _ _ _ => safe_forbiddenExtra extra⟩⟩⟩⟩⟩⟩

variable {fold : List Char → List Char} {isNormalized : List Char → Bool} {limits : Limits}

theorem safe_readCentral {cd : Bytes} {s : Reading} (hp : s.p ≤ cd.length) :
    Safe (readCentral fold isNormalized limits cd s) := by
  simp only [readCentral, safe_bind, safe_sub, safe_u16At, safe_u32At, safe_slice, malformed, unsupported, safe_ensure,
    true_and, sub_ok, ensure_ok, u32At_ok, u16At_ok, slice_ok, checkSizes, tooLargeAt, tooLarge, implies_true, and_true,
    safe_pure]
  refine ⟨hp, ?_⟩
  rintro rest ⟨-, rfl⟩ - hrest
  have h46 : CENTRAL_LEN = 46 := rfl
  refine ⟨by omega, ?_⟩
  rintro signature - - -
  refine ⟨by omega, ?_⟩
  rintro h ⟨-, rfl⟩
  have hlen : ((cd.drop s.p).take (s.p + CENTRAL_LEN - s.p)).length = CENTRAL_LEN := by
    rw [length_take, length_drop]
    omega
  refine ⟨by omega, fun n _ => ⟨by omega, fun m _ => ⟨by omega, fun k _ => ⟨by omega, ?_⟩⟩⟩⟩
  rintro room ⟨-, rfl⟩ - hfit
  refine ⟨by omega, fun raw _ => ⟨by omega, fun extra _ => ⟨safe_checkFields hlen, ?_⟩⟩⟩
  intro _ _
  refine ⟨safe_checkName isNormalized limits raw, fun name _ => ⟨safe_insert fold s.folded raw name, ?_⟩⟩
  intro folded _
  exact safe_checkType raw _

theorem safe_readCentrals {cd : Bytes} {total : ℕ} {rs : List Bytes} {s : Reading}
    (h : Reads fold isNormalized limits cd rs s) : Safe (readCentrals fold isNormalized limits cd total s) := by
  induction total generalizing rs s with
  | zero => exact safe_ok s
  | succ total ih =>
    have hp : s.p ≤ cd.length := by
      obtain ⟨rest, hrest⟩ := h.consumed
      rw [h.p, hrest, length_append]
      omega
    refine safe_bind.mpr ⟨safe_readCentral hp, fun s' hs' => ?_⟩
    obtain ⟨r, hr⟩ := h.step hs'
    exact ih hr

theorem safe_fieldsAt (h : i + 12 ≤ b.length) : Safe (fieldsAt b i) := by
  simp only [fieldsAt, safe_bind, safe_u32At, safe_pure, implies_true, and_true]
  exact ⟨by omega, fun _ _ => ⟨by omega, fun _ _ => by omega⟩⟩

variable {c : Central}

theorem safe_sumsAt {d : Bytes} (h : i + 12 ≤ d.length) : Safe (sumsAt c d i) := by
  simp only [sumsAt, safe_bind, safe_pure, implies_true, and_true]
  exact safe_fieldsAt h

theorem safe_checkDescriptor (c : Central) (d : Bytes) : Safe (checkDescriptor c d) := by
  simp only [checkDescriptor, safe_bind]
  refine ⟨?_, fun signed _ => safe_ite (fun _ => safe_pure _) fun _ => ?_⟩
  · refine safe_ite (fun h16 => ?_) fun _ => safe_pure _
    simp only [safe_bind, safe_u32At]
    refine ⟨by omega, fun _ _ => safe_ite (fun _ => safe_sumsAt (by omega)) fun _ => safe_pure _⟩
  · simp only [safe_bind, unsupportedAt, safe_ensure, safe_pure, implies_true, and_true]
    exact safe_ite (fun h12 => safe_sumsAt (by omega)) fun _ => safe_pure _

variable {limit : ℕ}

theorem safe_checkLocal (hlimit : limit ≤ file.length) : Safe (checkLocal file c limit) := by
  have h30 : LOCAL_LEN = 30 := rfl
  simp only [checkLocal, safe_bind, safe_readAt, safe_u32At, safe_u16At, safe_slice, unsupportedAt, disagree,
    safe_ensure, true_and, ensure_ok, readAt_ok, u32At_ok, u16At_ok, slice_ok]
  rintro - hroom
  refine ⟨by omega, ?_⟩
  rintro h ⟨-, rfl⟩
  have hlen : ((file.drop c.offset).take LOCAL_LEN).length = 30 := by
    rw [length_take, length_drop]
    omega
  refine ⟨by omega, fun _ _ _ _ => ⟨by omega, fun _ _ => ⟨by omega, fun _ _ => ⟨safe_fieldsAt (by omega),
    fun _ _ => ⟨by omega, fun n _ => ⟨by omega, fun m _ _ hdata => ⟨by omega, ?_⟩⟩⟩⟩⟩⟩⟩
  rintro tail ⟨-, rfl⟩
  have htail : ((file.drop (c.offset + LOCAL_LEN)).take (n + m)).length = n + m := by
    rw [length_take, length_drop]
    omega
  refine ⟨by omega, fun _ _ _ _ => ⟨by omega, fun extra _ => ⟨safe_forbiddenExtra extra, ?_⟩⟩⟩
  intro _ _ _ _ _ _ _ _ _ hend
  refine safe_ite (fun _ => ?_) fun _ => ?_
  · simp only [safe_bind, safe_ensure, safe_pure, implies_true, and_true]
  · simp only [safe_bind, safe_ensure, safe_pure, implies_true, and_true, true_and, safe_sub, sub_ok, safe_readAt]
    intro _ _
    refine ⟨hend, ?_⟩
    rintro room ⟨-, rfl⟩
    exact ⟨by omega, fun d _ => safe_checkDescriptor c d⟩

theorem safe_checkLocals (hlimit : limit ≤ file.length) (order : List (Central × ℕ)) (v : List ℕ × ℕ) :
    Safe (checkLocals file limit order v) := by
  induction order generalizing v with
  | nil => exact safe_ok v
  | cons ci order ih =>
    simp only [checkLocals, safe_bind, unsupportedAt, safe_ensure, true_and]
    exact fun _ _ => ⟨safe_checkLocal hlimit, fun _ _ => ih _⟩

end Plur1bus.Ext
