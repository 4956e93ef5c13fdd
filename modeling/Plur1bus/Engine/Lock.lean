import Mathlib.Data.Nat.Notation
import Mathlib.Logic.Function.Basic
import Plur1bus.Program.Runs

/-!
The registry lock of the store: a file created exclusively at a known path and
stamped with its holder's nonce. Any number of processes try to acquire and
release it, one file-system call at a time, and any of them may crash between
two calls. Files and the names they are moved aside to are numbered as they are
made, so a number never stands for two files; a holder's nonce is its file's
number. A call fails only for what is in the directory; of the writes, that of
the stamp may fail.

A process that finds the lock taken reads it and, if its holder is gone, renames
it aside, verifies that it took the file it has read, and puts any other file
back. Between the two calls the path is free.
-/

namespace Plur1bus.Engine

open Program Option Function

/-- What is in a lock file. -/
inductive Content
  | empty | stamp | torn
  deriving DecidableEq, Repr

/-- The directory of the lock. `gone` marks the files whose holder has crashed or
has begun to release. -/
structure Dir where
  next : ℕ := 0
  path : Option ℕ := none
  aside : ℕ → Option ℕ := fun _ => none
  content : ℕ → Content := fun _ => .empty
  gone : ℕ → Bool := fun _ => false

/-- `Ownership`: by the nonce in the stamp, or by the file itself. -/
inductive Ownership
  | nonce (f : ℕ)
  | file (f : ℕ)
  deriving DecidableEq, Repr

/-- A holder's nonce is in the stamp of its own file and of no other. -/
def Ownership.matches (d : Dir) (g : ℕ) : Ownership → Bool
  | .nonce f => g = f && d.content g = .stamp
  | .file f => g = f

/-- Where a process goes on after a file that was moved aside has been dealt with. -/
inductive After
  | sweep (broken : Bool)
  | released
  deriving DecidableEq, Repr

/-- The call a process is about to make. -/
inductive Pc
  | idle
  | crashed
  /-- `try_acquire`: the exclusive create. -/
  | opening (reaped : Bool)
  | stamping (f : ℕ)
  | holding (f : ℕ)
  /-- `reap_if_stale`: the snapshot of the lock, and the judgement of it. -/
  | inspecting
  | judging (f : ℕ) (c : Content)
  /-- `break_stale`: the rename, and the snapshot of what was moved. -/
  | breaking (f : ℕ) (c : Content)
  | verifying (f : ℕ) (c : Content) (m : ℕ)
  /-- `put_back`: the hard link, the look at the path, the rename. -/
  | linking (m : ℕ) (k : After)
  | looking (m : ℕ) (k : After)
  | restoring (m : ℕ) (k : After)
  | unlinking (m : ℕ) (k : After)
  /-- `sweep_leftovers`. -/
  | scanning (broken : Bool)
  | sweeping (ms : List ℕ) (broken : Bool)
  | weighing (m g : ℕ) (ms : List ℕ) (broken : Bool)
  | clearing (m : ℕ) (ms : List ℕ) (broken : Bool)
  /-- `release_lock`: the rename, the search when there is nothing to rename, the
  snapshot of what was moved. -/
  | releasing (own : Ownership)
  | seeking (own : Ownership)
  | matching (ms : List ℕ) (own : Ownership)
  | checking (m : ℕ) (own : Ownership)
  deriving DecidableEq, Repr

namespace Dir

variable (d : Dir)

/-- `fs::rename(path, moved)` under a new name. -/
def moveAside : Dir :=
  { d with next := d.next + 1, path := none, aside := Function.update d.aside d.next d.path }

def unlink (m : ℕ) : Dir := { d with aside := Function.update d.aside m none }

def write (f : ℕ) (c : Content) : Dir := { d with content := Function.update d.content f c }

def leave (f : ℕ) : Dir := { d with gone := Function.update d.gone f true }

/-- `moved_files`: every name something was moved aside to and is still there. -/
def movedFiles : List ℕ := (List.range d.next).filter fun m => (d.aside m).isSome

end Dir

/-- `reap_if_stale` answered. -/
def reaped (broken : Bool) : Pc := if broken then .opening true else .idle

def After.pc : After → Pc
  | .sweep broken => .scanning broken
  | .released => .idle

/-- The next call of a process. The bit stands for what the directory does not
decide: that the stamp is written, that a lock whose holder is gone is judged
stale, that the time for a release is up. -/
def call (d : Dir) (bit : Bool) : Pc → Dir × Pc
  | .idle => (d, .idle)
  | .crashed => (d, .crashed)
  | .holding f => (d, .holding f)
  | .opening reaped =>
    match d.path with
    | none => ({ d with next := d.next + 1, path := some d.next }, .stamping d.next)
    | some _ => (d, if reaped then .idle else .inspecting)
  | .stamping f =>
    if bit then (d.write f .stamp, .holding f)
    else ((d.write f .torn).leave f, .releasing (.file f))
  | .inspecting =>
    match d.path with
    | none => (d, .opening true)
    | some f => (d, .judging f (d.content f))
  | .judging f c => (d, if bit && d.gone f then .breaking f c else .scanning false)
  | .breaking f c =>
    match d.path with
    | none => (d, .scanning false)
    | some _ => (d.moveAside, .verifying f c d.next)
  | .verifying f c m =>
    match d.aside m with
    | none => (d, .scanning false)
    | some g =>
      (d, if g = f ∧ d.content g = c then .unlinking m (.sweep true) else .linking m (.sweep false))
  | .linking m k =>
    match d.aside m, d.path with
    | some g, none => ({ d with path := some g }, .unlinking m k)
    | some _, some _ => (d, .unlinking m k)
    | none, _ => (d, .looking m k)
  | .looking m k => (d, if d.path = none then .restoring m k else .unlinking m k)
  | .restoring m k =>
    match d.aside m with
    | some g => ({ d.unlink m with path := some g }, k.pc)
    | none => (d, .unlinking m k)
  | .unlinking m k => (d.unlink m, k.pc)
  | .scanning broken => (d, .sweeping d.movedFiles broken)
  | .sweeping [] broken => (d, reaped broken)
  | .sweeping (m :: ms) broken =>
    match d.aside m with
    | none => (d, .sweeping ms broken)
    | some g => (d, .weighing m g ms broken)
  | .weighing m g ms broken =>
    (d, if bit && d.gone g then .clearing m ms broken else .sweeping ms broken)
  | .clearing m ms broken => (d.unlink m, .sweeping ms broken)
  | .releasing own =>
    match d.path with
    | none => (d, .seeking own)
    | some _ => (d.moveAside, .checking d.next own)
  | .seeking own => (d, .matching d.movedFiles own)
  | .matching [] _ => (d, .idle)
  | .matching (m :: ms) own =>
    match d.aside m with
    | none => (d, .matching ms own)
    | some g =>
      (d, if own.matches d g then if bit then .idle else .releasing own else .matching ms own)
  | .checking m own =>
    match d.aside m with
    | none => (d, .unlinking m .released)
    | some g => (d, if own.matches d g then .unlinking m .released else .linking m .released)

/-! ### Processes -/

structure World (P : Type) where
  dir : Dir
  pc : P → Pc

inductive Act (P : Type)
  /-- `Lock::try_acquire` begins. -/
  | acquire (p : P)
  | call (p : P) (bit : Bool)
  /-- `LockGuard::release` begins. -/
  | release (p : P)
  | crash (p : P)
  deriving DecidableEq, Repr

/-- The file a process has created and not begun to release. -/
def Pc.owns : Pc → Option ℕ
  | .stamping f | .holding f => some f
  | _ => none

/-- The calls that move the lock aside. -/
def Pc.moves : Pc → Bool
  | .breaking .. | .releasing .. => true
  | _ => false

section

variable {P : Type} [DecidableEq P]

def World.act (w : World P) : Act P → World P
  | .acquire p =>
    match w.pc p with
    | .idle => { w with pc := Function.update w.pc p (.opening false) }
    | _ => w
  | .call p bit =>
    let (d, pc) := Engine.call w.dir bit (w.pc p)
    { dir := d, pc := Function.update w.pc p pc }
  | .release p =>
    match w.pc p with
    | .holding f => { dir := w.dir.leave f, pc := Function.update w.pc p (.releasing (.nonce f)) }
    | _ => w
  | .crash p =>
    let d := match (w.pc p).owns with
      | some f => w.dir.leave f
      | none => w.dir
    { dir := d, pc := Function.update w.pc p .crashed }

def World.start : World P := ⟨{}, fun _ => .idle⟩

/-- A live process has a guard and has not begun to release it. -/
def World.Holds (w : World P) (p : P) : Prop := ∃ f, w.pc p = .holding f

/-- Whoever moves the lock aside takes one whose holder is gone. -/
def Spares (w : World P) : Act P → Prop
  | .call p _ => (w.pc p).moves = true → ∀ g ∈ w.dir.path, w.dir.gone g = true
  | _ => True

instance (w : World P) : ∀ a, Decidable (Spares w a)
  | .call p _ =>
    inferInstanceAs (Decidable ((w.pc p).moves = true → ∀ g ∈ w.dir.path, w.dir.gone g = true))
  | .acquire _ | .release _ | .crash _ => .isTrue trivial

end

/-! ### One call -/

/-- The name a process has moved a file to, or found nothing under. -/
def Pc.name : Pc → Option ℕ
  | .verifying _ _ m | .linking m _ | .looking m _ | .restoring m _ | .checking m _ => some m
  | _ => none

/-- The name under which a process found nothing to link. -/
def Pc.missing : Pc → Option ℕ
  | .looking m _ | .restoring m _ => some m
  | _ => none

@[simp] theorem After.owns_pc (k : After) : k.pc.owns = none := by cases k <;> rfl

@[simp] theorem After.name_pc (k : After) : k.pc.name = none := by cases k <;> rfl

@[simp] theorem After.missing_pc (k : After) : k.pc.missing = none := by cases k <;> rfl

@[simp] theorem owns_reaped (broken : Bool) : (reaped broken).owns = none := by
  cases broken <;> rfl

@[simp] theorem name_reaped (broken : Bool) : (reaped broken).name = none := by
  cases broken <;> rfl

@[simp] theorem missing_reaped (broken : Bool) : (reaped broken).missing = none := by
  cases broken <;> rfl

/-- Numbers not given out yet stand for nothing. -/
structure Dir.Fresh (d : Dir) : Prop where
  gone : ∀ f, d.next ≤ f → d.gone f = false
  aside : ∀ m, d.next ≤ m → d.aside m = none

/-- What one call of a process does to the lock, to its own part in it and to the
directory. -/
structure Called (d : Dir) (pc : Pc) (d' : Dir) (pc' : Pc) : Prop where
  /-- The path changes only when it is free, when the lock is moved aside, or when
  a file is found under a name nothing was found under. -/
  path : d'.path = d.path ∨ d.path = none ∨ pc.moves = true ∨ ∃ m, pc.missing = some m ∧ d.aside m ≠ none
  /-- A file is owned by whoever created it, and it is at the path. -/
  owns : ∀ f, pc'.owns = some f → (pc.owns = some f ∧ d'.path = d.path ∧ d'.gone = d.gone) ∨
    (d.path = none ∧ d'.path = some f ∧ d'.gone f = false ∧ f < d'.next)
  gone : ∀ f, d'.gone f = d.gone f ∨ pc.owns = some f
  next : d.next ≤ d'.next
  fresh : d'.Fresh
  aside : ∀ m, m < d.next → d.aside m = none → d'.aside m = none
  name : ∀ m, pc'.name = some m → m < d'.next
  missing : ∀ m, pc'.missing = some m → d'.aside m = none

section

variable {d : Dir} {pc pc' : Pc}

/-- A call that only looks. -/
theorem Called.look (hd : d.Fresh) (howns : pc'.owns = none)
    (hname : ∀ m, pc'.name = some m → m < d.next)
    (hmissing : ∀ m, pc'.missing = some m → d.aside m = none) : Called d pc d pc' :=
  ⟨.inl rfl, fun f hf => by simp [howns] at hf, fun _ => .inl rfl, Nat.le_refl _, hd,
    fun _ _ h => h, hname, hmissing⟩

theorem Dir.Fresh.unlink (hd : d.Fresh) (m : ℕ) : (d.unlink m).Fresh := by
  refine ⟨hd.gone, fun n hn => ?_⟩
  by_cases hnm : n = m
  · simp [Dir.unlink, hnm]
  · simpa [Dir.unlink, hnm] using hd.aside n hn

/-- A call that removes a file that was moved aside. -/
theorem Called.unlink (hd : d.Fresh) (m : ℕ) (howns : pc'.owns = none) (hname : pc'.name = none)
    (hmissing : pc'.missing = none) : Called d pc (d.unlink m) pc' := by
  refine ⟨.inl rfl, fun f hf => by simp [howns] at hf, fun _ => .inl rfl, Nat.le_refl _,
    hd.unlink m, fun n _ hn => ?_, by simp [hname], by simp [hmissing]⟩
  by_cases hnm : n = m
  · simp [Dir.unlink, hnm]
  · simpa [Dir.unlink, hnm] using hn

/-- A call that moves the lock aside. -/
theorem Called.moveAside (hd : d.Fresh) (hmoves : pc.moves = true) (howns : pc'.owns = none)
    (hname : pc'.name = some d.next) (hmissing : pc'.missing = none) :
    Called d pc d.moveAside pc' := by
  refine ⟨.inr (.inr (.inl hmoves)), fun f hf => by simp [howns] at hf, fun _ => .inl rfl,
    Nat.le_succ _, ⟨fun f hf => hd.gone f (Nat.le_of_succ_le hf), fun n hn => ?_⟩, fun n hn h => ?_,
    fun n hn => ?_, by simp [hmissing]⟩
  · have hne : n ≠ d.next := Nat.ne_of_gt hn
    simpa [Dir.moveAside, hne] using hd.aside n (Nat.le_of_succ_le hn)
  · have hne : n ≠ d.next := Nat.ne_of_lt hn
    simpa [Dir.moveAside, hne] using h
  · obtain rfl : d.next = n := Option.some.inj (hname.symm.trans hn)
    exact Nat.lt_succ_self _

/-- What every process's part in the lock allows to assume before a call. -/
structure Ready (d : Dir) (pc : Pc) : Prop where
  fresh : d.Fresh
  owns : ∀ f, pc.owns = some f → f < d.next
  name : ∀ m, pc.name = some m → m < d.next
  missing : ∀ m, pc.missing = some m → d.aside m = none

theorem Ready.called (h : Ready d pc) (bit : Bool) : Called d pc (call d bit pc).1 (call d bit pc).2 := by
  have hd := h.fresh
  cases pc with
  | idle => exact .look hd rfl nofun nofun
  | crashed => exact .look hd rfl nofun nofun
  | holding f =>
    exact ⟨.inl rfl, fun g hg => .inl ⟨hg, rfl, rfl⟩, fun _ => .inl rfl, Nat.le_refl _, hd,
      fun _ _ h => h, nofun, nofun⟩
  | opening reaped =>
    simp only [call]
    split
    · rename_i hfree
      refine ⟨.inr (.inl hfree), ?_, fun _ => .inl rfl, Nat.le_succ _,
        ⟨fun f hf => hd.gone f (Nat.le_of_succ_le hf), fun m hm => hd.aside m (Nat.le_of_succ_le hm)⟩,
        fun _ _ h => h, nofun, nofun⟩
      rintro f ⟨⟩
      exact .inr ⟨hfree, rfl, hd.gone d.next (Nat.le_refl _), Nat.lt_succ_self _⟩
    · cases reaped <;> exact .look hd rfl nofun nofun
  | stamping f =>
    have hlt : f < d.next := h.owns f rfl
    cases bit with
    | true =>
      exact ⟨.inl rfl, fun g hg => .inl ⟨hg, rfl, rfl⟩, fun _ => .inl rfl, Nat.le_refl _,
        ⟨hd.gone, hd.aside⟩, fun _ _ h => h, nofun, nofun⟩
    | false =>
      refine ⟨.inl rfl, nofun, fun g => ?_, Nat.le_refl _, ⟨fun g hg => ?_, hd.aside⟩,
        fun _ _ h => h, nofun, nofun⟩
      · by_cases hg : g = f
        · exact .inr (by rw [hg]; rfl)
        · exact .inl (by simp [call, Dir.leave, Dir.write, hg])
      · have hne : g ≠ f := Nat.ne_of_gt (Nat.lt_of_lt_of_le hlt hg)
        simpa [call, Dir.leave, Dir.write, hne] using hd.gone g hg
  | inspecting =>
    simp only [call]
    split <;> exact .look hd rfl nofun nofun
  | judging f c =>
    simp only [call]
    split <;> exact .look hd rfl nofun nofun
  | breaking f c =>
    simp only [call]
    split
    · exact .look hd rfl nofun nofun
    · exact .moveAside hd rfl rfl rfl rfl
  | verifying f c m =>
    have hm : m < d.next := h.name m rfl
    simp only [call]
    split
    · exact .look hd rfl nofun nofun
    · split
      · exact .look hd rfl nofun nofun
      · exact .look hd rfl (by rintro n ⟨⟩; exact hm) nofun
  | linking m k =>
    have hm : m < d.next := h.name m rfl
    simp only [call]
    split
    · rename_i hfree
      exact ⟨.inr (.inl hfree), nofun, fun _ => .inl rfl, Nat.le_refl _, ⟨hd.gone, hd.aside⟩,
        fun _ _ h => h, nofun, nofun⟩
    · exact .look hd rfl nofun nofun
    · rename_i hnone
      refine .look hd rfl ?_ ?_
      · rintro n ⟨⟩
        exact hm
      · rintro n ⟨⟩
        exact hnone
  | looking m k =>
    have hm : m < d.next := h.name m rfl
    have hnone : d.aside m = none := h.missing m rfl
    simp only [call]
    split
    · refine .look hd rfl ?_ ?_
      · rintro n ⟨⟩
        exact hm
      · rintro n ⟨⟩
        exact hnone
    · exact .look hd rfl nofun nofun
  | restoring m k =>
    have hnone : d.aside m = none := h.missing m rfl
    simp only [call, hnone]
    exact .look hd rfl nofun nofun
  | unlinking m k => exact .unlink hd m (by simp [call]) (by simp [call]) (by simp [call])
  | scanning broken => exact .look hd rfl nofun nofun
  | sweeping ms broken =>
    cases ms with
    | nil => exact .look hd (by simp [call]) (by simp [call]) (by simp [call])
    | cons m ms =>
      simp only [call]
      split <;> exact .look hd rfl nofun nofun
  | weighing m g ms broken =>
    simp only [call]
    split <;> exact .look hd rfl nofun nofun
  | clearing m ms broken => exact .unlink hd m rfl rfl rfl
  | releasing own =>
    simp only [call]
    split
    · exact .look hd rfl nofun nofun
    · exact .moveAside hd rfl rfl rfl rfl
  | seeking own => exact .look hd rfl nofun nofun
  | matching ms own =>
    cases ms with
    | nil => exact .look hd rfl nofun nofun
    | cons m ms =>
      simp only [call]
      split
      · exact .look hd rfl nofun nofun
      · cases bit <;> split <;> exact .look hd rfl nofun nofun
  | checking m own =>
    have hm : m < d.next := h.name m rfl
    simp only [call]
    split
    · exact .look hd rfl nofun nofun
    · split
      · exact .look hd rfl nofun nofun
      · exact .look hd rfl (by rintro n ⟨⟩; exact hm) nofun

end

/-! ### Runs that spare live holders -/

theorem Pc.name_of_missing {pc : Pc} {m : ℕ} (h : pc.missing = some m) : pc.name = some m := by
  cases pc <;> first | exact h | cases h

/-- What another process's call leaves of one's own part. -/
theorem Ready.frame {d d' : Dir} {pc pc₁ pc₂ : Pc} (h : Ready d pc) (hc : Called d pc₁ d' pc₂) :
    Ready d' pc :=
  ⟨hc.fresh, fun f hf => Nat.lt_of_lt_of_le (h.owns f hf) hc.next,
    fun m hm => Nat.lt_of_lt_of_le (h.name m hm) hc.next,
    fun m hm => hc.aside m (h.name m (Pc.name_of_missing hm)) (h.missing m hm)⟩

theorem Ready.next {d d' : Dir} {pc pc' : Pc} (h : Ready d pc) (hc : Called d pc d' pc') :
    Ready d' pc' := by
  refine ⟨hc.fresh, fun f hf => ?_, hc.name, hc.missing⟩
  obtain ⟨hf, -, -⟩ | ⟨-, -, -, hf⟩ := hc.owns f hf
  · exact Nat.lt_of_lt_of_le (h.owns f hf) hc.next
  · exact hf

theorem Ready.leave {d : Dir} {pc : Pc} (h : Ready d pc) {f : ℕ} (hf : f < d.next) :
    Ready (d.leave f) pc := by
  refine ⟨⟨fun g hg => ?_, h.fresh.aside⟩, h.owns, h.name, h.missing⟩
  have hne : g ≠ f := Nat.ne_of_gt (Nat.lt_of_lt_of_le hf hg)
  simpa [Dir.leave, hne] using h.fresh.gone g hg

/-- A part in the lock that owns nothing and names nothing. -/
theorem Ready.bare {d : Dir} {pc pc' : Pc} (h : Ready d pc) (howns : pc'.owns = none)
    (hname : pc'.name = none) : Ready d pc' :=
  ⟨h.fresh, by simp [howns], by simp [hname], fun m hm => by simp [Pc.name_of_missing hm] at hname⟩

section

variable {P : Type} [DecidableEq P] {w : World P}

/-- Whoever owns a file has it at the path, and is the only one who does. -/
structure World.Inv (w : World P) : Prop where
  ready : ∀ p, Ready w.dir (w.pc p)
  owner : ∀ p f, (w.pc p).owns = some f → w.dir.path = some f ∧ w.dir.gone f = false
  lone : ∀ p q, (w.pc p).owns ≠ none → (w.pc q).owns ≠ none → p = q

theorem World.inv_start : (World.start : World P).Inv :=
  ⟨fun _ => ⟨⟨fun _ _ => rfl, fun _ _ => rfl⟩, nofun, nofun, nofun⟩, nofun, fun p _ h => absurd rfl h⟩

/-- A process that owns nothing any more. -/
theorem World.Inv.disown (h : w.Inv) (p : P) {pc : Pc} (howns : pc.owns = none)
    (hname : pc.name = none) : World.Inv { w with pc := Function.update w.pc p pc } := by
  have howner : ∀ q f, (Function.update w.pc p pc q).owns = some f → (w.pc q).owns = some f := by
    intro q f hq
    by_cases hqp : q = p
    · simp [hqp, howns] at hq
    · simpa [hqp] using hq
  refine ⟨fun q => ?_, fun q f hq => h.owner q f (howner q f hq), fun q r hq hr => ?_⟩
  · by_cases hqp : q = p
    · simpa [hqp] using (h.ready p).bare howns hname
    · simpa [hqp] using h.ready q
  · obtain ⟨f, hf⟩ := ne_none_iff_exists'.mp hq
    obtain ⟨g, hg⟩ := ne_none_iff_exists'.mp hr
    exact h.lone q r (by simp [howner q f hf]) (by simp [howner r g hg])

/-- A process that begins to release its file, or crashes with it. -/
theorem World.Inv.leave (h : w.Inv) {p : P} {f : ℕ} (hp : (w.pc p).owns = some f) {pc : Pc}
    (howns : pc.owns = none) (hname : pc.name = none) :
    World.Inv { dir := w.dir.leave f, pc := Function.update w.pc p pc } := by
  have hlt : f < w.dir.next := (h.ready p).owns f hp
  have hout := h.disown p howns hname
  refine ⟨fun q => (hout.ready q).leave hlt, fun q g hq => ?_, hout.lone⟩
  obtain ⟨hpath, hgone⟩ := hout.owner q g hq
  -- Another owner would be the same process, which owns nothing now.
  have hqp : q ≠ p := by
    rintro rfl
    simp [howns] at hq
  simp only [update_of_ne hqp] at hq
  exact absurd (h.lone q p (by simp [hq]) (by simp [hp])) hqp

theorem World.Inv.call (h : w.Inv) {p : P} {bit : Bool} (hspares : Spares w (.call p bit)) :
    (w.act (.call p bit)).Inv := by
  have hc : Called w.dir (w.pc p) _ _ := (h.ready p).called bit
  have hkeep : ∀ q f, q ≠ p → (w.pc q).owns = some f → (Engine.call w.dir bit (w.pc p)).1.path = some f ∧
        (Engine.call w.dir bit (w.pc p)).1.gone f = false := by
    intro q f hqp hq
    obtain ⟨hpath, hgone⟩ := h.owner q f hq
    constructor
    · obtain hsame | hfree | hmoves | ⟨m, hm, haside⟩ := hc.path
      · exact hsame.trans hpath
      · simp [hfree] at hpath
      · have := hspares hmoves f hpath
        simp [hgone] at this
      · exact absurd ((h.ready p).missing m hm) haside
    · obtain hsame | hp := hc.gone f
      · exact hsame.trans hgone
      · exact absurd (h.lone q p (by simp [hq]) (by simp [hp])) hqp
  simp only [World.act]
  refine ⟨fun q => ?_, fun q f hq => ?_, fun q r hq hr => ?_⟩
  · by_cases hqp : q = p
    · simpa [hqp] using (h.ready p).next hc
    · simpa [hqp] using (h.ready q).frame hc
  · by_cases hqp : q = p
    · subst hqp
      simp only [update_self] at hq
      obtain ⟨hf, hpath, hgone⟩ | ⟨-, hpath, hgone, -⟩ := hc.owns f hq
      · obtain ⟨hp, hg⟩ := h.owner q f hf
        exact ⟨hpath.trans hp, (congrFun hgone f).trans hg⟩
      · exact ⟨hpath, hgone⟩
    · simp only [update_of_ne hqp] at hq
      exact hkeep q f hqp hq
  · -- A new owner found the path free, so nobody else owned anything.
    have hnew : ∀ r f, r ≠ p → (w.pc r).owns = some f → (Engine.call w.dir bit (w.pc p)).2.owns = none := by
      intro r f hrp hr
      by_contra hsome
      obtain ⟨g, hg⟩ := ne_none_iff_exists'.mp hsome
      obtain ⟨hold, -⟩ | ⟨hfree, -⟩ := hc.owns g hg
      · exact hrp (h.lone r p (by simp [hr]) (by simp [hold]))
      · simp [(h.owner r f hr).1] at hfree
    by_cases hqp : q = p <;> by_cases hrp : r = p
    · exact hqp.trans hrp.symm
    · simp only [update_of_ne hrp] at hr
      obtain ⟨f, hf⟩ := ne_none_iff_exists'.mp hr
      simp [hqp, hnew r f hrp hf] at hq
    · simp only [update_of_ne hqp] at hq
      obtain ⟨f, hf⟩ := ne_none_iff_exists'.mp hq
      simp [hrp, hnew q f hqp hf] at hr
    · simp only [update_of_ne hqp] at hq
      simp only [update_of_ne hrp] at hr
      exact h.lone q r hq hr

theorem World.Inv.act (h : w.Inv) {a : Act P} (ha : Spares w a) : (w.act a).Inv := by
  cases a with
  | call p bit => exact h.call ha
  | acquire p =>
    simp only [World.act]
    split
    · exact h.disown p rfl rfl
    · exact h
  | release p =>
    simp only [World.act]
    split
    · rename_i f hp
      exact h.leave (by rw [hp]; rfl) rfl rfl
    · exact h
  | crash p =>
    simp only [World.act]
    split
    · rename_i f hp
      exact h.leave hp rfl rfl
    · exact h.disown p rfl rfl

/-- As long as no one moves the lock of a live holder aside, at most one live
process has a guard it has not begun to release. -/
theorem one_holder_of_spared {as : List (Act P)}
    (hall : Along World.act Spares (World.start : World P) as) (p q : P)
    (hp : (as.foldl World.act World.start).Holds p) (hq : (as.foldl World.act World.start).Holds q) :
    p = q := by
  have hinv : (as.foldl World.act World.start).Inv :=
    Along.keeps (fun w a h ha => h.act ha) World.inv_start hall
  obtain ⟨f, hf⟩ := hp
  obtain ⟨g, hg⟩ := hq
  exact hinv.lone p q (by simp [hf, Pc.owns]) (by simp [hg, Pc.owns])

end

namespace Sample

/-- Process 0 acquires the lock and crashes with it. -/
def dead : List (Act (Fin 4)) := [.acquire 0, .call 0 true, .call 0 true, .crash 0]

/-- Process `p` finds the lock taken and judges it stale. -/
def judges (p : Fin 4) : List (Act (Fin 4)) := [.acquire p, .call p true, .call p true, .call p true]

/-- Process `p` breaks the lock it has judged and acquires it. -/
def breaks (p : Fin 4) : List (Act (Fin 4)) := List.replicate 7 (.call p true)

/-- Process 2 breaks the lock as well and has moved it aside when process 3 comes. -/
def overtaken : List (Act (Fin 4)) := dead ++ judges 1 ++ judges 2 ++ breaks 1 ++
    [.call 2 true, .acquire 3, .call 3 true, .call 3 true]

end Sample

/-- Processes 1 and 2 judge the same dead holder. When process 1 has the lock,
process 2 moves it aside, and process 3 acquires it too. -/
theorem two_holders : ¬∀ p q, (Sample.overtaken.foldl World.act World.start).Holds p →
      (Sample.overtaken.foldl World.act World.start).Holds q → p = q := by
  intro h
  have heq := h 1 3 ⟨2, by decide⟩ ⟨4, by decide⟩
  exact absurd heq (by decide)

/-- Process 1 takes over from process 0, and no one else has the lock. -/
theorem one_holder_taken_over :
    ((Sample.dead ++ Sample.judges 1 ++ Sample.breaks 1).foldl World.act World.start).Holds 1 ∧
      ∀ q, ((Sample.dead ++ Sample.judges 1 ++ Sample.breaks 1).foldl World.act World.start).Holds q →
        1 = q := by
  constructor
  · exact ⟨2, by decide⟩
  · intro q hq
    exact one_holder_of_spared (by decide) 1 q ⟨2, by decide⟩ hq

end Plur1bus.Engine
