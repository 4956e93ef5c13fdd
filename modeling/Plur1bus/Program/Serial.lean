import Mathlib.Data.List.Nodup
import Mathlib.Data.Nat.Notation
import Mathlib.Logic.Function.Basic
import Mathlib.Tactic.Common

/-!
Operations that run one at a time per key. A call waits for the call before it on the same key,
whether that one succeeded or not; it then reads the record of its key, decides what to do, and
writes or settles. The store may fail at any read or write, and calls on other keys go on at
any time.

The result is that the log of the writes is a history: on each key every write was decided
from the record that the write before it left, and a call that did not succeed wrote nothing.
-/

namespace Program

open List Function

namespace Serial

/-- What an operation decides once it has read its record. `none` is an operation that threw. -/
inductive Plan (R A : Type)
  | settle (a : Option A)
  | write (next : Option R) (a : A)

inductive Phase (R E A : Type)
  | waiting
  | read (cur : Option R)
  | writing (env : E) (next : Option R) (a : A)
  | done (a : Option A)

def Phase.isDone {R E A : Type} : Phase R E A → Bool
  | .done _ => true
  | _ => false

variable {K R O E A : Type}

/-- `prev` is the call on the same key before this one. -/
structure Call (K R O E A : Type) where
  key : K
  op : O
  prev : Option ℕ
  phase : Phase R E A

/-- A write: by which call, from what, to what. -/
structure Entry (K R O E A : Type) where
  call : ℕ
  key : K
  op : O
  env : E
  before : Option R
  after : Option R
  answer : A

structure State (K R O E A : Type) where
  store : K → Option R
  calls : List (Call K R O E A) := []
  chain : K → Option ℕ := fun _ => none
  log : List (Entry K R O E A) := []

inductive Act (K O E : Type)
  | call (k : K) (op : O)
  /-- The read answers, or fails. -/
  | get (i : ℕ) (ok : Bool)
  /-- The part that does not wait; `env` is what it reads, such as the time. -/
  | go (i : ℕ) (env : E)
  | put (i : ℕ) (ok : Bool)

namespace State

/-- The call before has come to an end. -/
def settled (s : State K R O E A) : Option ℕ → Bool
  | none => true
  | some p => (s.calls[p]?).all fun c => c.phase.isDone

def set (s : State K R O E A) (i : ℕ) (phase : Phase R E A) : State K R O E A :=
  { s with calls := s.calls.modify i fun c => { c with phase := phase } }

variable [DecidableEq K] (plan : O → E → Option R → Plan R A)

def act (s : State K R O E A) : Act K O E → State K R O E A
  | .call k op =>
    { s with
      calls := s.calls ++ [⟨k, op, s.chain k, .waiting⟩]
      chain := Function.update s.chain k (some s.calls.length) }
  | .get i ok =>
    match s.calls[i]? with
    | some ⟨k, _, prev, .waiting⟩ =>
      if s.settled prev then s.set i (if ok then .read (s.store k) else .done none) else s
    | _ => s
  | .go i env =>
    match s.calls[i]? with
    | some ⟨_, op, _, .read cur⟩ =>
      match plan op env cur with
      | .settle a => s.set i (.done a)
      | .write next a => s.set i (.writing env next a)
    | _ => s
  | .put i ok =>
    match s.calls[i]? with
    | some ⟨k, op, _, .writing env next a⟩ =>
      if ok then
        { s.set i (.done (some a)) with
          store := Function.update s.store k next
          log := s.log ++ [⟨i, k, op, env, s.store k, next, a⟩] }
      else s.set i (.done none)
    | _ => s

end State

/-! ### One at a time -/

section Invariant

variable [DecidableEq K] {plan : O → E → Option R → Plan R A} {s : State K R O E A} {i : ℕ}
  {c : Call K R O E A} {phase : Phase R E A}

/-- Each entry starts where the one before it ended. -/
def Linked : Option R → List (Entry K R O E A) → Option R → Prop
  | r, [], r' => r = r'
  | r, e :: log, r' => e.before = r ∧ Linked e.after log r'

omit [DecidableEq K] in
theorem Linked.concat {r r' : Option R} {log : List (Entry K R O E A)} (h : Linked r log r')
    (e : Entry K R O E A) (he : e.before = r') : Linked r (log ++ [e]) e.after := by
  induction log generalizing r with
  | nil =>
    have hr : r = r' := h
    exact ⟨he.trans hr.symm, rfl⟩
  | cons e' log ih => exact ⟨h.1, ih h.2⟩

omit [DecidableEq K] in
theorem linked_append {r r' : Option R} {log log' : List (Entry K R O E A)} :
    Linked r (log ++ log') r' ↔ ∃ mid, Linked r log mid ∧ Linked mid log' r' := by
  induction log generalizing r with
  | nil =>
    constructor
    · exact fun h => ⟨r, rfl, h⟩
    · rintro ⟨mid, rfl, h⟩
      exact h
  | cons e log ih =>
    constructor
    · rintro ⟨he, h⟩
      obtain ⟨mid, h₁, h₂⟩ := ih.mp h
      exact ⟨mid, ⟨he, h₁⟩, h₂⟩
    · rintro ⟨mid, ⟨he, h₁⟩, h₂⟩
      exact ⟨he, ih.mpr ⟨mid, h₁, h₂⟩⟩

/-- The calls on a key are linked in their order, and all but the last have come to an end once
a later one goes on. -/
structure Ordered (s : State K R O E A) : Prop where
  links : ∀ (i : ℕ) (c : Call K R O E A), s.calls[i]? = some c →
    ∀ (j : ℕ) (d : Call K R O E A), j < i → s.calls[j]? = some d → d.key = c.key →
    ∃ (p : ℕ) (e : Call K R O E A), c.prev = some p ∧ j ≤ p ∧ p < i ∧ s.calls[p]? = some e ∧ e.key = c.key
  last : ∀ (j : ℕ) (d : Call K R O E A), s.calls[j]? = some d →
    ∃ (p : ℕ) (e : Call K R O E A), s.chain d.key = some p ∧ j ≤ p ∧ p < s.calls.length ∧
    s.calls[p]? = some e ∧ e.key = d.key
  order : ∀ (i j : ℕ) (c d : Call K R O E A), i < j → s.calls[i]? = some c → s.calls[j]? = some d → c.key = d.key →
    d.phase ≠ .waiting → c.phase.isDone = true

omit [DecidableEq K] in
theorem getElem?_set (s : State K R O E A) (i j : ℕ) (phase : Phase R E A) :
    (s.set i phase).calls[j]? = (s.calls[j]?).map fun c => if i = j then { c with phase := phase } else c := by
  show (s.calls.modify i _)[j]? = _
  rw [List.getElem?_modify]
  rfl

omit [DecidableEq K] in
/-- What a call of the next state was. -/
theorem getElem?_set_some {j : ℕ} {d : Call K R O E A} (h : (s.set i phase).calls[j]? = some d) :
    ∃ d₀, s.calls[j]? = some d₀ ∧ d = if i = j then { d₀ with phase := phase } else d₀ := by
  rw [getElem?_set] at h
  obtain ⟨d₀, hd₀, rfl⟩ := Option.map_eq_some_iff.mp h
  exact ⟨d₀, hd₀, rfl⟩

omit [DecidableEq K] in
/-- A call goes on. -/
theorem Ordered.set (h : Ordered s) (hc : s.calls[i]? = some c) (hrun : c.phase.isDone = false)
    (hfirst : ∀ (j : ℕ) (d : Call K R O E A), j < i → s.calls[j]? = some d → d.key = c.key → d.phase.isDone = true)
    (phase : Phase R E A) : Ordered (s.set i phase) := by
  have hsame : ∀ {j : ℕ} {d d₀ : Call K R O E A}, d = (if i = j then { d₀ with phase := phase } else d₀) →
      d.key = d₀.key ∧ d.prev = d₀.prev := by
    rintro j d d₀ rfl
    split
    · exact ⟨rfl, rfl⟩
    · exact ⟨rfl, rfl⟩
  have hkeep : ∀ {j : ℕ} {d₀ : Call K R O E A}, s.calls[j]? = some d₀ →
      ∃ d, (s.set i phase).calls[j]? = some d ∧ d.key = d₀.key := by
    intro j d₀ hd₀
    rw [getElem?_set, hd₀]
    exact ⟨_, rfl, (hsame rfl).1⟩
  refine ⟨?_, ?_, ?_⟩
  · intro j d hd k e hlt he hkey
    obtain ⟨d₀, hd₀, hd⟩ := getElem?_set_some hd
    obtain ⟨e₀, he₀, he⟩ := getElem?_set_some he
    rw [(hsame hd).1, (hsame he).1] at hkey
    obtain ⟨p, f, hprev, hle, hlt', hf, hfkey⟩ := h.links j d₀ hd₀ k e₀ hlt he₀ hkey
    obtain ⟨f', hf', hfkey'⟩ := hkeep hf
    refine ⟨p, f', (hsame hd).2.trans hprev, hle, hlt', hf', ?_⟩
    rw [hfkey', hfkey, (hsame hd).1]
  · intro j d hd
    obtain ⟨d₀, hd₀, hd⟩ := getElem?_set_some hd
    obtain ⟨p, f, hchain, hle, hlt, hf, hfkey⟩ := h.last j d₀ hd₀
    obtain ⟨f', hf', hfkey'⟩ := hkeep hf
    refine ⟨p, f', ?_, hle, ?_, hf', ?_⟩
    · rw [(hsame hd).1]
      exact hchain
    · show p < (s.calls.modify i _).length
      rw [length_modify]
      exact hlt
    · rw [hfkey', hfkey, (hsame hd).1]
  · intro j k d e hlt hd he hkey hwait
    obtain ⟨d₀, hd₀, hd⟩ := getElem?_set_some hd
    obtain ⟨e₀, he₀, he⟩ := getElem?_set_some he
    rw [(hsame hd).1, (hsame he).1] at hkey
    by_cases hj : i = j
    · -- A later call has gone on only if this one was done.
      subst hj
      have hne : ¬i = k := Nat.ne_of_lt hlt
      rw [if_neg hne] at he
      rw [he] at hwait
      have hdone := h.order i k d₀ e₀ hlt hd₀ he₀ hkey hwait
      cases hc.symm.trans hd₀
      rw [hrun] at hdone
      cases hdone
    · rw [if_neg hj] at hd
      rw [hd]
      by_cases hk : i = k
      · subst hk
        cases hc.symm.trans he₀
        exact hfirst j d₀ hlt hd₀ hkey
      · rw [if_neg hk] at he
        rw [he] at hwait
        exact h.order j k d₀ e₀ hlt hd₀ he₀ hkey hwait

omit [DecidableEq K] in
/-- A call whose predecessor is done is the first that is not. -/
theorem Ordered.first_of_settled (h : Ordered s) (hc : s.calls[i]? = some c) (hprev : s.settled c.prev = true) :
    ∀ (j : ℕ) (d : Call K R O E A), j < i → s.calls[j]? = some d → d.key = c.key → d.phase.isDone = true := by
  intro j d hlt hd hkey
  obtain ⟨p, e, hp, hle, -, he, hekey⟩ := h.links i c hc j d hlt hd hkey
  have hdone : e.phase.isDone = true := by
    rw [hp] at hprev
    change (s.calls[p]?).all _ = true at hprev
    rw [he] at hprev
    exact hprev
  by_cases hjp : j = p
  · subst hjp
    cases hd.symm.trans he
    exact hdone
  · refine h.order j p d e (Nat.lt_of_le_of_ne hle hjp) hd he (hkey.trans hekey.symm) ?_
    intro hwait
    rw [hwait] at hdone
    cases hdone

omit [DecidableEq K] in
/-- Of two calls on a key, one waits or is done. -/
theorem Ordered.alone (h : Ordered s) {j : ℕ} {d : Call K R O E A} (hc : s.calls[i]? = some c)
    (hd : s.calls[j]? = some d) (hkey : d.key = c.key) (hij : i ≠ j) (hcwait : c.phase ≠ .waiting)
    (hcrun : c.phase.isDone = false) (hdwait : d.phase ≠ .waiting) (hdrun : d.phase.isDone = false) : False := by
  obtain hlt | hlt := Nat.lt_or_gt_of_ne hij
  · have hdone := h.order i j c d hlt hc hd hkey.symm hdwait
    rw [hcrun] at hdone
    cases hdone
  · have hdone := h.order j i d c hlt hd hc hkey hcwait
    rw [hdrun] at hdone
    cases hdone

/-- A new call is the last on its key. -/
theorem Ordered.call (h : Ordered s) (k : K) (op : O) : Ordered (s.act plan (.call k op)) := by
  -- The new call is at the end; all others are where they were.
  have hcases : ∀ {j : ℕ} {d : Call K R O E A}, (s.act plan (.call k op)).calls[j]? = some d →
      (j < s.calls.length ∧ s.calls[j]? = some d) ∨ (j = s.calls.length ∧ d = ⟨k, op, s.chain k, .waiting⟩) := by
    intro j d hd
    change (s.calls ++ [_])[j]? = some d at hd
    by_cases hj : j < s.calls.length
    · rw [List.getElem?_append_left hj] at hd
      exact .inl ⟨hj, hd⟩
    · grind
  have hold : ∀ {j : ℕ} {d : Call K R O E A}, s.calls[j]? = some d →
      j < s.calls.length ∧ (s.act plan (.call k op)).calls[j]? = some d := by
    intro j d hd
    have hlt := (List.getElem?_eq_some_iff.mp hd).1
    refine ⟨hlt, ?_⟩
    show (s.calls ++ [_])[j]? = some d
    rw [List.getElem?_append_left hlt]
    exact hd
  refine ⟨?_, ?_, ?_⟩
  · intro j d hd l e hlt he hkey
    obtain ⟨hj, hd⟩ | ⟨rfl, rfl⟩ := hcases hd
    · obtain ⟨-, he⟩ | ⟨rfl, -⟩ := hcases he
      · obtain ⟨p, f, hprev, hle, hlt', hf, hfkey⟩ := h.links j d hd l e hlt he hkey
        exact ⟨p, f, hprev, hle, hlt', (hold hf).2, hfkey⟩
      · omega
    · obtain ⟨-, he⟩ | ⟨rfl, -⟩ := hcases he
      · obtain ⟨p, f, hchain, hle, hlt', hf, hfkey⟩ := h.last l e he
        rw [hkey] at hchain hfkey
        exact ⟨p, f, hchain, hle, hlt', (hold hf).2, hfkey⟩
      · omega
  · intro j d hd
    have hnew : (s.act plan (.call k op)).calls[s.calls.length]? = some ⟨k, op, s.chain k, .waiting⟩ := by
      show (s.calls ++ [_])[s.calls.length]? = _
      rw [List.getElem?_append_right (Nat.le_refl _), Nat.sub_self]
      rfl
    have hlen : s.calls.length < (s.act plan (.call k op)).calls.length := by
      show s.calls.length < (s.calls ++ [_]).length
      rw [length_append, length_singleton]
      omega
    by_cases hk : d.key = k
    · refine ⟨s.calls.length, _, ?_, ?_, hlen, hnew, hk.symm⟩
      · show Function.update s.chain k _ d.key = _
        rw [hk, update_self]
      · obtain ⟨hj, -⟩ | ⟨rfl, -⟩ := hcases hd
        · exact Nat.le_of_lt hj
        · exact Nat.le_refl _
    · obtain ⟨-, hd⟩ | ⟨-, rfl⟩ := hcases hd
      · obtain ⟨p, f, hchain, hle, hlt, hf, hfkey⟩ := h.last j d hd
        refine ⟨p, f, ?_, hle, Nat.lt_trans hlt hlen, (hold hf).2, hfkey⟩
        show Function.update s.chain k _ d.key = _
        rw [update_of_ne hk]
        exact hchain
      · exact absurd rfl hk
  · intro j l d e hlt hd he hkey hwait
    obtain ⟨hl, he⟩ | ⟨rfl, rfl⟩ := hcases he
    · obtain ⟨-, hd⟩ | ⟨rfl, -⟩ := hcases hd
      · exact h.order j l d e hlt hd he hkey hwait
      · omega
    · exact absurd rfl hwait

/-- What a call has read is what is there, and what it is about to write was decided from that. -/
def Fresh (plan : O → E → Option R → Plan R A) (store : K → Option R) (c : Call K R O E A) : Prop :=
  match c.phase with
  | .read cur => cur = store c.key
  | .writing env next a => plan c.op env (store c.key) = .write next a
  | .waiting | .done _ => True

structure Sound (plan : O → E → Option R → Plan R A) (store₀ : K → Option R) (s : State K R O E A) : Prop where
  ordered : Ordered s
  fresh : ∀ (i : ℕ) (c : Call K R O E A), s.calls[i]? = some c → Fresh plan s.store c
  planned : ∀ e ∈ s.log, plan e.op e.env e.before = .write e.after e.answer
  succeeded : ∀ e ∈ s.log, ∃ c : Call K R O E A, s.calls[e.call]? = some c ∧ c.key = e.key ∧ c.op = e.op ∧
    c.phase = .done (some e.answer)
  once : (s.log.map Entry.call).Nodup
  history : ∀ k, Linked (store₀ k) (s.log.filter fun e => e.key = k) (s.store k)

variable {store₀ : K → Option R}

theorem Sound.start (store₀ : K → Option R) : Sound plan store₀ ({ store := store₀ } : State K R O E A) where
  ordered := ⟨fun _ _ h => (by cases h), fun _ _ h => (by cases h), fun _ _ _ _ _ h => (by cases h)⟩
  fresh := fun _ _ h => (by cases h)
  planned := fun _ h => absurd h not_mem_nil
  succeeded := fun _ h => absurd h not_mem_nil
  once := nodup_nil
  history := fun _ => rfl

/-- A call that is not done has written nothing. -/
theorem Sound.not_logged (h : Sound plan store₀ s) (hc : s.calls[i]? = some c) (hrun : c.phase.isDone = false) :
    ∀ e ∈ s.log, e.call ≠ i := by
  rintro e he rfl
  obtain ⟨c', hc', -, -, hphase⟩ := h.succeeded e he
  cases hc.symm.trans hc'
  rw [hphase] at hrun
  cases hrun

/-- What is logged stays done when another call goes on. -/
theorem Sound.succeeded_set (h : Sound plan store₀ s) (hc : s.calls[i]? = some c) (hrun : c.phase.isDone = false)
    (phase : Phase R E A) : ∀ e ∈ s.log, ∃ c' : Call K R O E A, (s.set i phase).calls[e.call]? = some c' ∧
      c'.key = e.key ∧ c'.op = e.op ∧ c'.phase = .done (some e.answer) := by
  intro e he
  obtain ⟨c', hc', hrest⟩ := h.succeeded e he
  refine ⟨c', ?_, hrest⟩
  rw [getElem?_set, hc', Option.map_some, if_neg (Ne.symm (h.not_logged hc hrun e he))]

/-- A call goes on without writing. -/
theorem Sound.set (h : Sound plan store₀ s) (hc : s.calls[i]? = some c) (hrun : c.phase.isDone = false)
    (hfirst : ∀ (j : ℕ) (d : Call K R O E A), j < i → s.calls[j]? = some d → d.key = c.key → d.phase.isDone = true)
    (hfresh : Fresh plan s.store { c with phase := phase }) : Sound plan store₀ (s.set i phase) where
  ordered := h.ordered.set hc hrun hfirst phase
  fresh := by
    intro j d hd
    obtain ⟨d₀, hd₀, rfl⟩ := getElem?_set_some hd
    by_cases hj : i = j
    · subst hj
      cases hc.symm.trans hd₀
      rw [if_pos rfl]
      exact hfresh
    · rw [if_neg hj]
      exact h.fresh j d₀ hd₀
  planned := h.planned
  succeeded := h.succeeded_set hc hrun phase
  once := h.once
  history := h.history

/-- The call that goes on is the first on its key. -/
theorem Sound.first (h : Sound plan store₀ s) (hc : s.calls[i]? = some c) (hwait : c.phase ≠ .waiting) :
    ∀ (j : ℕ) (d : Call K R O E A), j < i → s.calls[j]? = some d → d.key = c.key → d.phase.isDone = true :=
  fun j d hlt hd hkey => h.ordered.order j i d c hlt hd hc hkey hwait

/-- A write. No other call on its key has read what it replaces. -/
theorem Sound.write (h : Sound plan store₀ s) {env : E} {next : Option R} {a : A} (hc : s.calls[i]? = some c)
    (hphase : c.phase = .writing env next a) :
    Sound plan store₀ { s.set i (.done (some a)) with
      store := Function.update s.store c.key next
      log := s.log ++ [⟨i, c.key, c.op, env, s.store c.key, next, a⟩] } := by
  have hrun : c.phase.isDone = false := by
    rw [hphase]
    rfl
  have hwait : c.phase ≠ .waiting := by
    rw [hphase]
    intro hno
    cases hno
  have hplan : plan c.op env (s.store c.key) = .write next a := by
    have hfresh := h.fresh i c hc
    unfold Fresh at hfresh
    rw [hphase] at hfresh
    exact hfresh
  have hordered := h.ordered.set hc hrun (h.first hc hwait) (.done (some a))
  refine ⟨⟨hordered.links, hordered.last, hordered.order⟩, ?_, ?_, ?_, ?_, ?_⟩
  · intro j d hd
    obtain ⟨d₀, hd₀, rfl⟩ := getElem?_set_some hd
    by_cases hj : i = j
    · rw [if_pos hj]
      trivial
    rw [if_neg hj]
    show Fresh plan (Function.update s.store c.key next) d₀
    by_cases hkey : d₀.key = c.key
    · -- The other calls on the key wait, or are done.
      cases hp : d₀.phase with
      | waiting =>
        unfold Fresh
        rw [hp]
        trivial
      | done a' =>
        unfold Fresh
        rw [hp]
        trivial
      | read cur =>
        refine (h.ordered.alone hc hd₀ hkey hj hwait hrun ?_ ?_).elim
        · rw [hp]
          intro hno
          cases hno
        · rw [hp]
          rfl
      | writing env' next' a' =>
        refine (h.ordered.alone hc hd₀ hkey hj hwait hrun ?_ ?_).elim
        · rw [hp]
          intro hno
          cases hno
        · rw [hp]
          rfl
    · have hfresh := h.fresh j d₀ hd₀
      unfold Fresh at hfresh ⊢
      rw [update_of_ne hkey]
      exact hfresh
  · intro e he
    obtain he | he := mem_append.mp he
    · exact h.planned e he
    · rw [mem_singleton.mp he]
      exact hplan
  · intro e he
    obtain he | he := mem_append.mp he
    · exact h.succeeded_set hc hrun _ e he
    · rw [mem_singleton.mp he]
      refine ⟨{ c with phase := .done (some a) }, ?_, rfl, rfl, rfl⟩
      show (s.set i _).calls[i]? = _
      rw [getElem?_set, hc, Option.map_some, if_pos rfl]
  · rw [map_append, nodup_append]
    refine ⟨h.once, nodup_singleton _, ?_⟩
    rintro x hx y hy rfl
    obtain ⟨e, he, rfl⟩ := mem_map.mp hx
    exact h.not_logged hc hrun e he (mem_singleton.mp hy)
  · intro k
    show Linked (store₀ k) ((s.log ++ [_]).filter _) (Function.update s.store c.key next k)
    rw [filter_append]
    by_cases hk : c.key = k
    · subst hk
      rw [update_self, filter_cons_of_pos (by simp), filter_nil]
      exact (h.history c.key).concat ⟨i, c.key, c.op, env, s.store c.key, next, a⟩ rfl
    · rw [update_of_ne (Ne.symm hk), filter_cons_of_neg (by simpa using hk), filter_nil, append_nil]
      exact h.history k

/-- What holds at the start holds after every act. -/
theorem Sound.act (h : Sound plan store₀ s) (a : Act K O E) : Sound plan store₀ (s.act plan a) := by
  cases a with
  | call k op =>
    have hold : ∀ {j : ℕ} {d : Call K R O E A}, s.calls[j]? = some d →
        (s.act plan (.call k op)).calls[j]? = some d := by
      intro j d hd
      show (s.calls ++ [_])[j]? = some d
      rw [List.getElem?_append_left (List.getElem?_eq_some_iff.mp hd).1]
      exact hd
    refine ⟨h.ordered.call k op, ?_, h.planned, ?_, h.once, h.history⟩
    · intro j d hd
      change (s.calls ++ [_])[j]? = some d at hd
      by_cases hj : j < s.calls.length
      · rw [List.getElem?_append_left hj] at hd
        exact h.fresh j d hd
      · rw [List.getElem?_append_right (Nat.le_of_not_lt hj), List.getElem?_singleton] at hd
        split at hd
        · cases hd
          trivial
        · cases hd
    · intro e he
      obtain ⟨c, hc, hrest⟩ := h.succeeded e he
      exact ⟨c, hold hc, hrest⟩
  | get i ok =>
    simp only [State.act]
    split
    next k op prev hc =>
      split
      next hprev =>
        refine h.set hc rfl (h.ordered.first_of_settled hc hprev) ?_
        cases ok with
        | true => rfl
        | false => trivial
      next => exact h
    next => exact h
  | go i env =>
    simp only [State.act]
    split
    next k op prev cur hc =>
      have hcur : cur = s.store k := h.fresh i _ hc
      have hfirst := h.first hc (fun hno => (by cases hno))
      split
      next a hplan => exact h.set hc rfl hfirst trivial
      next next a hplan =>
        refine h.set hc rfl hfirst ?_
        show plan op env (s.store k) = _
        rw [← hcur]
        exact hplan
    next => exact h
  | put i ok =>
    simp only [State.act]
    split
    next k op prev env next a hc =>
      split
      next => exact h.write hc rfl
      next => exact h.set hc rfl (h.first hc (fun hno => (by cases hno))) trivial
    next => exact h

/-- Every run of the machine has a history. -/
theorem sound_run (store₀ : K → Option R) (acts : List (Act K O E)) :
    Sound plan store₀ (acts.foldl (State.act plan) { store := store₀ }) := by
  have hkeep : ∀ (s : State K R O E A), Sound plan store₀ s → Sound plan store₀ (acts.foldl (State.act plan) s) := by
    induction acts with
    | nil => exact fun s hs => hs
    | cons a acts ih => exact fun s hs => ih _ (hs.act a)
  exact hkeep _ (Sound.start store₀)

end Invariant

end Serial

end Program
