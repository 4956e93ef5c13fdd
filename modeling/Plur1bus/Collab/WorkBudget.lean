import Mathlib.Logic.Function.Basic
import Plur1bus.Language
import Plur1bus.Program.Sums

/-!
The work budget of a delegation. A nested delegation gets a budget of its own
whose parent is the one it was made under, and what is reserved at a budget is
reserved at every budget above it too.

A budget is a closure over its limit, its parent and two counters. Here it is the
list of the levels from itself up to the root, each with the cell its counters are
kept in; a reservation is the list of what it holds at those levels, each with the
cell of the flag that says whether it still does. The cells are kept in a store.
-/

namespace Plur1bus.Collab.WorkBudget

/-- The counters of one budget. -/
structure Cell where
  used : ℤ := 0
  reserved : ℤ := 0
  deriving DecidableEq, Repr

structure Level where
  cell : ℕ
  limit : ℕ
  deriving DecidableEq, Repr

/-- A budget, then its parent, and so on up to the root. -/
abbrev Budget := List Level

/-- What a reservation holds at one level. -/
structure Link where
  cell : ℕ
  tokens : ℕ
  active : ℕ
  deriving DecidableEq, Repr

/-- A reservation, then its `upstream`, and so on up to the root's. -/
abbrev Reservation := List Link

structure Store where
  cells : ℕ → Cell := fun _ => {}
  active : ℕ → Bool := fun _ => false
  /-- The cell of the next flag. -/
  flags : ℕ := 0

namespace Store

/-- The counters of one budget change. -/
def count (s : Store) (cell : ℕ) (used reserved : ℤ) : Store :=
  let c := s.cells cell
  { s with cells := Function.update s.cells cell ⟨c.used + used, c.reserved + reserved⟩ }

@[simp] theorem count_active (s : Store) (cell : ℕ) (used reserved : ℤ) :
    (s.count cell used reserved).active = s.active := rfl

@[simp] theorem count_flags (s : Store) (cell : ℕ) (used reserved : ℤ) :
    (s.count cell used reserved).flags = s.flags := rfl

end Store

/-- `reserve`: the reservation, or `none` where it throws, and the store then. The
parent is asked after the own check and before the own counter changes. -/
def reserve (tokens : Number) : Budget → Store → Option Reservation × Store
  | [], s => (some [], s)
  | level :: parent, s =>
    match tokens.safeFrom 0 with
    | none => (none, s)
    | some n =>
      if (s.cells level.cell).used + (s.cells level.cell).reserved + n > level.limit then (none, s)
      else
        match reserve tokens parent s with
        | (none, s) => (none, s)
        | (some upstream, s) =>
          let s := s.count level.cell 0 n
          (some (⟨level.cell, n, s.flags⟩ :: upstream),
            { s with active := Function.update s.active s.flags true, flags := s.flags + 1 })

def settle (actual : ℕ) : Reservation → Store → Store
  | [], s => s
  | link :: upstream, s =>
    if s.active link.active then
      let s := { s with active := Function.update s.active link.active false }
      settle actual upstream (s.count link.cell actual (-link.tokens))
    else s

def release : Reservation → Store → Store
  | [], s => s
  | link :: upstream, s =>
    if s.active link.active then
      let s := { s with active := Function.update s.active link.active false }
      release upstream (s.count link.cell 0 (-link.tokens))
    else s

/-! ### Interleavings

Budgets and reservations are called by their numbers, in the order they were
made. A call of one that there is not does nothing: nobody can make it. -/

inductive Op where
  /-- `delegationWorkBudget(limit, parent)`. -/
  | create (limit : ℕ) (parent : Option ℕ)
  | reserve (budget : ℕ) (tokens : Number)
  | settle (reservation : ℕ) (actual : ℕ)
  | release (reservation : ℕ)
  deriving DecidableEq, Repr

structure State where
  store : Store := {}
  budgets : List Budget := []
  reservations : List Reservation := []

namespace State

/-- The parent's levels; a root has none. -/
def parentOf (s : State) : Option ℕ → Option Budget
  | none => some []
  | some parent => s.budgets[parent]?

def step (s : State) : Op → State
  | .create limit parent =>
    match s.parentOf parent with
    | none => s
    | some parent => { s with budgets := s.budgets ++ [⟨s.budgets.length, limit⟩ :: parent] }
  | .reserve budget tokens =>
    match s.budgets[budget]? with
    | none => s
    | some b =>
      match WorkBudget.reserve tokens b s.store with
      | (none, store) => { s with store }
      | (some reservation, store) =>
        { s with store, reservations := s.reservations ++ [reservation] }
  | .settle i actual =>
    match s.reservations[i]? with
    | none => s
    | some r => { s with store := WorkBudget.settle actual r s.store }
  | .release i =>
    match s.reservations[i]? with
    | none => s
    | some r => { s with store := WorkBudget.release r s.store }

/-- A call of `reserve` on this budget throws. -/
def Throws (s : State) (budget : ℕ) (tokens : Number) : Prop :=
  ∃ b, s.budgets[budget]? = some b ∧ (WorkBudget.reserve tokens b s.store).1 = none

/-- The limit of a budget that was made. -/
def limit? (s : State) (budget : ℕ) : Option ℕ := (s.budgets[budget]?).bind fun b =>
  b.head?.map Level.limit

end State

/-! ### What is to be accounted for

Beside the code, a book of the reservations that were made: the budgets each one
counts at, what it reserved, and how it ended. The first call that settles or
releases it decides. -/

inductive Ending where
  | active
  | settled (actual : ℕ)
  | released
  deriving DecidableEq, Repr

structure Entry where
  /-- The budget it was made at and the ones above it. -/
  path : List ℕ
  tokens : ℕ
  ending : Ending := .active
  deriving DecidableEq, Repr

namespace Entry

/-- What it counts for at every budget of its path. -/
def amount (e : Entry) : ℤ :=
  match e.ending with
  | .active => e.tokens
  | .settled actual => actual
  | .released => 0

def close (ending : Ending) (e : Entry) : Entry := if e.ending = .active then { e with ending } else e

end Entry

abbrev Book := List Entry

/-- The book after one call, which is made in the state `s`. -/
def Book.step (book : Book) (s : State) : Op → Book
  | .create _ _ => book
  | .reserve budget tokens =>
    match s.budgets[budget]? with
    | none => book
    | some b =>
      match (WorkBudget.reserve tokens b s.store).1 with
      | none => book
      | some _ =>
        book ++ [{ path := b.map Level.cell, tokens := (tokens.safeFrom 0).getD 0 }]
  | .settle i actual => book.modify i (Entry.close (.settled actual))
  | .release i => book.modify i (Entry.close .released)

/-- The code and the book side by side. -/
def act (s : State × Book) (op : Op) : State × Book := (s.1.step op, s.2.step s.1 op)

/-- What every reservation made at the budget or below it counts for. -/
def accounted (book : Book) (budget : ℕ) : ℤ :=
  Program.Keyed.sumOf (fun e => budget ∈ e.path) Entry.amount book

/-- An amount that is settled is not above what was reserved. -/
def Within (s : State × Book) : Op → Prop
  | .settle i actual => ∀ e ∈ s.2[i]?, e.ending = .active → actual ≤ e.tokens
  | _ => True

instance Within.instDecidable (s : State × Book) : (op : Op) → Decidable (Within s op)
  | .settle i actual =>
    inferInstanceAs (Decidable (∀ e ∈ s.2[i]?, e.ending = .active → actual ≤ e.tokens))
  | .create _ _ | .reserve _ _ | .release _ => .isTrue trivial

end Plur1bus.Collab.WorkBudget
