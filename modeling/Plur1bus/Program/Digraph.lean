import Mathlib.Data.Fintype.Card
import Mathlib.Data.Finset.BooleanAlgebra
import Mathlib.Tactic.Common
import Mathlib.Data.Finset.Max
import Mathlib.Logic.Relation
import Mathlib.Order.Bounds.Basic

/-!
Directed graphs: what lies a number of steps away; and for finite ones, what a
node reaches, found with a stack, and the largest part of a set that is closed under a condition, found by throwing the
offending nodes out until none is left.
-/

namespace Program.Digraph

open List

/-! ### Paths of a given length -/

/-- `n` steps of the relation lead from `a` to the other end. -/
inductive Hops {α : Type} (R : α → α → Prop) (a : α) : ℕ → α → Prop
  | here : Hops R a 0 a
  | hop {n : ℕ} {b c : α} : Hops R a n b → R b c → Hops R a (n + 1) c

theorem Hops.mono {α : Type} {R S : α → α → Prop} (h : ∀ a b, R a b → S a b) {a b : α} {n : ℕ}
    (hp : Hops R a n b) : Hops S a n b := by
  induction hp with
  | here => exact .here
  | hop _ hstep ih => exact .hop ih (h _ _ hstep)

/-! ### Reachability -/

/-- An edge of the graph. -/
def Edge {α : Type} (next : α → List α) (a b : α) : Prop := b ∈ next a

/-- A set whose successors are in it or on the stack leads nowhere else. -/
theorem leads_of_closed {α : Type} {next : α → List α} {stack : List α} {seen : Finset α}
    {a v : α} (hc : ∀ a ∈ seen, ∀ b ∈ next a, b ∈ seen ∨ b ∈ stack) (ha : a ∈ seen)
    (h : Relation.ReflTransGen (Edge next) a v) :
    v ∈ seen ∨ ∃ s ∈ stack, Relation.ReflTransGen (Edge next) s v := by
  induction h using Relation.ReflTransGen.head_induction_on with
  | refl => exact Or.inl ha
  | head hab hbv ih =>
    rcases hc _ ha _ hab with hb | hb
    · exact ih hb
    · exact Or.inr ⟨_, hb, hbv⟩

/-- Depth-first search: a node taken from the stack for the first time puts its
successors on it, the last one on top. -/
def explore {α : Type} [Fintype α] [DecidableEq α] (next : α → List α) : List α → Finset α → Finset α
  | [], seen => seen
  | n :: stack, seen =>
      if n ∈ seen then explore next stack seen
      else explore next ((next n).reverse ++ stack) (insert n seen)
termination_by stack seen => (seenᶜ.card, stack.length)
decreasing_by
  · exact Prod.Lex.right _ (Nat.lt_succ_self _)
  · apply Prod.Lex.left
    apply Finset.card_lt_card
    rw [Finset.compl_insert]
    apply Finset.erase_ssubset
    simpa using ‹_›

section Explore

variable {α : Type} [Fintype α] [DecidableEq α] (next : α → List α)

theorem mem_explore {stack : List α} {seen : Finset α} {v : α}
    (hc : ∀ a ∈ seen, ∀ b ∈ next a, b ∈ seen ∨ b ∈ stack) :
    v ∈ explore next stack seen ↔ v ∈ seen ∨ ∃ s ∈ stack, Relation.ReflTransGen (Edge next) s v := by
  fun_induction explore next stack seen with
  | case1 seen => simp
  | case2 n stack seen hn ih =>
    have hc' : ∀ a ∈ seen, ∀ b ∈ next a, b ∈ seen ∨ b ∈ stack := by grind
    rw [ih hc']
    constructor
    · grind
    · rintro (h | ⟨s, hs, h⟩)
      · exact Or.inl h
      · rcases mem_cons.mp hs with rfl | hs
        · exact leads_of_closed hc' hn h
        · exact Or.inr ⟨s, hs, h⟩
  | case3 n stack seen hn ih =>
    have hc' : ∀ a ∈ insert n seen, ∀ b ∈ next a, b ∈ insert n seen ∨ b ∈ (next n).reverse ++ stack := by
      intro a ha b hb
      rcases Finset.mem_insert.mp ha with rfl | ha
      · exact Or.inr (mem_append_left _ (mem_reverse.mpr hb))
      · grind
    rw [ih hc']
    constructor
    · rintro (h | ⟨s, hs, h⟩)
      · grind
      · rcases mem_append.mp hs with hs | hs
        · exact Or.inr ⟨n, mem_cons_self, .head (mem_reverse.mp hs) h⟩
        · exact Or.inr ⟨s, mem_cons_of_mem _ hs, h⟩
    · rintro (h | ⟨s, hs, h⟩)
      · exact Or.inl (Finset.mem_insert_of_mem h)
      · rcases mem_cons.mp hs with rfl | hs
        · exact leads_of_closed hc' (Finset.mem_insert_self _ _) h
        · exact Or.inr ⟨s, mem_append_right _ hs, h⟩

/-- Started from a node's successors, the search finds what the node reaches
in one step or more. -/
theorem mem_explore_next {u v : α} :
    v ∈ explore next (next u).reverse ∅ ↔ Relation.TransGen (Edge next) u v := by
  have hc : ∀ a ∈ (∅ : Finset α), ∀ b ∈ next a, b ∈ (∅ : Finset α) ∨ b ∈ (next u).reverse := by
    simp
  rw [mem_explore next hc, Relation.TransGen.head'_iff]
  simp [Edge]

end Explore

/-! ### The largest closed part -/

section Prune

variable {α : Type} [DecidableEq α] (blocked : Finset α → α → Bool)

/-- Throw the blocked nodes out, all at once, until none is blocked. -/
def prune (ok : Finset α) : Finset α :=
  if ok.filter (fun a => blocked ok a) = ∅ then ok
  else prune (ok \ ok.filter (fun a => blocked ok a))
termination_by ok.card
decreasing_by
  apply Finset.card_lt_card
  apply Finset.sdiff_ssubset (Finset.filter_subset _ _)
  exact Finset.nonempty_iff_ne_empty.mpr ‹_›

/-- The result is closed, and holds every closed part: a node that is blocked
among more is blocked among fewer, so nothing closed is ever thrown out. -/
theorem prune_greatest (hmono : ∀ S T a, S ⊆ T → blocked T a = true → blocked S a = true)
    (ok : Finset α) :
    IsGreatest {S : Finset α | S ⊆ ok ∧ ∀ a ∈ S, blocked S a = false} (prune blocked ok) := by
  fun_induction prune blocked ok with
  | case1 ok hnone =>
    refine ⟨⟨subset_rfl, fun a ha => ?_⟩, fun S hS => hS.1⟩
    have := Finset.filter_eq_empty_iff.mp hnone ha
    simpa using this
  | case2 ok hsome ih => grind

end Prune

end Program.Digraph
