import Mathlib.Data.List.Basic
import Mathlib.Data.Option.Basic
import Mathlib.Tactic.Common

/-!
A file system as a tree of named directories and files, with what renaming, creating
directories and removing do to the node at a path. A node that is not there is `none`, so
that a path can be followed anywhere. Two paths are apart if neither lies on the other; an
operation at one of them does not touch what is at the other.
-/

namespace Program

open List

inductive FileTree (N β : Type)
  | file (b : β)
  | dir (kids : List (N × FileTree N β))

namespace FileTree

variable {N β : Type} [DecidableEq N]

/-- The children with `n` replaced, or removed. -/
def assign (n : N) (v : Option (FileTree N β)) (kids : List (N × FileTree N β)) : List (N × FileTree N β) :=
  kids.filter (fun k => k.1 ≠ n) ++ v.toList.map fun t => (n, t)

theorem lookup_filter_ne (n m : N) (kids : List (N × FileTree N β)) :
    (kids.filter fun k => k.1 ≠ n).lookup m = if m = n then none else kids.lookup m := by
  induction kids with
  | nil => simp
  | cons k kids ih => grind

theorem lookup_append_of_none {m : N} {kids more : List (N × FileTree N β)}
    (h : kids.lookup m = none) : (kids ++ more).lookup m = more.lookup m := by
  induction kids with
  | nil => rfl
  | cons k kids ih => grind

variable {t : FileTree N β}

theorem lookup_append_of_some {m : N} {kids more : List (N × FileTree N β)} (h : kids.lookup m = some t) :
    (kids ++ more).lookup m = some t := by
  induction kids with
  | nil => cases h
  | cons k kids ih => grind

theorem lookup_assign_self (n : N) (v : Option (FileTree N β)) (kids : List (N × FileTree N β)) :
    (assign n v kids).lookup n = v := by
  unfold assign
  rw [lookup_append_of_none]
  · cases v with
    | none => rfl
    | some t => simp
  · rw [lookup_filter_ne, if_pos rfl]

theorem lookup_assign_ne {n m : N} (h : m ≠ n) (v : Option (FileTree N β))
    (kids : List (N × FileTree N β)) : (assign n v kids).lookup m = kids.lookup m := by
  unfold assign
  cases hm : kids.lookup m with
  | none => grind
  | some t =>
    rw [lookup_append_of_some]
    rw [lookup_filter_ne, if_neg h, hm]

def child (n : N) : Option (FileTree N β) → Option (FileTree N β)
  | some (.dir kids) => kids.lookup n
  | _ => none

/-- The node at a path. -/
def find : List N → Option (FileTree N β) → Option (FileTree N β)
  | [], o => o
  | n :: p, o => find p (child n o)

/-- What a node is, without what is in it: nothing, a directory, or a file. -/
def entry : Option (FileTree N β) → Option (Option β)
  | none => none
  | some (.file b) => some (some b)
  | some (.dir _) => some none

/-- The node at a path, changed; nothing is changed if the path leads nowhere. -/
def alter : List N → (Option (FileTree N β) → Option (FileTree N β)) → Option (FileTree N β) →
    Option (FileTree N β)
  | [], f, o => f o
  | n :: p, f, some (.dir kids) => some (.dir (assign n (alter p f (kids.lookup n)) kids))
  | _ :: _, _, o => o

/-- All that is above the path are directories. -/
def reaches : List N → Option (FileTree N β) → Bool
  | [], _ => true
  | n :: p, some (.dir kids) => reaches p (kids.lookup n)
  | _ :: _, _ => false

/-- Neither path lies on the other. -/
def Apart (p q : List N) : Prop := ¬p <+: q ∧ ¬q <+: p

omit [DecidableEq N] in
theorem Apart.symm {p q : List N} (h : Apart p q) : Apart q p := ⟨h.2, h.1⟩

omit [DecidableEq N] in
theorem Apart.cons {n : N} {p q : List N} (h : Apart (n :: p) (n :: q)) : Apart p q :=
  ⟨fun hp => h.1 (cons_prefix_cons.mpr ⟨rfl, hp⟩), fun hq => h.2 (cons_prefix_cons.mpr ⟨rfl, hq⟩)⟩

omit [DecidableEq N] in
/-- What lies on one of two paths that are apart is apart from the other. -/
theorem Apart.append {p q : List N} (h : Apart p q) (r : List N) : Apart (p ++ r) q := by
  constructor
  · intro hpre
    exact h.1 ((prefix_append p r).trans hpre)
  · intro hpre
    obtain hqp | hpq := List.prefix_or_prefix_of_prefix hpre (prefix_append p r)
    · exact h.2 hqp
    · exact h.1 hpq

omit [DecidableEq N] in
theorem Apart.append_left {p q : List N} (h : Apart p q) (r : List N) : Apart (r ++ p) (r ++ q) :=
  ⟨fun hp => h.1 ((prefix_append_right_inj r).mp hp), fun hq => h.2 ((prefix_append_right_inj r).mp hq)⟩

variable {o : Option (FileTree N β)} {p q : List N}

theorem find_append (p q : List N) (o : Option (FileTree N β)) : find (p ++ q) o = find q (find p o) := by
  induction p generalizing o with
  | nil => rfl
  | cons n p ih => exact ih (child n o)

theorem find_none (p : List N) : find p (none : Option (FileTree N β)) = none := by
  induction p with
  | nil => rfl
  | cons n p ih => exact ih

theorem reaches_of_find (h : find p o = some t) : reaches p o = true := by
  induction p generalizing o with
  | nil => rfl
  | cons n p ih =>
    cases o with
    | none =>
      rw [find_none] at h
      cases h
    | some t' =>
      cases t' with
      | file b =>
        have hnone : find p (none : Option (FileTree N β)) = some t := h
        rw [find_none] at hnone
        cases hnone
      | dir kids => exact ih h

theorem find_alter (h : reaches p o = true) (f : Option (FileTree N β) → Option (FileTree N β)) :
    find p (alter p f o) = f (find p o) := by
  induction p generalizing o with
  | nil => rfl
  | cons n p ih =>
    cases o with
    | none => cases h
    | some t =>
      cases t with
      | file b => cases h
      | dir kids =>
        show find p ((assign n _ kids).lookup n) = _
        rw [lookup_assign_self]
        exact ih h

/-- A change that creates nothing needs no directories. -/
theorem find_alter_of_none {f : Option (FileTree N β) → Option (FileTree N β)} (hf : f none = none)
    (p : List N) (o : Option (FileTree N β)) : find p (alter p f o) = f (find p o) := by
  induction p generalizing o with
  | nil => rfl
  | cons n p ih =>
    cases o with
    | none =>
      show find p none = f (find p none)
      rw [find_none, hf]
    | some t =>
      cases t with
      | file b =>
        show find p none = f (find p none)
        rw [find_none, hf]
      | dir kids =>
        show find p ((assign n _ kids).lookup n) = _
        rw [lookup_assign_self]
        exact ih _

theorem find_alter_apart (h : Apart p q) (f : Option (FileTree N β) → Option (FileTree N β))
    (o : Option (FileTree N β)) : find q (alter p f o) = find q o := by
  induction p generalizing q o with
  | nil => exact absurd List.nil_prefix h.1
  | cons n p ih =>
    cases q with
    | nil => exact absurd List.nil_prefix h.2
    | cons m q =>
      cases o with
      | none => rfl
      | some t =>
        cases t with
        | file b => rfl
        | dir kids =>
          show find q ((assign n _ kids).lookup m) = find q (kids.lookup m)
          by_cases hm : m = n
          · subst hm
            rw [lookup_assign_self]
            exact ih h.cons _
          · rw [lookup_assign_ne hm]

theorem entry_alter_of_ne_nil (hp : p ≠ []) (f : Option (FileTree N β) → Option (FileTree N β))
    (o : Option (FileTree N β)) : entry (alter p f o) = entry o := by
  cases p with
  | nil => exact absurd rfl hp
  | cons n p =>
    cases o with
    | none => rfl
    | some t =>
      cases t with
      | file b => rfl
      | dir kids => rfl

/-- What is above a path stays what it is. -/
theorem entry_find_alter_above {r : List N} (hr : r ≠ [])
    (f : Option (FileTree N β) → Option (FileTree N β)) (o : Option (FileTree N β)) :
    entry (find q (alter (q ++ r) f o)) = entry (find q o) := by
  induction q generalizing o with
  | nil => exact entry_alter_of_ne_nil hr f o
  | cons n q ih =>
    cases o with
    | none => rfl
    | some t =>
      cases t with
      | file b => rfl
      | dir kids =>
        show entry (find q ((assign n _ kids).lookup n)) = _
        rw [lookup_assign_self]
        exact ih _

omit [DecidableEq N] in
/-- A path that another does not lie under is apart from it or below it. -/
theorem apart_or_below (h : ¬p <+: q) : Apart p q ∨ ∃ r, r ≠ [] ∧ p = q ++ r := by
  by_cases hq : q <+: p
  · obtain ⟨r, rfl⟩ := hq
    refine .inr ⟨r, ?_, rfl⟩
    rintro rfl
    exact h (by simp)
  · exact .inl ⟨h, hq⟩

theorem entry_find_alter (h : ¬p <+: q) (f : Option (FileTree N β) → Option (FileTree N β))
    (o : Option (FileTree N β)) : entry (find q (alter p f o)) = entry (find q o) := by
  obtain hapart | ⟨r, hr, rfl⟩ := apart_or_below h
  · rw [find_alter_apart hapart]
  · exact entry_find_alter_above hr f o

/-- A change at or beside a path leaves what is above it directories. -/
theorem reaches_alter (h : reaches q o = true) (hp : ¬p <+: q ∨ p = q)
    (f : Option (FileTree N β) → Option (FileTree N β)) : reaches q (alter p f o) = true := by
  induction p generalizing q o with
  | nil =>
    obtain hp | rfl := hp
    · exact absurd List.nil_prefix hp
    · rfl
  | cons n p ih =>
    cases q with
    | nil => rfl
    | cons m q =>
      cases o with
      | none => cases h
      | some t =>
        cases t with
        | file b => cases h
        | dir kids =>
          show reaches q ((assign n _ kids).lookup m) = true
          by_cases hm : m = n
          · subst hm
            rw [lookup_assign_self]
            refine ih h ?_
            obtain hp | hp := hp
            · exact .inl fun hpre => hp (cons_prefix_cons.mpr ⟨rfl, hpre⟩)
            · exact .inr (List.cons.inj hp).2
          · rw [lookup_assign_ne hm]
            exact h

/-! ### Operations -/

/-- What may be renamed over what is there. -/
def replaces : FileTree N β → Option (FileTree N β) → Bool
  | _, none => true
  | .file _, some (.file _) => true
  | .dir _, some (.dir []) => true
  | _, _ => false

/-- `rename`; `none` if it fails. -/
def rename (src dst : List N) (o : Option (FileTree N β)) : Option (Option (FileTree N β)) :=
  match find src o with
  | none => none
  | some t =>
    if src = dst then some o
    else if reaches dst o && replaces t (find dst o) && !src.isPrefixOf dst then
      some (alter dst (fun _ => some t) (alter src (fun _ => none) o))
    else none

/-- The directories of a path, those that are missing created. -/
def grow : List N → Option (FileTree N β) → Option (FileTree N β)
  | [], none => some (.dir [])
  | [], some t => some t
  | n :: p, none => some (.dir (assign n (grow p none) []))
  | n :: p, some (.dir kids) => some (.dir (assign n (grow p (kids.lookup n)) kids))
  | _ :: _, some (.file b) => some (.file b)

/-- A file is in the way of a directory. -/
def blocked : List N → Option (FileTree N β) → Bool
  | _, none => false
  | _, some (.file _) => true
  | [], some (.dir _) => false
  | n :: p, some (.dir kids) => blocked p (kids.lookup n)

/-- `create_dir_all`; `none` if it fails. -/
def mkdirs (p : List N) (o : Option (FileTree N β)) : Option (Option (FileTree N β)) :=
  if blocked p o then none else some (grow p o)

def remove (p : List N) (o : Option (FileTree N β)) : Option (FileTree N β) := alter p (fun _ => none) o

section Rename

variable {src dst : List N} {o' : Option (FileTree N β)}

/-- What a rename that succeeds does, if the paths are apart. -/
theorem rename_spec (hapart : Apart src dst) (h : rename src dst o = some o') :
    ∃ t, find src o = some t ∧ reaches dst o = true ∧
      o' = alter dst (fun _ => some t) (alter src (fun _ => none) o) := by
  unfold rename at h
  split at h
  · cases h
  next t ht =>
  split at h
  next heq => exact absurd (heq ▸ prefix_rfl) hapart.1
  next =>
  split at h
  next hok =>
    simp only [Bool.and_eq_true] at hok
    exact ⟨t, ht, hok.1.1, (Option.some.inj h).symm⟩
  · cases h

theorem find_rename_dst (hapart : Apart src dst) (h : rename src dst o = some o') :
    find dst o' = find src o := by
  obtain ⟨t, ht, hreaches, rfl⟩ := rename_spec hapart h
  rw [find_alter (reaches_alter hreaches (.inl hapart.1) _), ht]

theorem find_rename_src (hapart : Apart src dst) (h : rename src dst o = some o') : find src o' = none := by
  obtain ⟨t, ht, -, rfl⟩ := rename_spec hapart h
  rw [find_alter_apart hapart.symm, find_alter (reaches_of_find ht)]

variable {r : List N}

theorem find_rename_apart (hapart : Apart src dst) (h : rename src dst o = some o') (hsrc : Apart src r)
    (hdst : Apart dst r) : find r o' = find r o := by
  obtain ⟨t, ht, -, rfl⟩ := rename_spec hapart h
  rw [find_alter_apart hdst, find_alter_apart hsrc]

theorem reaches_rename (hapart : Apart src dst) (h : rename src dst o = some o')
    (hr : reaches r o = true) (hsrc : ¬src <+: r ∨ src = r) (hdst : ¬dst <+: r ∨ dst = r) :
    reaches r o' = true := by
  obtain ⟨t, ht, -, rfl⟩ := rename_spec hapart h
  exact reaches_alter (reaches_alter hr hsrc _) hdst _

theorem entry_find_rename (hapart : Apart src dst) (h : rename src dst o = some o') (hsrc : ¬src <+: r)
    (hdst : ¬dst <+: r) : entry (find r o') = entry (find r o) := by
  obtain ⟨t, ht, -, rfl⟩ := rename_spec hapart h
  rw [entry_find_alter hdst, entry_find_alter hsrc]

/-- A rename to where nothing is succeeds. -/
theorem rename_of_none (hapart : Apart src dst) {t : FileTree N β} (hsrc : find src o = some t)
    (hreaches : reaches dst o = true) (hdst : find dst o = none) :
    ∃ o', rename src dst o = some o' := by
  have hne : src ≠ dst := fun h => hapart.1 (h ▸ prefix_rfl)
  have hpre : src.isPrefixOf dst = false := by
    rw [← Bool.not_eq_true, List.isPrefixOf_iff_prefix]
    exact hapart.1
  have hreplaces : replaces t (none : Option (FileTree N β)) = true := by cases t <;> rfl
  refine ⟨alter dst (fun _ => some t) (alter src (fun _ => none) o), ?_⟩
  unfold rename
  rw [hsrc]
  dsimp only
  rw [if_neg hne, hreaches, hdst, hreplaces, hpre]
  rfl

end Rename

theorem find_grow_of_outside (h : ¬q <+: p) (o : Option (FileTree N β)) : find q (grow p o) = find q o := by
  induction p generalizing q o with
  | nil =>
    cases q with
    | nil => exact absurd List.nil_prefix h
    | cons m q =>
      cases o with
      | none => rfl
      | some t => rfl
  | cons n p ih =>
    cases q with
    | nil => exact absurd List.nil_prefix h
    | cons m q =>
      have hkids : ∀ kids : List (N × FileTree N β),
          find q ((assign n (grow p (kids.lookup n)) kids).lookup m) = find q (kids.lookup m) := by
        intro kids
        by_cases hm : m = n
        · subst hm
          rw [lookup_assign_self]
          exact ih (fun hpre => h (cons_prefix_cons.mpr ⟨rfl, hpre⟩)) _
        · rw [lookup_assign_ne hm]
      cases o with
      | none => exact hkids []
      | some t =>
        cases t with
        | file b => rfl
        | dir kids => exact hkids kids

theorem entry_find_grow (h : find q o = some t) (p : List N) :
    entry (find q (grow p o)) = entry (some t) := by
  induction q generalizing p o with
  | nil =>
    subst h
    cases p with
    | nil => rfl
    | cons n p =>
      cases t with
      | file b => rfl
      | dir kids => rfl
  | cons m q ih =>
    cases o with
    | none =>
      rw [find_none] at h
      cases h
    | some t' =>
      cases t' with
      | file b =>
        have hnone : find q (none : Option (FileTree N β)) = some t := h
        rw [find_none] at hnone
        cases hnone
      | dir kids =>
        cases p with
        | nil => exact congrArg entry h
        | cons n p =>
          show entry (find q ((assign n _ kids).lookup m)) = _
          by_cases hm : m = n
          · subst hm
            rw [lookup_assign_self]
            exact ih h p
          · rw [lookup_assign_ne hm]
            exact congrArg entry h

/-- What was not there is a new directory, if it is anything. -/
theorem entry_find_grow_of_none (h : find q o = none) (p : List N) :
    entry (find q (grow p o)) = none ∨ entry (find q (grow p o)) = some none := by
  induction q generalizing p o with
  | nil =>
    subst h
    cases p with
    | nil => exact .inr rfl
    | cons n p => exact .inr rfl
  | cons m q ih =>
    have hkids : ∀ (kids : List (N × FileTree N β)) (n : N) (p : List N), find q (kids.lookup m) = none →
          entry (find q ((assign n (grow p (kids.lookup n)) kids).lookup m)) = none ∨
            entry (find q ((assign n (grow p (kids.lookup n)) kids).lookup m)) = some none := by
      intro kids n p hnone
      by_cases hm : m = n
      · subst hm
        rw [lookup_assign_self]
        exact ih hnone p
      · rw [lookup_assign_ne hm, hnone]
        exact .inl rfl
    cases p with
    | nil =>
      left
      cases o with
      | none =>
        show entry (find q (List.lookup m [])) = none
        rw [lookup_nil, find_none]
        rfl
      | some t =>
        show entry (find (m :: q) (some t)) = none
        rw [h]
        rfl
    | cons n p =>
      cases o with
      | none => exact hkids [] n p (find_none q)
      | some t =>
        cases t with
        | file b => exact .inl (congrArg entry h)
        | dir kids => exact hkids kids n p h

theorem reaches_grow_of_reaches (h : reaches q o = true) (p : List N) : reaches q (grow p o) = true := by
  induction q generalizing p o with
  | nil => rfl
  | cons m q ih =>
    cases o with
    | none => cases h
    | some t =>
      cases t with
      | file b => cases h
      | dir kids =>
        cases p with
        | nil => exact h
        | cons n p =>
          show reaches q ((assign n _ kids).lookup m) = true
          by_cases hm : m = n
          · subst hm
            rw [lookup_assign_self]
            exact ih h p
          · rw [lookup_assign_ne hm]
            exact h

/-- Where the directories are made, a child can be put. -/
theorem reaches_grow (h : blocked p o = false) (n : N) : reaches (p ++ [n]) (grow p o) = true := by
  induction p generalizing o with
  | nil =>
    cases o with
    | none => rfl
    | some t =>
      cases t with
      | file b => cases h
      | dir kids => rfl
  | cons m p ih =>
    have hkids : ∀ kids : List (N × FileTree N β), blocked p (kids.lookup m) = false →
        reaches (p ++ [n]) ((assign m (grow p (kids.lookup m)) kids).lookup m) = true := by
      intro kids hb
      rw [lookup_assign_self]
      exact ih hb
    cases o with
    | none =>
      refine hkids [] ?_
      cases p <;> rfl
    | some t =>
      cases t with
      | file b => cases h
      | dir kids => exact hkids kids h

/-- Nothing is in the way of a directory in a directory, if it is not there or is one. -/
theorem blocked_append_singleton {n : N} (hp : entry (find p o) = some none)
    (hn : entry (find (p ++ [n]) o) = none ∨ entry (find (p ++ [n]) o) = some none) :
    blocked (p ++ [n]) o = false := by
  induction p generalizing o with
  | nil =>
    cases o with
    | none => rfl
    | some t =>
      cases t with
      | file b => cases hp
      | dir kids =>
        show blocked [] (kids.lookup n) = false
        have hkid : entry (kids.lookup n) = none ∨ entry (kids.lookup n) = some none := hn
        cases hk : kids.lookup n with
        | none => rfl
        | some t =>
          rw [hk] at hkid
          cases t with
          | file b => obtain hkid | hkid := hkid <;> cases hkid
          | dir kids => rfl
  | cons m p ih =>
    cases o with
    | none => rfl
    | some t =>
      cases t with
      | file b =>
        have hnone : entry (find p (none : Option (FileTree N β))) = some none := hp
        rw [find_none] at hnone
        cases hnone
      | dir kids => exact ih hp hn

end FileTree

end Program
