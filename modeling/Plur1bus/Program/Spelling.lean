import Mathlib.Data.List.Infix
import Mathlib.Data.Nat.Notation
import Mathlib.Tactic.Common
import Mathlib.Tactic.IntervalCases

/-!
Texts made of numerals and separators. A numeral in a radix reads back as the number it was
written from; and in pieces that have no separator in them, joined by one, no two separators
stand side by side.
-/

namespace Program

open List

/-! ### Numerals -/

def isHex (c : Char) : Bool := ('0' ≤ c && c ≤ '9') || ('a' ≤ c && c ≤ 'f') || ('A' ≤ c && c ≤ 'F')

def digitValue (c : Char) : ℕ :=
  if 'a' ≤ c then c.toNat - 87 else if 'A' ≤ c then c.toNat - 55 else c.toNat - 48

def parseInt (radix : ℕ) (s : List Char) : ℕ := s.foldl (fun n c => n * radix + digitValue c) 0

theorem isHex_digitChar {n : ℕ} (h : n < 16) : isHex n.digitChar = true := by
  interval_cases n <;> decide

theorem digitValue_digitChar {n : ℕ} (h : n < 16) : digitValue n.digitChar = n := by
  interval_cases n <;> decide

theorem parseInt_concat (radix : ℕ) (s : List Char) (c : Char) :
    parseInt radix (s ++ [c]) = parseInt radix s * radix + digitValue c := by
  rw [parseInt, foldl_append]
  rfl

theorem parseInt_toDigits {radix : ℕ} (hone : 1 < radix) (hmax : radix ≤ 16) (n : ℕ) :
    parseInt radix (Nat.toDigits radix n) = n := by
  induction n using Nat.strongRecOn with
  | _ n ih =>
    by_cases hn : n < radix
    · rw [Nat.toDigits_of_lt_base hn]
      show 0 * radix + digitValue n.digitChar = n
      rw [digitValue_digitChar (by omega)]
      omega
    · have hle : radix ≤ n := by omega
      rw [Nat.toDigits_of_base_le hone hle, parseInt_concat, ih _ (Nat.div_lt_self (by omega) hone),
        digitValue_digitChar (Nat.lt_of_lt_of_le (Nat.mod_lt _ (by omega)) hmax)]
      exact Nat.div_add_mod' n radix

theorem isHex_of_mem_toDigits {radix n : ℕ} (hone : 1 < radix) (hmax : radix ≤ 16) {c : Char}
    (hc : c ∈ Nat.toDigits radix n) : isHex c = true := by
  induction n using Nat.strongRecOn with
  | _ n ih =>
    by_cases hn : n < radix
    · rw [Nat.toDigits_of_lt_base hn] at hc
      rw [mem_singleton.mp hc]
      exact isHex_digitChar (by omega)
    · have hle : radix ≤ n := by omega
      rw [Nat.toDigits_of_base_le hone hle] at hc
      obtain hc | hc := mem_append.mp hc
      · exact ih _ (Nat.div_lt_self (by omega) hone) hc
      · rw [mem_singleton.mp hc]
        exact isHex_digitChar (Nat.lt_of_lt_of_le (Nat.mod_lt _ (by omega)) hmax)

theorem digitValue_lt {c : Char} (h : isHex c = true) : digitValue c < 16 := by
  simp only [isHex, Bool.or_eq_true, Bool.and_eq_true, decide_eq_true_eq, Char.le_def, UInt32.le_iff_toNat_le,
    Char.toNat_val] at h
  have h0 : '0'.toNat = 48 := rfl
  have h9 : '9'.toNat = 57 := rfl
  have ha : 'a'.toNat = 97 := rfl
  have hf : 'f'.toNat = 102 := rfl
  have hA : 'A'.toNat = 65 := rfl
  have hF : 'F'.toNat = 70 := rfl
  simp only [digitValue, Char.le_def, UInt32.le_iff_toNat_le, Char.toNat_val]
  split
  · omega
  · split <;> omega

theorem parseInt_lt {s : List Char} (h : ∀ c ∈ s, isHex c = true) : parseInt 16 s < 16 ^ s.length := by
  induction s using List.reverseRecOn with
  | nil => decide
  | append_singleton s c ih =>
    have hs := ih fun x hx => h x (mem_append_left _ hx)
    have hc := digitValue_lt (h c (mem_append_right _ (mem_singleton_self c)))
    rw [parseInt_concat, length_append, length_singleton, Nat.pow_succ]
    omega

theorem digitChar_digitValue {c : Char} (h : '0' ≤ c ∧ c ≤ '9') :
    digitValue c < 10 ∧ (digitValue c).digitChar = c := by
  have h0 : '0'.toNat = 48 := rfl
  have h9 : '9'.toNat = 57 := rfl
  have ha : 'a'.toNat = 97 := rfl
  have hA : 'A'.toNat = 65 := rfl
  simp only [Char.le_def, UInt32.le_iff_toNat_le, Char.toNat_val] at h
  have hvalue : digitValue c = c.toNat - 48 := by
    simp only [digitValue, Char.le_def, UInt32.le_iff_toNat_le, Char.toNat_val]
    rw [if_neg (by omega), if_neg (by omega)]
  rw [hvalue]
  obtain ⟨n, hn⟩ : ∃ n, n = c.toNat := ⟨_, rfl⟩
  have hc : c = Char.ofNat n := by rw [hn, Char.ofNat_toNat]
  refine ⟨by omega, ?_⟩
  rw [← hn, hc]
  have hrange : 48 ≤ n ∧ n ≤ 57 := by omega
  obtain ⟨hlow, hhigh⟩ := hrange
  interval_cases n <;> decide

/-- A decimal numeral that does not begin with a zero is the spelling of its number. -/
theorem toDigits_parseInt {s : List Char} (hdigits : ∀ c ∈ s, '0' ≤ c ∧ c ≤ '9') (hne : s ≠ [])
    (hhead : s.head? ≠ some '0') : 0 < parseInt 10 s ∧ Nat.toDigits 10 (parseInt 10 s) = s := by
  induction s using List.reverseRecOn with
  | nil => exact absurd rfl hne
  | append_singleton s c ih =>
    obtain ⟨hlt, hchar⟩ := digitChar_digitValue (hdigits c (by simp))
    rw [parseInt_concat]
    by_cases hs : s = []
    · subst hs
      have hpos : digitValue c ≠ 0 := by
        intro hzero
        rw [hzero] at hchar
        exact hhead (by rw [← hchar]; rfl)
      show 0 < 0 * 10 + digitValue c ∧ Nat.toDigits 10 (0 * 10 + digitValue c) = [c]
      rw [Nat.zero_mul, Nat.zero_add, Nat.toDigits_of_lt_base hlt, hchar]
      exact ⟨Nat.pos_of_ne_zero hpos, rfl⟩
    · have hhead' : s.head? ≠ some '0' := by
        rwa [List.head?_append_of_ne_nil _ hs] at hhead
      obtain ⟨hpos, htext⟩ := ih (fun x hx => hdigits x (mem_append_left _ hx)) hs hhead'
      refine ⟨by omega, ?_⟩
      rw [Nat.toDigits_of_base_le (by omega) (by omega)]
      have hdiv : (parseInt 10 s * 10 + digitValue c) / 10 = parseInt 10 s := by omega
      have hmod : (parseInt 10 s * 10 + digitValue c) % 10 = digitValue c := by omega
      rw [hdiv, hmod, htext, hchar]

/-! ### Where a text occurs in another -/

section Occurs

variable {α : Type} [DecidableEq α] {p s : List α} {d : ℕ}

def occursAt (p s : List α) (i : ℕ) : Bool := p.isPrefixOf (s.drop i)

def indexOf (p s : List α) : Option ℕ := (List.range (s.length + 1)).find? (occursAt p s)

def lastIndexOf (p s : List α) : Option ℕ := (List.range (s.length + 1)).reverse.find? (occursAt p s)

theorem find?_eq_of_unique {l : List ℕ} {q : ℕ → Bool} (h : ∀ i, q i = true ↔ i = d) (hd : d ∈ l) :
    l.find? q = some d := by
  cases hfind : l.find? q with
  | none => exact absurd ((h d).mpr rfl) (List.find?_eq_none.mp hfind d hd)
  | some i => rw [(h i).mp (List.find?_some hfind)]

theorem indexOf_of_unique (h : ∀ i, occursAt p s i = true ↔ i = d) (hd : d ≤ s.length) :
    indexOf p s = some d ∧ lastIndexOf p s = some d := by
  have hmem : d ∈ List.range (s.length + 1) := mem_range.mpr (by omega)
  exact ⟨find?_eq_of_unique h hmem, find?_eq_of_unique h (mem_reverse.mpr hmem)⟩

theorem indexOf_of_absent (h : ∀ i, occursAt p s i = false) : indexOf p s = none ∧ lastIndexOf p s = none := by
  constructor
  · exact List.find?_eq_none.mpr fun i _ => (by rw [h i]; exact Bool.false_ne_true)
  · exact List.find?_eq_none.mpr fun i _ => (by rw [h i]; exact Bool.false_ne_true)

/-- The text around an occurrence. -/
theorem split_of_indexOf (h : indexOf p s = some d) : s = s.take d ++ p ++ s.drop (d + p.length) := by
  have hocc : occursAt p s d = true := List.find?_some h
  obtain ⟨rest, hrest⟩ := List.isPrefixOf_iff_prefix.mp hocc
  have hdrop : s.drop (d + p.length) = rest := by
    rw [← drop_drop, ← hrest, drop_left]
  rw [hdrop, append_assoc, hrest, take_append_drop]

end Occurs

/-! ### Pieces and separators -/

section Pieces

variable {α : Type} [DecidableEq α] {c : α}

/-- No two separators side by side, and none at an end. -/
structure Tight (c : α) (l : List α) : Prop where
  apart : ∀ i : ℕ, l[i]? = some c → l[i + 1]? ≠ some c
  head : l.head? ≠ some c
  last : l.getLast? ≠ some c

omit [DecidableEq α] in
theorem tight_of_not_mem {l : List α} (h : c ∉ l) : Tight c l where
  apart := fun _ hi => absurd (mem_of_getElem? hi) h
  head := fun hl => h (mem_of_mem_head? hl)
  last := fun hl => h (mem_of_mem_getLast? hl)

omit [DecidableEq α] in
theorem Tight.cons_piece {l g : List α} (hl : Tight c l) (hne : l ≠ []) (hg : c ∉ g) (hgne : g ≠ []) :
    Tight c (g ++ c :: l) := by
  have hpiece : ∀ i : ℕ, g[i]? ≠ some c := fun i hi => hg (mem_of_getElem? hi)
  refine ⟨?_, ?_, ?_⟩
  · intro i hi hi'
    by_cases hlt : i < g.length
    · rw [List.getElem?_append_left hlt] at hi
      exact hpiece i hi
    · rw [List.getElem?_append_right (by omega)] at hi hi'
      obtain hzero | ⟨j, hj⟩ : i - g.length = 0 ∨ ∃ j, i - g.length = j + 1 := by
        cases h : i - g.length with
        | zero => exact .inl rfl
        | succ j => exact .inr ⟨j, rfl⟩
      · have hsucc : i + 1 - g.length = 0 + 1 := by omega
        rw [hsucc, List.getElem?_cons_succ] at hi'
        exact hl.head (by rw [List.head?_eq_getElem?]; exact hi')
      · have hsucc : i + 1 - g.length = j + 1 + 1 := by omega
        rw [hj, List.getElem?_cons_succ] at hi
        rw [hsucc, List.getElem?_cons_succ] at hi'
        exact hl.apart j hi hi'
  · obtain ⟨x, g', rfl⟩ := exists_cons_of_ne_nil hgne
    intro hx
    rw [cons_append, List.head?_cons] at hx
    exact hpiece 0 hx
  · rw [List.getLast?_append, List.getLast?_cons_of_ne_nil hne]
    intro hx
    cases h : l.getLast? with
    | none => exact hne (List.getLast?_eq_none_iff.mp h)
    | some x =>
      rw [h, Option.some_or] at hx
      exact hl.last (h.trans hx)

omit [DecidableEq α] in
theorem tight_intercalate {gs : List (List α)} (h : ∀ g ∈ gs, g ≠ [] ∧ c ∉ g) : Tight c ([c].intercalate gs) := by
  induction gs with
  | nil => exact tight_of_not_mem not_mem_nil
  | cons g gs ih =>
    obtain ⟨hne, hg⟩ := h g mem_cons_self
    cases gs with
    | nil =>
      rw [intercalate_singleton]
      exact tight_of_not_mem hg
    | cons g' gs =>
      rw [intercalate_cons_cons, append_assoc]
      refine (ih fun x hx => h x (mem_cons_of_mem _ hx)).cons_piece ?_ hg hne
      intro hnil
      have hlen := congrArg List.length hnil
      have hpos := length_pos_iff.mpr (h g' (mem_cons_of_mem _ mem_cons_self)).1
      cases gs with
      | nil =>
        rw [intercalate_singleton, length_nil] at hlen
        omega
      | cons g'' gs => simp_all

omit [DecidableEq α] in
theorem mem_intercalate {gs : List (List α)} {x : α} (h : x ∈ [c].intercalate gs) : x = c ∨ ∃ g ∈ gs, x ∈ g := by
  induction gs with
  | nil => cases h
  | cons g gs ih =>
    cases gs with
    | nil =>
      rw [intercalate_singleton] at h
      exact .inr ⟨g, mem_cons_self, h⟩
    | cons g' gs =>
      rw [intercalate_cons_cons, append_assoc] at h
      obtain h | h := mem_append.mp h
      · exact .inr ⟨g, mem_cons_self, h⟩
      · grind

theorem occursAt_pair {s : List α} {i : ℕ} :
    occursAt [c, c] s i = true ↔ s[i]? = some c ∧ s[i + 1]? = some c := by
  have hhead : s[i]? = (s.drop i)[0]? := by rw [List.getElem?_drop, Nat.add_zero]
  have hnext : s[i + 1]? = (s.drop i)[1]? := by rw [List.getElem?_drop]
  rw [hhead, hnext, occursAt]
  cases s.drop i with
  | nil => simp
  | cons x l =>
    cases l with
    | nil => simp [List.isPrefixOf]
    | cons y l => grind

theorem Tight.not_occursAt {l : List α} (h : Tight c l) (i : ℕ) : occursAt [c, c] l i = false := by
  rw [Bool.eq_false_iff]
  intro hocc
  obtain ⟨hi, hi'⟩ := occursAt_pair.mp hocc
  exact h.apart i hi hi'

/-- Two separators between tight texts are the only ones side by side. -/
theorem occursAt_between {a b : List α} (ha : Tight c a) (hb : Tight c b) (i : ℕ) :
    occursAt [c, c] (a ++ [c, c] ++ b) i = true ↔ i = a.length := by
  rw [occursAt_pair, append_assoc]
  constructor
  · rintro ⟨hi, hi'⟩
    obtain hlt | heq | hgt := Nat.lt_trichotomy i a.length
    · rw [List.getElem?_append_left hlt] at hi
      by_cases hlast : i + 1 < a.length
      · rw [List.getElem?_append_left hlast] at hi'
        exact absurd hi' (ha.apart i hi)
      · refine absurd ?_ ha.last
        rw [List.getLast?_eq_getElem?, ← hi]
        congr 1
        omega
    · exact heq
    · obtain ⟨j, hj⟩ : ∃ j, i - a.length = j + 1 := ⟨i - a.length - 1, by omega⟩
      have hsucc : i + 1 - a.length = j + 1 + 1 := by omega
      rw [List.getElem?_append_right (by omega), hj] at hi
      rw [List.getElem?_append_right (by omega), hsucc] at hi'
      change (c :: c :: b)[j + 1]? = _ at hi
      change (c :: c :: b)[j + 1 + 1]? = _ at hi'
      rw [List.getElem?_cons_succ] at hi
      rw [List.getElem?_cons_succ, List.getElem?_cons_succ] at hi'
      cases j with
      | zero =>
        rw [← List.head?_eq_getElem?] at hi'
        exact absurd hi' hb.head
      | succ j =>
        rw [List.getElem?_cons_succ] at hi
        exact absurd hi' (hb.apart j hi)
  · simp_all

omit [DecidableEq α] in
/-- The join of some of the pieces is a part of the join of all. -/
theorem intercalate_sublist {kept all : List (List α)} (h : kept.Sublist all) :
    ([c].intercalate kept).Sublist ([c].intercalate all) := by
  induction h with
  | slnil => exact List.Sublist.refl _
  | @cons kept all piece h ih =>
      cases all with
      | nil => rw [sublist_nil.mp h]; exact nil_sublist _
      | cons other all =>
          rw [intercalate_cons_cons]
          exact ih.trans (sublist_append_right _ _)
  | @cons_cons kept all piece h ih =>
      cases kept with
      | nil =>
          rw [intercalate_singleton]
          cases all with
          | nil => rw [intercalate_singleton]
          | cons other all =>
              rw [intercalate_cons_cons, append_assoc]
              exact sublist_append_left _ _
      | cons first kept =>
          cases all with
          | nil => cases h
          | cons other all =>
              rw [intercalate_cons_cons, intercalate_cons_cons]
              exact List.Sublist.append_left ih _

/-- A piece between separators has none. -/
theorem not_mem_of_mem_splitOn {l piece : List α} (h : piece ∈ l.splitOn c) : c ∉ piece := by
  induction l generalizing piece with
  | nil =>
    rw [splitOn_nil, mem_singleton] at h
    exact h ▸ not_mem_nil
  | cons x l ih =>
    rw [splitOn_cons_eq_if_modifyHead] at h
    obtain ⟨first, rest, hsplit⟩ := exists_cons_of_ne_nil (splitOn_ne_nil c l)
    rw [hsplit] at h ih
    split at h
    · obtain rfl | h := mem_cons.mp h
      · exact not_mem_nil
      · exact ih h
    · rename_i hx
      rw [modifyHead_cons] at h
      obtain rfl | h := mem_cons.mp h
      · grind
      · exact ih (mem_cons_of_mem _ h)

end Pieces

end Program
