import Plur1bus.Recall.Merge
import Plur1bus.Recall.Distinct
import Mathlib.Data.List.Sort
import Mathlib.Data.Prod.Lex
import Mathlib.Order.WithBot

/-!
What a merge returns. The numbers of the candidates are all different, so the
order is strict, and a sorted list does not show the order of the hash map that
it came from.
-/

namespace Plur1bus.Recall

open Program.Keyed List Option

/-! ### Wrappers and their numbers -/

/-- The candidates of one list of wrappers: numbered upwards, each a wrapper
with its tag. -/
theorem tagged_spec (namespace? : Option String) (priority : ℕ) (memory : Bool) (items : List Json)
    (ordinal : ℕ) :
    let r := tagged namespace? priority memory items ordinal
    ordinal ≤ r.2 ∧ r.1.Pairwise (fun a b => a.ordinal < b.ordinal) ∧
      ∀ c ∈ r.1, (ordinal ≤ c.ordinal ∧ c.ordinal < r.2) ∧
        ∃ item ∈ items, c.item = item.set "namespace" (namespaceLabel namespace?) := by
  induction items generalizing ordinal with
  | nil => exact ⟨Nat.le_refl _, .nil, fun c hc => (by cases hc)⟩
  | cons item items ih =>
    dsimp only
    rw [tagged]
    split
    · grind
    · obtain ⟨hle, hpair, hall⟩ := ih (ordinal + 1)
      refine ⟨by dsimp only at hle ⊢; omega, pairwise_cons.mpr ⟨fun c hc => ?_, hpair⟩,
        fun c hc => ?_⟩
      · have := (hall c hc).1.1
        dsimp only
        omega
      · grind

variable {V : Type}

/-- A memory of a result, with nothing but its namespace set. -/
def Wrapper (results : List (NamespaceResult V)) (m : Json) : Prop :=
  ∃ result ∈ results, ∃ item ∈ result.memories,
    m = item.set "namespace" (namespaceLabel (namespaceOf result.namespace?))

theorem candidates_spec (results : List (NamespaceResult V)) (ordinal : ℕ) :
    let r := candidates results ordinal
    (r.1.Pairwise (fun a b => a.ordinal < b.ordinal) ∧ ∀ c ∈ r.1, ordinal ≤ c.ordinal) ∧
    r.2.Pairwise (fun a b => a.ordinal < b.ordinal) ∧
      ∀ c ∈ r.2, ordinal ≤ c.ordinal ∧ Wrapper results c.item := by
  induction results generalizing ordinal with
  | nil =>
    exact ⟨⟨.nil, fun c hc => (by cases hc)⟩, .nil, fun c hc => (by cases hc)⟩
  | cons result results ih =>
    dsimp only
    rw [candidates]
    obtain ⟨hle, hpair, hall⟩ := tagged_spec (namespaceOf result.namespace?)
      (priorityOf (sourceKindOf result)) false result.canonical ordinal
    obtain ⟨hle', hpair', hall'⟩ := tagged_spec (namespaceOf result.namespace?)
      (priorityOf (sourceKindOf result)) true result.memories
      (tagged (namespaceOf result.namespace?) (priorityOf (sourceKindOf result)) false
        result.canonical ordinal).2
    obtain ⟨⟨hcanon, hcanon'⟩, hmem, hmem'⟩ := ih (tagged (namespaceOf result.namespace?)
      (priorityOf (sourceKindOf result)) true result.memories
      (tagged (namespaceOf result.namespace?) (priorityOf (sourceKindOf result)) false
        result.canonical ordinal).2).2
    refine ⟨⟨pairwise_append.mpr ⟨hpair, hcanon, fun a ha b hb => ?_⟩, fun c hc => ?_⟩,
      pairwise_append.mpr ⟨hpair', hmem, fun a ha b hb => ?_⟩, fun c hc => ?_⟩
    · have h1 := (hall a ha).1.2
      have h2 := hcanon' b hb
      omega
    · rcases mem_append.mp hc with hc | hc
      · exact (hall c hc).1.1
      · have := hcanon' c hc
        omega
    · have h1 := (hall' a ha).1.2
      have h2 := (hmem' b hb).1
      omega
    · rcases mem_append.mp hc with hc | hc
      · obtain ⟨⟨hlow, -⟩, item, hitem, heq⟩ := hall' c hc
        exact ⟨by omega, result, mem_cons_self, item, hitem, heq⟩
      · obtain ⟨hlow, other, hother, hwrapper⟩ := hmem' c hc
        exact ⟨by omega, other, mem_cons_of_mem _ hother, hwrapper⟩

/-! ### The order -/

def rerankOf (c : Candidate) : Option ℚ := (c.item.get "rerankScore").finite

def scoreOf (c : Candidate) : Option ℚ := (c.item.get "score").finite

/-- Reranked memories come first, by that score; the others by their own score;
the number decides between equal scores. -/
def Precedes (left right : Candidate) : Prop :=
  match rerankOf left, rerankOf right with
  | some _, none => True
  | none, some _ => False
  | some l, some r => r < l ∨ (l = r ∧ left.ordinal < right.ordinal)
  | none, none =>
      compareScores (scoreOf right) (scoreOf left) = .lt ∨
        (scoreOf left = scoreOf right ∧ left.ordinal < right.ordinal)

theorem compareScores_eq {a b : Option ℚ} : compareScores a b = .eq ↔ a = b := by
  cases a <;> cases b <;> simp [compareScores]

theorem compareScores_gt {a b : Option ℚ} : compareScores a b = .gt ↔ compareScores b a = .lt := by
  cases a <;> cases b <;> simp [compareScores, compare_gt_iff_gt, compare_lt_iff_lt]

theorem compare_gt {left right : Candidate} :
    compareCandidates left right = .gt ↔ Precedes right left := by
  rw [compareCandidates, Precedes, rerankOf, rerankOf, scoreOf, scoreOf]
  cases (left.item.get "rerankScore").finite with
  | none =>
    cases (right.item.get "rerankScore").finite with
    | none =>
      dsimp only
      rw [Ordering.then_eq_gt, compareScores_gt, compareScores_eq, compare_gt_iff_gt]
    | some r => exact iff_of_true rfl trivial
  | some l =>
    cases (right.item.get "rerankScore").finite with
    | none => exact ⟨fun h => (by cases h), False.elim⟩
    | some r =>
      dsimp only
      rw [Ordering.then_eq_gt, compare_gt_iff_gt, compare_eq_iff_eq, compare_gt_iff_gt]

/-- The order is that of a key: the tier, the score turned round, the number. -/
def sortKey (c : Candidate) : ℕ ×ₗ (WithTop ℚ ×ₗ ℕ) :=
  match rerankOf c with
  | some q => toLex (0, toLex (((-q : ℚ) : WithTop ℚ), c.ordinal))
  | none => toLex (1, toLex ((scoreOf c).elim ⊤ (fun q => ((-q : ℚ) : WithTop ℚ)), c.ordinal))

theorem precedes_iff {left right : Candidate} :
    Precedes left right ↔ sortKey left < sortKey right := by
  have hneg (a b : ℚ) : ((-a : ℚ) : WithTop ℚ) < ((-b : ℚ) : WithTop ℚ) ↔ b < a :=
    WithTop.coe_lt_coe.trans neg_lt_neg_iff
  have hinj (a b : ℚ) : ((-a : ℚ) : WithTop ℚ) = ((-b : ℚ) : WithTop ℚ) ↔ a = b :=
    WithTop.coe_inj.trans neg_inj
  rw [Precedes, sortKey, sortKey]
  cases rerankOf left with
  | none =>
    cases rerankOf right with
    | none =>
      simp only [Prod.Lex.toLex_lt_toLex, lt_self_iff_false, false_or, true_and]
      cases scoreOf left <;> cases scoreOf right <;>
        simp only [compareScores, elim_none, elim_some, hneg, hinj, lt_self_iff_false,
          false_or, true_and, WithTop.coe_lt_top, not_top_lt, WithTop.coe_ne_top, WithTop.top_ne_coe,
          compare_lt_iff_lt, some_inj, reduceCtorEq, false_and, or_false]
    | some r => simp only [Prod.Lex.toLex_lt_toLex, Nat.not_lt_zero, one_ne_zero, false_and, or_false]
  | some l =>
    cases rerankOf right with
    | none => simp only [Prod.Lex.toLex_lt_toLex, Nat.lt_one_iff, true_or]
    | some r =>
      simp only [Prod.Lex.toLex_lt_toLex, lt_self_iff_false, false_or, true_and, hneg, hinj]

theorem sortKey_ordinal {left right : Candidate} (h : sortKey left = sortKey right) :
    left.ordinal = right.ordinal := by
  rw [sortKey, sortKey] at h
  cases hl : rerankOf left <;> cases hr : rerankOf right <;> rw [hl, hr] at h <;>
    simp_all [Prod.ext_iff]

theorem le_iff_sortKey {left right : Candidate} :
    (compareCandidates left right != .gt) = true ↔ sortKey left ≤ sortKey right := by
  rw [bne_iff_ne, Ne, compare_gt, precedes_iff, not_lt]

variable {cs : List Candidate}

/-- Candidates of different numbers come out in strict order. -/
theorem sortCandidates_precedes (h : cs.Pairwise (fun a b => a.ordinal ≠ b.ordinal)) :
    (sortCandidates cs).Pairwise Precedes := by
  have hle : (sortCandidates cs).Pairwise (fun a b => (compareCandidates a b != .gt) = true) := by
    refine pairwise_mergeSort (fun a b c hab hbc => ?_) (fun a b => ?_) cs
    · exact le_iff_sortKey.mpr ((le_iff_sortKey.mp hab).trans (le_iff_sortKey.mp hbc))
    · rw [Bool.or_eq_true, le_iff_sortKey, le_iff_sortKey]
      exact le_total _ _
  have hne : (sortCandidates cs).Pairwise (fun a b => a.ordinal ≠ b.ordinal) :=
    (mergeSort_perm cs _).symm.pairwise h (fun hab => hab.symm)
  refine (hle.and hne).imp (fun hab => ?_)
  rw [precedes_iff]
  exact lt_of_le_of_ne (le_iff_sortKey.mp hab.1) (fun heq => hab.2 (sortKey_ordinal heq))

/-- The order that candidates came in does not show. -/
theorem sortCandidates_perm {cs' : List Candidate} (hperm : cs.Perm cs')
    (h : cs.Pairwise (fun a b => a.ordinal ≠ b.ordinal)) : sortCandidates cs = sortCandidates cs' := by
  have h' : cs'.Pairwise (fun a b => a.ordinal ≠ b.ordinal) :=
    hperm.pairwise h (fun hab => hab.symm)
  refine List.Perm.eq_of_pairwise (fun a b _ _ hab hba => ?_) (sortCandidates_precedes h)
    (sortCandidates_precedes h') ?_
  · exact absurd (precedes_iff.mp hab) (lt_asymm (precedes_iff.mp hba))
  · exact (mergeSort_perm cs _).trans (hperm.trans (mergeSort_perm cs' _).symm)

/-! ### Origins -/

def originOf (c : Candidate) : String := originKey (c.item.get "entry")

def WindowsApart (a b : Candidate) : Prop :=
  hasDisjointValidityWindows (candidateOf a.item) (candidateOf b.item) = true

theorem WindowsApart.symm {a b : Candidate} (h : WindowsApart a b) : WindowsApart b a := by
  rw [WindowsApart, hasDisjointValidityWindows_comm]
  exact h

/-- Candidates that may stand beside each other. -/
def Compatible (a b : Candidate) : Prop :=
  a.ordinal ≠ b.ordinal ∧ (originOf a ≠ "" → originOf a = originOf b → WindowsApart a b)

theorem Compatible.symm {a b : Candidate} (h : Compatible a b) : Compatible b a := by
  refine ⟨h.1.symm, fun hne heq => (h.2 (fun hempty => hne ?_) heq.symm).symm⟩
  rw [heq, hempty]

/-- Winners of one origin: their numbers differ and their windows are apart. -/
def Winners (cs : List Candidate) : Prop :=
  cs.Pairwise (fun a b => a.ordinal ≠ b.ordinal ∧ WindowsApart a b)

variable {c : Candidate}

theorem insertOrigin_spec {winners : List Candidate} (hw : Winners winners) (key : String)
    (hnew : ∀ x ∈ winners, x.ordinal ≠ c.ordinal) : Winners (insertOrigin winners c key).1 ∧
      ∀ x ∈ (insertOrigin winners c key).1, x = c ∨ x ∈ winners := by
  rw [insertOrigin]
  split
  · refine ⟨pairwise_append.mpr ⟨hw.filter _, pairwise_singleton _ _, fun x hx y hy => ?_⟩,
      fun x hx => ?_⟩
    · rw [mem_singleton.mp hy]
      obtain ⟨hx, hover⟩ := mem_filter.mp hx
      rw [overlaps, Bool.not_not] at hover
      exact ⟨hnew x hx, hover⟩
    · grind
  · exact ⟨hw, fun x hx => Or.inr hx⟩

/-- The groups hold candidates that were seen, each under its own origin. -/
structure Grouped (seen : List Candidate) (st : Origins) : Prop where
  unique : ∀ c ∈ st.unique, c ∈ seen ∧ originOf c = ""
  numbers : st.unique.Pairwise (fun a b => a.ordinal ≠ b.ordinal)
  keys : (st.groups.map Prod.fst).Nodup
  members : ∀ g ∈ st.groups, g.1 ≠ "" ∧ ∀ c ∈ g.2, c ∈ seen ∧ originOf c = g.1
  winners : ∀ g ∈ st.groups, Winners g.2

theorem originStep_eq (st : Origins) (c : Candidate) :
    originStep st c =
      if originOf c = "" then { st with unique := st.unique ++ [c] }
      else
        let inserted := insertOrigin
          (((rowAt Prod.fst (originOf c) st.groups).map Prod.snd).getD []) c (originOf c)
        ⟨st.unique, upsert Prod.fst (fun _ new => new) (originOf c, inserted.1) st.groups,
          st.notes ++ inserted.2⟩ := rfl

variable {seen : List Candidate} {st : Origins}

theorem Grouped.step (h : Grouped seen st) (hnew : ∀ x ∈ seen, x.ordinal ≠ c.ordinal) :
    Grouped (seen ++ [c]) (originStep st c) := by
  have hold : ∀ x ∈ seen, x ∈ seen ++ [c] := fun x hx => mem_append_left _ hx
  have hlast : c ∈ seen ++ [c] := mem_append_right _ (mem_singleton_self c)
  have hmembers : ∀ g ∈ st.groups, g.1 ≠ "" ∧ ∀ x ∈ g.2, x ∈ seen ++ [c] ∧ originOf x = g.1 :=
    fun g hg => ⟨(h.members g hg).1, fun x hx => ((h.members g hg).2 x hx).imp (hold x) id⟩
  have hunique : ∀ x ∈ st.unique, x ∈ seen ++ [c] ∧ originOf x = "" :=
    fun x hx => (h.unique x hx).imp (hold x) id
  rw [originStep_eq]
  split
  · rename_i hkey
    refine ⟨fun x hx => ?_, pairwise_append.mpr ⟨h.numbers, pairwise_singleton _ _,
      fun x hx y hy => ?_⟩, h.keys, hmembers, h.winners⟩
    · grind
    · rw [mem_singleton.mp hy]
      exact hnew x (h.unique x hx).1
  · rename_i hkey
    -- the group of the origin, empty if there is none yet
    have hgroup : Winners (((rowAt Prod.fst (originOf c) st.groups).map Prod.snd).getD []) ∧
        ∀ x ∈ ((rowAt Prod.fst (originOf c) st.groups).map Prod.snd).getD [],
          x ∈ seen ∧ originOf x = originOf c := by
      cases hrow : rowAt Prod.fst (originOf c) st.groups with
      | none => exact ⟨.nil, fun x hx => (by cases hx)⟩
      | some g =>
        obtain ⟨hg, hgkey⟩ := rowAt_some hrow
        refine ⟨h.winners g hg, fun x hx => ?_⟩
        rw [← hgkey]
        exact (h.members g hg).2 x hx
    obtain ⟨hwinners, hfrom⟩ := insertOrigin_spec hgroup.1 (originOf c)
      (fun x hx => hnew x (hgroup.2 x hx).1)
    generalize insertOrigin (((rowAt Prod.fst (originOf c) st.groups).map Prod.snd).getD []) c
      (originOf c) = inserted at hwinners hfrom
    have hkeys : ((upsert Prod.fst (fun _ new => new) (originOf c, inserted.1) st.groups).map
        Prod.fst).Nodup :=
      @nodup_keys_upsert _ _ _ Prod.fst (fun _ new => new) _ _ (fun _ _ => rfl) h.keys
    refine ⟨hunique, h.numbers, hkeys, fun g hg => ?_, fun g hg => ?_⟩
    · rcases mem_upsert_replace hg with rfl | ⟨hg, -⟩
      · grind
      · exact hmembers g hg
    · rcases mem_upsert_replace hg with rfl | ⟨hg, -⟩
      · exact hwinners
      · exact h.winners g hg

theorem grouped_foldl {memories : List Candidate}
    (hn : memories.Pairwise (fun a b => a.ordinal < b.ordinal)) :
    Grouped memories (memories.foldl originStep ⟨[], [], []⟩) := by
  induction memories using List.reverseRecOn with
  | nil =>
    exact ⟨fun _ h => (by cases h), .nil, .nil, fun _ h => (by cases h), fun _ h => (by cases h)⟩
  | append_singleton memories c ih =>
    obtain ⟨hold, -, hnew⟩ := pairwise_append.mp hn
    rw [foldl_append, foldl_cons, foldl_nil]
    exact (ih hold).step (fun x hx => (hnew x hx c (mem_singleton_self c)).ne)

theorem eq_of_ordinal (hn : cs.Pairwise (fun a b => a.ordinal < b.ordinal)) {a b : Candidate}
    (ha : a ∈ cs) (hb : b ∈ cs) (h : a.ordinal = b.ordinal) : a = b := by
  have hnodup : (cs.map Candidate.ordinal).Nodup :=
    pairwise_map.mpr (hn.imp (fun hab => hab.ne))
  exact inj_on_of_nodup_map hnodup ha hb h

theorem Grouped.compatible (h : Grouped seen st) (hn : seen.Pairwise (fun a b => a.ordinal < b.ordinal)) :
    (st.unique ++ (st.groups.map Prod.snd).flatten).Pairwise Compatible := by
  -- candidates of two origins are two candidates, so their numbers differ
  have hcross : ∀ a ∈ seen, ∀ b ∈ seen, originOf a ≠ originOf b → Compatible a b :=
    fun a ha b hb hne =>
      ⟨fun heq => hne (congrArg originOf (eq_of_ordinal hn ha hb heq)), fun _ heq => absurd heq hne⟩
  refine pairwise_append.mpr ⟨?_, pairwise_flatten.mpr ⟨fun l hl => ?_, ?_⟩,
    fun a ha b hb => ?_⟩
  · refine h.numbers.imp_of_mem (fun ha _ hne => ⟨hne, fun hkey => ?_⟩)
    exact absurd (h.unique _ ha).2 hkey
  · obtain ⟨g, hg, rfl⟩ := mem_map.mp hl
    exact (h.winners g hg).imp (fun hab => ⟨hab.1, fun _ _ => hab.2⟩)
  · refine pairwise_map.mpr ?_
    have hkeys : st.groups.Pairwise (fun g g' => g.1 ≠ g'.1) := pairwise_map.mp h.keys
    refine hkeys.imp_of_mem (fun {g g'} hg hg' hne a ha b hb => ?_)
    obtain ⟨hmem, hkey⟩ := (h.members g hg).2 a ha
    obtain ⟨hmem', hkey'⟩ := (h.members g' hg').2 b hb
    exact hcross a hmem b hmem' (by rw [hkey, hkey']; exact hne)
  · obtain ⟨l, hl, hb⟩ := mem_flatten.mp hb
    obtain ⟨g, hg, rfl⟩ := mem_map.mp hl
    obtain ⟨hmem, hkey⟩ := h.unique a ha
    obtain ⟨hmem', hkey'⟩ := (h.members g hg).2 b hb
    refine hcross a hmem b hmem' ?_
    rw [hkey, hkey']
    exact (h.members g hg).1.symm

section Order

variable {order : List (List Candidate) → List (List Candidate)}

theorem origins_perm (horder : ∀ l, (order l).Perm l) (memories : List Candidate) :
    (origins order memories).1.Perm (origins id memories).1 :=
  ((horder _).flatten).append_left _

theorem origins_spec {memories : List Candidate}
    (hn : memories.Pairwise (fun a b => a.ordinal < b.ordinal)) :
    (origins id memories).1.Pairwise Compatible ∧ ∀ c ∈ (origins id memories).1, c ∈ memories := by
  have h := grouped_foldl hn
  refine ⟨h.compatible hn, fun c hc => ?_⟩
  rcases mem_append.mp hc with hc | hc
  · exact (h.unique c hc).1
  · obtain ⟨l, hl, hc⟩ := mem_flatten.mp hc
    obtain ⟨g, hg, rfl⟩ := mem_map.mp hl
    exact ((h.members g hg).2 c hc).1

end Order


/-! ### Ids, sections and places -/

/-- Ids that came before go, and nothing else. -/
theorem dedupIds_spec (cs : List Candidate) (ids : List String) :
    (dedupIds cs ids).1.Sublist cs ∧
      (∀ c ∈ (dedupIds cs ids).1, idOf c ≠ "" → idOf c ∉ ids) ∧
      (dedupIds cs ids).1.Pairwise (fun a b => idOf a ≠ "" → idOf a ≠ idOf b) := by
  induction cs generalizing ids with
  | nil => exact ⟨.slnil, fun c hc => (by cases hc), .nil⟩
  | cons c cs ih =>
    rw [dedupIds]
    split
    · rename_i hempty
      obtain ⟨hsub, hnew, hpair⟩ := ih ids
      refine ⟨hsub.cons_cons c, fun x hx => ?_, pairwise_cons.mpr ⟨fun x _ hne => ?_, hpair⟩⟩
      · grind
      · exact absurd hempty hne
    · split
      · obtain ⟨hsub, hnew, hpair⟩ := ih ids
        exact ⟨hsub.cons c, hnew, hpair⟩
      · rename_i hfresh
        obtain ⟨hsub, hnew, hpair⟩ := ih (idOf c :: ids)
        refine ⟨hsub.cons_cons c, fun x hx => ?_, pairwise_cons.mpr ⟨fun x hx hne heq => ?_, hpair⟩⟩
        · grind
        · exact hnew x hx (heq ▸ hne) (heq ▸ mem_cons_self)

/-- What two sections are compared by. -/
def sectionKey (toLowerCase : String → String) (item : Json) : String :=
  normalized toLowerCase (item.get "heading") ++ "\x00" ++ normalized toLowerCase (item.get "text")

/-- The loop keeps sections of new keys, up to the cap. -/
theorem canonicalLoop_spec (toLowerCase : String → String) (cap : ℕ) (cs : List Candidate)
    (keys : List String) (canonical : List Json) (notes : List Note) (hcap : canonical.length ≤ cap)
    (hkeys : ∀ item ∈ canonical, sectionKey toLowerCase item ∈ keys)
    (hpair : canonical.Pairwise (fun a b => sectionKey toLowerCase a ≠ sectionKey toLowerCase b)) :
    (canonicalLoop toLowerCase cap cs keys canonical notes).1.length ≤ cap ∧
      (canonicalLoop toLowerCase cap cs keys canonical notes).1.Pairwise
        (fun a b => sectionKey toLowerCase a ≠ sectionKey toLowerCase b) := by
  induction cs generalizing keys canonical notes with
  | nil => exact ⟨hcap, hpair⟩
  | cons c cs ih =>
    rw [canonicalLoop]
    split
    · exact ih _ _ _ hcap hkeys hpair
    · rename_i hnew
      have hmore : ∀ item ∈ canonical, sectionKey toLowerCase item ∈
          sectionKey toLowerCase c.item :: keys :=
        fun item hitem => mem_cons_of_mem _ (hkeys item hitem)
      split
      · exact ih _ _ _ hcap hmore hpair
      · rename_i hroom
        refine ih _ _ _ ?_ (fun item hitem => ?_) (pairwise_append.mpr
          ⟨hpair, pairwise_singleton _ _, fun a ha b hb => ?_⟩)
        · rw [length_append, length_singleton]
          omega
        · rcases mem_append.mp hitem with hitem | hitem
          · exact hmore item hitem
          · rw [mem_singleton.mp hitem]
            exact mem_cons_self
        · rw [mem_singleton.mp hb]
          intro heq
          have hold := hkeys a ha
          rw [heq] at hold
          exact hnew hold

/-- Equal heading and text make an equal key. -/
theorem sectionKey_congr {toLowerCase : String → String} {a b : Json}
    (hheading : normalized toLowerCase (a.get "heading") = normalized toLowerCase (b.get "heading"))
    (htext : normalized toLowerCase (a.get "text") = normalized toLowerCase (b.get "text")) :
    sectionKey toLowerCase a = sectionKey toLowerCase b := by
  rw [sectionKey, sectionKey, hheading, htext]

/-- Every place is used once, and there are no more of them than rows asked
for. -/
theorem placesOf_spec (rows selected : List RecallCandidate) (used : List ℕ) :
    (placesOf rows selected used).length ≤ selected.length ∧
      (placesOf rows selected used).Nodup ∧
      ∀ place ∈ placesOf rows selected used, place ∉ used ∧ place < rows.length := by
  induction selected generalizing used with
  | nil => exact ⟨Nat.le_refl _, .nil, fun place h => (by cases h)⟩
  | cons row selected ih =>
    rw [placesOf]
    split
    · rename_i found place hfind
      obtain ⟨hlength, hnodup, hall⟩ := ih (place :: used)
      have htest := List.find?_some hfind
      have hplace : place ∉ used ∧ place < rows.length := by grind
      refine ⟨Nat.succ_le_succ hlength, nodup_cons.mpr ⟨fun hmem => ?_, hnodup⟩, fun p hp => ?_⟩
      · exact (hall place hmem).1 mem_cons_self
      · grind
    · grind

theorem select_spec (jaccardSimilarity : String → String → ℚ) (unique : List Candidate) (slots : ℕ)
    (options : MergeOptions) :
    (select jaccardSimilarity unique slots options).length ≤ slots ∧
      (select jaccardSimilarity unique slots options).Nodup := by
  rw [select]
  split
  · rw [length_range]
    exact ⟨Nat.min_le_right _ _, nodup_range⟩
  · obtain ⟨hlength, hnodup, -⟩ := placesOf_spec
      (unique.map (fun candidate => candidateOf candidate.item))
      (dedupResults jaccardSimilarity (options.dedupJaccard.getD DEFAULT_JACCARD)
        (unique.map (fun candidate => candidateOf candidate.item)) slots) []
    exact ⟨hlength.trans (dedupRun_length_le _ _ _ slots _), hnodup⟩

/-- What holds between any two elements holds between those at chosen places. -/
theorem pairwise_places {α β : Type} {R : α → α → Prop} (hsymm : ∀ {a b}, R a b → R b a)
    {l : List α} (hl : l.Pairwise R) {places : List ℕ} (hn : places.Nodup) (f : α → β)
    {R' : β → β → Prop} (hf : ∀ a b, R a b → R' (f a) (f b)) :
    (places.filterMap (fun place => (l[place]?).map f)).Pairwise R' := by
  refine pairwise_filterMap.mpr (hn.imp (fun {i j} hne a ha b hb => ?_))
  obtain ⟨x, hx, rfl⟩ := map_eq_some_iff.mp ha
  obtain ⟨y, hy, rfl⟩ := map_eq_some_iff.mp hb
  obtain ⟨hi, rfl⟩ := List.getElem?_eq_some_iff.mp hx
  obtain ⟨hj, rfl⟩ := List.getElem?_eq_some_iff.mp hy
  refine hf _ _ ?_
  rcases Nat.lt_or_gt_of_ne hne with hlt | hgt
  · exact pairwise_iff_getElem.mp hl i j hi hj hlt
  · exact hsymm (pairwise_iff_getElem.mp hl j i hj hi hgt)


theorem take_of_range {α β : Type} (l : List α) (n : ℕ) (f : α → β) :
    (List.range (min l.length n)).filterMap (fun place => (l[place]?).map f) = (l.take n).map f := by
  induction l generalizing n with
  | nil => simp
  | cons a l ih =>
    cases n with
    | zero => simp
    | succ n =>
      rw [length_cons, Nat.succ_min_succ, range_succ_eq_map, filterMap_cons,
        filterMap_map, take_succ_cons, map_cons, ← ih n]
      rfl

/-! ### The merge -/

section Merge

variable (toLowerCase : String → String) (jaccardSimilarity : String → String → ℚ)
  {order : List (List Candidate) → List (List Candidate)}

/-- The survivors do not depend on the order of the hash map. -/
theorem survivors_order (horder : ∀ l, (order l).Perm l) (results : List (NamespaceResult V)) :
    survivors order results = survivors id results := by
  obtain ⟨-, hnumbers, -⟩ := candidates_spec results 0
  have hperm := origins_perm horder (candidates results 0).2
  have hne : (origins order (candidates results 0).2).1.Pairwise (fun a b => a.ordinal ≠ b.ordinal) :=
    hperm.symm.pairwise ((origins_spec hnumbers).1.imp And.left) (fun hab => hab.symm)
  rw [survivors, survivors, sortCandidates_perm hperm hne]
  rfl

theorem survivors_spec (results : List (NamespaceResult V)) :
    (survivors id results).1.Pairwise Precedes ∧ (survivors id results).1.Pairwise Compatible ∧
      (survivors id results).1.Pairwise (fun a b => idOf a ≠ "" → idOf a ≠ idOf b) ∧
      ∀ c ∈ (survivors id results).1, Wrapper results c.item := by
  obtain ⟨-, hnumbers, hwrappers⟩ := candidates_spec results 0
  obtain ⟨hcompatible, hmem⟩ := origins_spec hnumbers
  have hperm := mergeSort_perm (origins id (candidates results 0).2).1
    (fun left right => compareCandidates left right != .gt)
  obtain ⟨hsub, -, hids⟩ := dedupIds_spec (sortCandidates (origins id (candidates results 0).2).1) []
  refine ⟨(sortCandidates_precedes (hcompatible.imp And.left)).sublist hsub,
    (hperm.symm.pairwise hcompatible (fun hab => hab.symm)).sublist hsub, hids, fun c hc => ?_⟩
  exact (hwrappers c (hmem c (hperm.mem_iff.mp (hsub.subset hc)))).2

theorem selectCanonical_spec (options : MergeOptions) (cs : List Candidate) :
    (selectCanonical toLowerCase options cs).1.length ≤ min options.canonicalMaxItems options.maxOut ∧
      (selectCanonical toLowerCase options cs).1.Pairwise
        (fun a b => sectionKey toLowerCase a ≠ sectionKey toLowerCase b) :=
  canonicalLoop_spec toLowerCase _ _ [] [] [] (Nat.zero_le _) (fun _ h => (by cases h)) .nil

/-- The merge keeps to its caps, its sections, ids and origins are told apart,
and without deduplication the memories are the first of the survivors in strict
order, in which a reranked memory's own score plays no part. -/
theorem merge_invariants (horder : ∀ l, (order l).Perm l) (results : List (NamespaceResult V))
    (options : MergeOptions) :
    let r := merge toLowerCase jaccardSimilarity order results options
    let kept := (survivors order results).1
    r.canonical.length + r.memories.length ≤ options.maxOut ∧
    r.canonical.length ≤ min options.canonicalMaxItems options.maxOut ∧
    r.canonical.Pairwise (fun a b =>
      ¬(normalized toLowerCase (a.get "heading") = normalized toLowerCase (b.get "heading") ∧
        normalized toLowerCase (a.get "text") = normalized toLowerCase (b.get "text"))) ∧
    (∀ m ∈ r.memories, Wrapper results m) ∧
    r.memories.Pairwise (fun a b => ((a.get "entry").get "id").text ≠ "" →
      ((a.get "entry").get "id").text ≠ ((b.get "entry").get "id").text) ∧
    r.memories.Pairwise (fun a b => originKey (a.get "entry") ≠ "" →
      originKey (a.get "entry") = originKey (b.get "entry") →
        hasDisjointValidityWindows (candidateOf a) (candidateOf b) = true) ∧
    kept.Pairwise Precedes ∧
    (options.dedupEnabled = false →
      r.memories = (kept.take (options.maxOut - r.canonical.length)).map Candidate.item) ∧
    ∀ order' : List (List Candidate) → List (List Candidate), (∀ l, (order' l).Perm l) →
      merge toLowerCase jaccardSimilarity order' results options = r := by
  intro r kept
  have hkept : kept = (survivors id results).1 := congrArg Prod.fst (survivors_order horder results)
  obtain ⟨hprecedes, hcompatible, hids, hwrappers⟩ := survivors_spec results
  rw [← hkept] at hprecedes hcompatible hids hwrappers
  obtain ⟨hcap, hsections⟩ := selectCanonical_spec toLowerCase options (candidates results 0).1
  obtain ⟨hlength, hnodup⟩ := select_spec jaccardSimilarity kept
    (options.maxOut - r.canonical.length) options
  have hmemories : r.memories = (select jaccardSimilarity kept (options.maxOut - r.canonical.length)
      options).filterMap (fun place => (kept[place]?).map Candidate.item) := rfl
  refine ⟨?_, hcap, hsections.imp (fun hne heq => hne (sectionKey_congr heq.1 heq.2)), fun m hm => ?_,
    ?_, ?_, hprecedes, fun hoff => ?_, fun order' horder' => ?_⟩
  · have hfew : r.memories.length ≤ options.maxOut - r.canonical.length := by
      rw [hmemories]
      exact (length_filterMap_le _ _).trans hlength
    have hmax := hcap.trans (Nat.min_le_right _ _)
    have : r.canonical.length ≤ options.maxOut := hmax
    omega
  · grind
  · rw [hmemories]
    have hsymm : ∀ {a b : Candidate}, (idOf a ≠ "" → idOf a ≠ idOf b) → idOf b ≠ "" → idOf b ≠ idOf a :=
      fun hab hne heq => hab (fun hempty => hne (heq.trans hempty)) heq.symm
    exact pairwise_places hsymm hids hnodup Candidate.item (fun a b hab => hab)
  · rw [hmemories]
    exact pairwise_places (fun hab => hab.symm) hcompatible hnodup Candidate.item
      (fun a b hab => hab.2)
  · rw [hmemories, select, if_pos (by rw [hoff]; rfl)]
    exact take_of_range kept _ Candidate.item
  · have hsame : survivors order' results = survivors order results :=
      (survivors_order horder' results).trans (survivors_order horder results).symm
    rw [merge, hsame]
    rfl

end Merge


/-- Two reranked memories of equal rerank scores, the second with the higher
score of its own. -/
def tied : NamespaceResult Unit :=
  let memory (id : String) (score : ℚ) : Json := .object
    [("entry", .object [("id", .string id), ("agentId", .string "a")]),
      ("score", .number score), ("rerankScore", .number (4 / 5))]
  ⟨some "main", none, none, [], [memory "tie-first" (1 / 10), memory "tie-second" (99 / 100)]⟩

/-- The hash map may give its groups backwards. -/
theorem merge_invariants_reversed :
    let r := merge id (fun _ _ => 0) List.reverse [tied] ⟨5, 5, true, none⟩
    let kept := (survivors List.reverse [tied]).1
    r.canonical.length + r.memories.length ≤ 5 ∧
    r.canonical.length ≤ min 5 5 ∧
    r.canonical.Pairwise (fun a b =>
      ¬(normalized id (a.get "heading") = normalized id (b.get "heading") ∧
        normalized id (a.get "text") = normalized id (b.get "text"))) ∧
    (∀ m ∈ r.memories, Wrapper [tied] m) ∧
    r.memories.Pairwise (fun a b => ((a.get "entry").get "id").text ≠ "" →
      ((a.get "entry").get "id").text ≠ ((b.get "entry").get "id").text) ∧
    r.memories.Pairwise (fun a b => originKey (a.get "entry") ≠ "" →
      originKey (a.get "entry") = originKey (b.get "entry") →
        hasDisjointValidityWindows (candidateOf a) (candidateOf b) = true) ∧
    kept.Pairwise Precedes ∧
    (true = false → r.memories = (kept.take (5 - r.canonical.length)).map Candidate.item) ∧
    ∀ order' : List (List Candidate) → List (List Candidate), (∀ l, (order' l).Perm l) →
      merge id (fun _ _ => 0) order' [tied] ⟨5, 5, true, none⟩ = r :=
  merge_invariants id (fun _ _ => 0) (fun l => reverse_perm l) [tied] ⟨5, 5, true, none⟩

/-- Between equal rerank scores the lower score comes first when it came first
in the input: the memories do not fall by rerank score and then by score. -/
theorem equal_rerank_scores_keep_input_order :
    let memories := (merge id (fun _ _ => 0) id [tied] ⟨5, 5, false, none⟩).memories
    let rerank := fun m : Json => (m.get "rerankScore").finite
    let score := fun m : Json => (m.get "score").finite
    memories.map (fun m => (rerank m, score m)) =
      [(some (4 / 5), some (1 / 10)), (some (4 / 5), some (99 / 100))] ∧
    ¬memories.Pairwise (fun a b => compareScores (rerank a) (rerank b) = .gt ∨
      (rerank a = rerank b ∧ compareScores (score a) (score b) ≠ .lt)) := by
  have hcanonical : (candidates [tied] 0).1 = [] := rfl
  have hsorted : sortCandidates (origins id (candidates [tied] 0).2).1 =
      (origins id (candidates [tied] 0).2).1 := mergeSort_of_pairwise (by decide +kernel)
  have hnil : sortCandidates [] = [] := mergeSort_nil
  intro memories rerank score
  dsimp only [memories, rerank, score]
  rw [merge, survivors, hsorted, hcanonical, selectCanonical, hnil]
  decide +kernel

end Plur1bus.Recall
