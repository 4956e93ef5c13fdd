import Plur1bus.Recall.Trim

/-!
The two caps: the one on the memories' text, which keeps an operational warning
whole even beyond the limit, and the one on the prompt, which takes droppable
blocks from the last one on. At most one block is cut there: a cut block takes
no more than what was left, so the next turn finds that everything fits.
-/

namespace Plur1bus.Recall

open Program.Occurrence List

structure ContextBlock where
  name : String
  text : JsString
  droppable : Bool
  chars : ℕ
  deriving DecidableEq

/-- One clip or drop, in the order of the caps. -/
structure Deferral where
  block : String
  kind : String
  fromChars : ℕ
  toChars : ℕ
  reason : String
  deriving DecidableEq

structure InjectionPlan where
  text : JsString
  deferrals : List Deferral

/-! ### The plan -/

def joined (parts : List ContextBlock) : JsString :=
  (units "\n\n").intercalate (parts.map ContextBlock.text)

/-- The last element that passes, with what stands before and behind it. -/
def splitLast {α : Type} (p : α → Bool) : List α → Option (List α × α × List α)
  | [] => none
  | a :: l =>
      match splitLast p l with
      | some (before, x, behind) => some (a :: before, x, behind)
      | none => if p a then some ([], a, l) else none

/-- The loop of the cap; empty when the turns ran out. -/
def planLoop (maxChars : ℚ) :
    ℕ → List ContextBlock → List Deferral → Option (List ContextBlock × List Deferral)
  | 0, _, _ => none
  | fuel + 1, current, deferrals =>
      if ((joined current).length : ℚ) > maxChars then
        match splitLast ContextBlock.droppable current with
        | none => some (current, deferrals)
        | some (before, block, behind) =>
            let allowed := max (block.text.length - ((joined current).length - maxChars)) 0
            let trimmed := (trimAtRecordBoundary block.text allowed).getD []
            let deferral : Deferral :=
              { block := block.name
                kind := if trimmed.isEmpty then "dropped" else "clipped"
                fromChars := block.text.length
                toChars := trimmed.length
                reason := "global-cap" }
            let rest := if trimmed.isEmpty then behind
              else { block with text := trimmed, chars := trimmed.length } :: behind
            planLoop maxChars fuel (before ++ rest) (deferrals ++ [deferral])
      else some (current, deferrals)

/-- The blocks that take part: those with a text. -/
def nonEmptyBlocks (blocks : List ContextBlock) : List ContextBlock :=
  blocks.filter (fun b => !b.text.isEmpty)

/-- The blocks after the cap. A limit that is not finite, or not positive, is
no cap. -/
def planBlocks (blocks : List ContextBlock) (maxChars : Option ℚ) :
    Option (List ContextBlock × List Deferral) :=
  let current := nonEmptyBlocks blocks
  match maxChars with
  | none => some (current, [])
  | some limit =>
      if 0 < limit then planLoop limit (current.length + 1) current [] else some (current, [])

def plan (blocks : List ContextBlock) (maxChars : Option ℚ) : Option InjectionPlan :=
  (planBlocks blocks maxChars).map
    (fun result => { text := joined result.1, deferrals := result.2 })

/-! ### The memories -/

def WARNING_OPEN : JsString := units "\n<operational-memory-warning>"

def WARNING_CLOSE : JsString := units "</operational-memory-warning>\n"

/-- Where the operational warning starts and ends. -/
def warning? (text : JsString) : Option (ℕ × ℕ) :=
  match find text WARNING_OPEN 0, find text WARNING_CLOSE 0 with
  | some start, some stop => some (start, stop + WARNING_CLOSE.length)
  | _, _ => none

def preserveWarning (text : JsString) (limit : ℕ) : Option JsString :=
  match warning? text with
  | some (start, stop) =>
      if limit < stop then
        some (slice text 0 start ++ TRUNCATION_MARKER ++ slice text start stop)
      else none
  | none => none

/-- A finite positive maximum, rounded down, or the default. -/
def limitOf (maximum : Option ℚ) : ℕ :=
  match maximum with
  | some m => if 0 < m then m.floor.toNat else 12000
  | none => 12000

def cutLength (limit cut reserve : ℕ) : ℕ := min cut (limit - (TRUNCATION_MARKER.length + reserve))

/-- A cut that was too long by its closings shrinks when they are held back. -/
theorem cutLength_lt {limit reserve short n k : ℕ} (hpos : short ≠ 0)
    (hlong : ¬min short n + TRUNCATION_MARKER.length + k ≤ limit) :
    cutLength limit short (max reserve k) < short := by
  rw [cutLength]
  omega

/-- The shrinking cut: when the closings do not fit, as many units are held
back, and the cut moves below. -/
def truncateLoop (text : JsString) (limit cut reserve : ℕ) : JsString :=
  let short := cutLength limit cut reserve
  let closings := closeOpenElements (text.take short)
  if (text.take short ++ TRUNCATION_MARKER ++ closings).length ≤ limit then
    text.take short ++ TRUNCATION_MARKER ++ closings
  else if short = 0 then (TRUNCATION_MARKER ++ closings).take limit
  else truncateLoop text limit short (max reserve closings.length)
termination_by cutLength limit cut reserve
decreasing_by
  rename_i hlong hpos
  rw [length_append, length_append, length_take] at hlong
  exact cutLength_lt hpos hlong

def truncateMemories (text : JsString) (maximum : Option ℚ) : JsString :=
  let limit := limitOf maximum
  if text.length ≤ limit then text
  else
    match preserveWarning text limit with
    | some result => result
    | none =>
        match trimAtRecordBoundary text limit with
        | some trimmed => trimmed
        | none =>
            let cut := match find text (units "<memory-record") 0 with
              | some i => if i ≤ limit then i else limit
              | none => limit
            truncateLoop text limit cut 0


/-! ### What the plan keeps -/

variable {α : Type}

theorem splitLast_some {p : α → Bool} {l before behind : List α} {x : α}
    (h : splitLast p l = some (before, x, behind)) : l = before ++ x :: behind ∧ p x = true := by
  induction l generalizing before behind x with
  | nil => cases h
  | cons a l ih =>
    rw [splitLast] at h
    split at h
    · rename_i hrest
      simp only [Option.some.injEq, Prod.mk.injEq] at h
      obtain ⟨rfl, rfl, rfl⟩ := h
      obtain ⟨rfl, hp⟩ := ih hrest
      exact ⟨rfl, hp⟩
    · split at h
      · rename_i hp
        simp only [Option.some.injEq, Prod.mk.injEq] at h
        obtain ⟨rfl, rfl, rfl⟩ := h
        exact ⟨rfl, hp⟩
      · cases h

theorem splitLast_none {p : α → Bool} {l : List α} (h : splitLast p l = none) :
    ∀ x ∈ l, p x = false := by
  induction l with
  | nil => exact fun x hx => (by cases hx)
  | cons a l ih =>
    rw [splitLast] at h
    split at h
    · cases h
    · rename_i hrest
      split at h
      · cases h
      · rename_i hp
        intro x hx
        rcases mem_cons.mp hx with rfl | hx
        · exact Bool.not_eq_true _ ▸ hp
        · exact ih hrest x hx

/-- Between two blocks stand two line breaks. -/
theorem length_joined {blocks : List ContextBlock} (hne : blocks ≠ []) :
    (joined blocks).length + 2 = (blocks.map (fun b => b.text.length + 2)).sum := by
  induction blocks with
  | nil => exact absurd rfl hne
  | cons b blocks ih =>
    cases blocks with
    | nil => simp [joined, List.intercalate]
    | cons b' blocks =>
      have hsep : (units "\n\n").length = 2 := by decide
      have hstep : (joined (b :: b' :: blocks)).length =
          b.text.length + (2 + (joined (b' :: blocks)).length) := by
        simp [joined, List.intercalate, hsep]
      rw [map_cons, sum_cons, ← ih (cons_ne_nil _ _), hstep]
      omega

/-- A block as it was, or a droppable one cut at a record's end. -/
def Clipped (block kept : ContextBlock) : Prop :=
  kept = block ∨ block.droppable = true ∧ ∃ allowed text,
    trimAtRecordBoundary block.text allowed = some text ∧
    kept = { block with text := text, chars := text.length }

/-- The fixed blocks are all kept, unchanged and in order, and the others are
some of them in order, each as it was or cut. -/
structure Keeps (blocks kept : List ContextBlock) : Prop where
  fixed : kept.filter (fun b => !b.droppable) = blocks.filter (fun b => !b.droppable)
  clipped : ∃ some, some.Sublist blocks ∧ List.Forall₂ Clipped some kept

theorem forall₂_clipped_refl (blocks : List ContextBlock) : List.Forall₂ Clipped blocks blocks :=
  List.forall₂_same.mpr (fun _ _ => Or.inl rfl)

/-- What a cut block takes is what was left for it. -/
theorem length_joined_clipped {before behind : List ContextBlock} {block kept : ContextBlock} :
    (joined (before ++ kept :: behind)).length + block.text.length =
      (joined (before ++ block :: behind)).length + kept.text.length := by
  have h := @length_joined (before ++ kept :: behind) (by simp)
  have h' := @length_joined (before ++ block :: behind) (by simp)
  simp only [map_append, map_cons, sum_append, sum_cons] at h h'
  omega

/-- A turn of the loop keeps what is to be kept; the loop ends within the cap,
or with fixed blocks only. -/
theorem planLoop_keeps {maxChars : ℚ} (fuel : ℕ) {blocks current : List ContextBlock}
    {deferrals : List Deferral} (hfuel : current.length < fuel) (hsub : current.Sublist blocks)
    (hfixed : current.filter (fun b => !b.droppable) = blocks.filter (fun b => !b.droppable)) :
    ∃ kept deferrals', planLoop maxChars fuel current deferrals = some (kept, deferrals') ∧
      Keeps blocks kept ∧
      (((joined kept).length : ℚ) ≤ maxChars ∨ ∀ b ∈ kept, b.droppable = false) := by
  induction fuel generalizing current deferrals with
  | zero => exact absurd hfuel (Nat.not_lt_zero _)
  | succ fuel ih =>
    have hkeeps : Keeps blocks current := ⟨hfixed, current, hsub, forall₂_clipped_refl current⟩
    rw [planLoop]
    split
    · rename_i hlong
      split
      · rename_i hnone
        exact ⟨current, deferrals, rfl, hkeeps, Or.inr (splitLast_none hnone)⟩
      · rename_i before block behind hsplit
        obtain ⟨rfl, hdrop⟩ := splitLast_some hsplit
        dsimp only
        cases htrim : trimAtRecordBoundary block.text
            (max (block.text.length - ((joined (before ++ block :: behind)).length - maxChars)) 0) with
        | none =>
          -- the block goes, and the rest has one fewer
          have hrest : (before ++ behind).Sublist (before ++ block :: behind) :=
            (sublist_cons_self block behind).append_left before
          have hsame : (before ++ behind).filter (fun b => !b.droppable) =
              (before ++ block :: behind).filter (fun b => !b.droppable) := by
            simp [hdrop]
          simp only [Option.getD_none, isEmpty_nil, if_true]
          simp only [length_append, length_cons] at hfuel
          refine ih ?_ (hrest.trans hsub) (hsame.trans hfixed)
          rw [length_append]
          omega
        | some text =>
          obtain ⟨hfits, hne⟩ := trimAtRecordBoundary_fits htrim
          have hempty : text.isEmpty = false := by
            rw [isEmpty_eq_false_iff]
            exact hne
          simp only [Option.getD_some, hempty, if_false, Bool.false_eq_true]
          -- what was cut fits, so this is the last turn
          have hpos : (0 : ℚ) < text.length := by
            exact_mod_cast length_pos_of_ne_nil hne
          have hallowed : (text.length : ℚ) ≤
              block.text.length - ((joined (before ++ block :: behind)).length - maxChars) :=
            (le_max_iff.mp hfits).resolve_right (by linarith)
          have hlen := @length_joined_clipped before behind block
            { block with text := text, chars := text.length }
          have hlen' : ((joined (before ++ { block with
              text := text, chars := text.length } :: behind)).length : ℚ) + block.text.length =
              (joined (before ++ block :: behind)).length + text.length := by
            exact_mod_cast hlen
          have hnow : ((joined (before ++ { block with
              text := text, chars := text.length } :: behind)).length : ℚ) ≤ maxChars := by
            linarith
          simp only [length_append, length_cons] at hfuel
          obtain ⟨fuel, rfl⟩ := Nat.exists_eq_add_of_lt (by omega : 0 < fuel)
          rw [Nat.zero_add, planLoop, if_neg (not_lt.mpr hnow)]
          refine ⟨_, _, rfl, ⟨?_, _, hsub, ?_⟩, Or.inl hnow⟩
          · rw [← hfixed]
            simp [hdrop]
          · exact rel_append (forall₂_clipped_refl before)
              (.cons (Or.inr ⟨hdrop, _, text, htrim, rfl⟩) (forall₂_clipped_refl behind))
    · rename_i hshort
      exact ⟨current, deferrals, rfl, hkeeps, Or.inl (not_lt.mp hshort)⟩

/-! ### What the memories' cap keeps -/

theorem truncateLoop_le (text : JsString) (limit cut reserve : ℕ) :
    (truncateLoop text limit cut reserve).length ≤ limit := by
  fun_induction truncateLoop text limit cut reserve with
  | case1 cut reserve short closings hfits => exact hfits
  | case2 cut reserve short closings hlong hzero => exact length_take_le _ _
  | case3 cut reserve short closings hlong hpos ih => exact ih

variable {text : JsString} {start stop : ℕ}

theorem preserveWarning_of_beyond {limit : ℕ} (hw : warning? text = some (start, stop))
    (hlt : limit < stop) : preserveWarning text limit =
      some (slice text 0 start ++ TRUNCATION_MARKER ++ slice text start stop) := by
  simp only [preserveWarning, hw, if_pos hlt]

theorem warning_end_le (hw : warning? text = some (start, stop)) : stop ≤ text.length := by
  rw [warning?] at hw
  split at hw
  · rename_i i j hopen hclose
    obtain ⟨-, rfl⟩ := Prod.mk.inj (Option.some.inj hw)
    exact (find_some hclose).2.1.end_le (by decide)
  · cases hw

/-- Where the warning is closed after it was opened, its text runs from the one
to the other. -/
theorem warning_whole (hw : warning? text = some (start, stop))
    (hle : start + WARNING_CLOSE.length ≤ stop) :
    WARNING_OPEN <+: text.drop start ∧ WARNING_CLOSE <:+ slice text start stop := by
  rw [warning?] at hw
  split at hw
  · rename_i i j hopen hclose
    obtain ⟨rfl, rfl⟩ := Prod.mk.inj (Option.some.inj hw)
    refine ⟨(find_some hopen).2.1, ?_⟩
    have hocc := (find_some hclose).2.1
    have hsuf := (occursAt_iff_suffix_take.mp ⟨hocc, hocc.end_le (by decide)⟩).1
    refine suffix_of_suffix_length_le hsuf (drop_suffix _ _) ?_
    have := hocc.end_le (by decide)
    rw [slice, length_drop, length_take]
    omega
  · cases hw

/-- Without a warning beyond the limit, the text is cut to the limit. -/
theorem truncateMemories_le {maximum : Option ℚ}
    (hno : ∀ start stop, warning? text = some (start, stop) → stop ≤ limitOf maximum) :
    (truncateMemories text maximum).length ≤ limitOf maximum := by
  have hwarning : preserveWarning text (limitOf maximum) = none := by
    rw [preserveWarning]
    split
    · rename_i start stop hw
      rw [if_neg (not_lt.mpr (hno start stop hw))]
    · rfl
  rw [truncateMemories]
  dsimp only
  split
  · assumption
  · rw [hwarning]
    dsimp only
    split
    · rename_i trimmed htrim
      exact_mod_cast (trimAtRecordBoundary_fits htrim).1
    · exact truncateLoop_le _ _ _ _

/-- Both caps hold. The plan comes to its end, keeps the fixed blocks as they
are and the others whole, cut at a record or not at all, and its text is within
the cap unless fixed blocks alone are left. The memories' text is within its
limit, except that a warning that ends beyond it is kept whole. -/
theorem injection_caps_hold (blocks : List ContextBlock) (maxChars : ℚ) (hpos : 0 < maxChars)
    (text : JsString) (maximum : Option ℚ) :
    (∃ kept deferrals, planBlocks blocks (some maxChars) = some (kept, deferrals) ∧
      plan blocks (some maxChars) = some { text := joined kept, deferrals := deferrals } ∧
      Keeps (nonEmptyBlocks blocks) kept ∧
      (((joined kept).length : ℚ) ≤ maxChars ∨ ∀ b ∈ kept, b.droppable = false)) ∧
    (∀ start stop, warning? text = some (start, stop) → limitOf maximum < stop →
      slice text start stop <:+: truncateMemories text maximum ∧
      (start + WARNING_CLOSE.length ≤ stop →
        WARNING_OPEN <+: text.drop start ∧ WARNING_CLOSE <:+ slice text start stop)) ∧
    ((∀ start stop, warning? text = some (start, stop) → stop ≤ limitOf maximum) →
      (truncateMemories text maximum).length ≤ limitOf maximum) := by
  refine ⟨?_, ?_, truncateMemories_le⟩
  · obtain ⟨kept, deferrals, hloop, hkeeps, hcap⟩ := @planLoop_keeps maxChars
      ((nonEmptyBlocks blocks).length + 1) (nonEmptyBlocks blocks) (nonEmptyBlocks blocks) []
      (Nat.lt_succ_self _) (List.Sublist.refl _) rfl
    have hblocks : planBlocks blocks (some maxChars) = some (kept, deferrals) := by
      simp only [planBlocks, if_pos hpos]
      exact hloop
    refine ⟨kept, deferrals, hblocks, ?_, hkeeps, hcap⟩
    rw [plan, hblocks]
    rfl
  · intro start stop hw hlt
    have hlong : ¬text.length ≤ limitOf maximum := by
      have := warning_end_le hw
      omega
    refine ⟨?_, warning_whole hw⟩
    rw [truncateMemories]
    dsimp only
    rw [if_neg hlong, preserveWarning_of_beyond hw hlt]
    exact (suffix_append _ _).isInfix

/-- A fixed block of five units and a droppable one under a cap of six: the
droppable one goes. -/
theorem injection_caps_hold_sample :
    ∃ kept deferrals, planBlocks
        [⟨"rules", units "rules", false, 5⟩, ⟨"memories", units "memories", true, 8⟩] (some 6) =
          some (kept, deferrals) ∧
      (((joined kept).length : ℚ) ≤ 6 ∨ ∀ b ∈ kept, b.droppable = false) := by
  obtain ⟨⟨kept, deferrals, hblocks, -, -, hcap⟩, -⟩ := injection_caps_hold
    [⟨"rules", units "rules", false, 5⟩, ⟨"memories", units "memories", true, 8⟩] 6
    (by decide) [] none
  exact ⟨kept, deferrals, hblocks, hcap⟩

end Plur1bus.Recall
