import Plur1bus.Recall.Budget
import Mathlib.Order.Bounds.Basic
import Mathlib.Order.Lattice.Nat

/-!
What the cut at a record boundary finds. Every turn of its loop takes the
longest prefix that leaves room for the marker and a reserve, and the reserve is
the length of the closings that did not fit the turn before. So the loop is a
walk through reserves, `Ends` says where it comes to, and the longest prefix
that fits is found exactly when no reserve on the way is too large for it.
-/

namespace Plur1bus.Recall

open Program.Occurrence List

/-! ### Record ends -/

/-- A prefix of this length ends a record. -/
def IsRecordEnd (base : JsString) (c : ℕ) : Prop := c ≤ base.length ∧ RECORD_CLOSE <:+ base.take c

theorem recordClose_ne : RECORD_CLOSE ≠ [] := by decide

theorem recordClose_head : ∀ k, 0 < k → k < RECORD_CLOSE.length → RECORD_CLOSE[k]? ≠ RECORD_CLOSE[0]? := by
  have hall : ∀ k < 16, 0 < k → RECORD_CLOSE[k]? ≠ RECORD_CLOSE[0]? := by decide
  exact fun k hpos hk => hall k hk hpos

variable {c : ℕ}

theorem isRecordEnd_iff :
    IsRecordEnd base c ↔ ∃ i, OccursAt RECORD_CLOSE base i ∧ c = i + RECORD_CLOSE.length := by
  constructor
  · rintro ⟨hle, hsuf⟩
    have hlen := hsuf.length_le
    rw [length_take, Nat.min_eq_left hle] at hlen
    obtain ⟨i, rfl⟩ := Nat.exists_eq_add_of_le' hlen
    exact ⟨i, (occursAt_iff_suffix_take.mpr ⟨hsuf, hle⟩).1, rfl⟩
  · rintro ⟨i, hi, rfl⟩
    have := occursAt_iff_suffix_take.mp ⟨hi, hi.end_le recordClose_ne⟩
    exact ⟨this.2, this.1⟩

theorem IsRecordEnd.pos (h : IsRecordEnd base c) : 0 < c := by
  obtain ⟨i, -, rfl⟩ := isRecordEnd_iff.mp h
  exact Nat.lt_of_lt_of_le (length_pos_of_ne_nil recordClose_ne) (Nat.le_add_left _ _)

variable {start : ℕ}

/-- From a record's end on, the next ends are those of later occurrences. -/
theorem IsRecordEnd.behind (hs : start = 0 ∨ IsRecordEnd base start) (h : IsRecordEnd base c) :
    c ≤ start ∨ ∃ j, start ≤ j ∧ OccursAt RECORD_CLOSE base j ∧ c = j + RECORD_CLOSE.length := by
  obtain ⟨j, hj, rfl⟩ := isRecordEnd_iff.mp h
  by_cases hlt : start ≤ j
  · exact Or.inr ⟨j, hlt, hj, rfl⟩
  · left
    rcases hs with rfl | hs
    · omega
    · obtain ⟨i, hi, rfl⟩ := isRecordEnd_iff.mp hs
      rcases Nat.lt_or_ge i j with hij | hij
      · have := hi.apart hj hij recordClose_ne recordClose_head
        omega
      · omega

variable {budget : ℚ}

theorem lastEndFrom_iff (fuel : ℕ) {cut : Option ℕ} (hs : start = 0 ∨ IsRecordEnd base start)
    (hfuel : base.length < start + fuel) (hcut : ∀ c, cut = some c ↔
      IsGreatest {c : ℕ | IsRecordEnd base c ∧ (c : ℚ) ≤ budget ∧ c ≤ start} c) (c : ℕ) :
    lastEndFrom base budget fuel start cut = some c ↔
      IsGreatest {c : ℕ | IsRecordEnd base c ∧ (c : ℚ) ≤ budget} c := by
  induction fuel generalizing start cut with
  | zero =>
    exfalso
    rcases hs with rfl | hs
    · omega
    · have := hs.1
      omega
  | succ fuel ih =>
    -- when no end lies beyond `start` within the budget, the cut so far is the answer
    have hdone : (∀ c, IsRecordEnd base c → (c : ℚ) ≤ budget → c ≤ start) →
        (cut = some c ↔ IsGreatest {c : ℕ | IsRecordEnd base c ∧ (c : ℚ) ≤ budget} c) := by
      intro hall
      rw [hcut]
      have hsame : {c : ℕ | IsRecordEnd base c ∧ (c : ℚ) ≤ budget ∧ c ≤ start} =
          {c : ℕ | IsRecordEnd base c ∧ (c : ℚ) ≤ budget} := by
        ext c
        exact ⟨fun h => ⟨h.1, h.2.1⟩, fun h => ⟨h.1, h.2, hall c h.1 h.2⟩⟩
      rw [hsame]
    rw [lastEndFrom]
    cases hfind : find base RECORD_CLOSE start with
    | none =>
      refine hdone (fun c hc _ => ?_)
      rcases hc.behind hs with h | ⟨j, hj, hocc, rfl⟩
      · exact h
      · exact absurd hocc (find_none recordClose_ne hfind j hj)
    | some i =>
      obtain ⟨hi, hocc, hfirst⟩ := find_some hfind
      have hbehind : ∀ c, IsRecordEnd base c → c ≤ start ∨ i + RECORD_CLOSE.length ≤ c := by
        intro c hc
        rcases hc.behind hs with h | ⟨j, hj, hocc', rfl⟩
        · exact Or.inl h
        · have : ¬j < i := fun hlt => hfirst j hj hlt hocc'
          exact Or.inr (by omega)
      by_cases hbig : ((i + RECORD_CLOSE.length : ℕ) : ℚ) > budget
      · dsimp only
        rw [if_pos hbig]
        refine hdone (fun c hc hb => (hbehind c hc).resolve_right (fun hle => ?_))
        have : ((i + RECORD_CLOSE.length : ℕ) : ℚ) ≤ c := by exact_mod_cast hle
        linarith
      · dsimp only
        rw [if_neg hbig]
        have hend : IsRecordEnd base (i + RECORD_CLOSE.length) := isRecordEnd_iff.mpr ⟨i, hocc, rfl⟩
        have hpos := length_pos_of_ne_nil recordClose_ne
        refine ih (Or.inr hend) (by omega) (fun c => ?_)
        constructor
        · intro h
          rw [← Option.some.inj h]
          exact ⟨⟨hend, not_lt.mp hbig, le_rfl⟩, fun c hc => hc.2.2⟩
        · intro h
          have hle := h.2 ⟨hend, not_lt.mp hbig, le_rfl⟩
          exact congrArg some (le_antisymm hle h.1.2.2)

theorem lastEnd_iff :
    lastEnd base budget = some c ↔ IsGreatest {c : ℕ | IsRecordEnd base c ∧ (c : ℚ) ≤ budget} c := by
  refine lastEndFrom_iff (base.length + 1) (Or.inl rfl) (by omega) (fun c => ?_) c
  constructor
  · intro h
    cases h
  · intro h
    have hpos := h.1.1.pos
    have := h.1.2.2
    omega


/-! ### The walk through the reserves -/

/-- The length of the closings of a prefix. -/
def closingsAt (base : JsString) (c : ℕ) : ℕ := (closeOpenElements (base.take c)).length

/-- A prefix that ends a record and leaves room for the marker and a reserve. -/
def LeavesRoom (base : JsString) (allowed : ℚ) (reserve c : ℕ) : Prop :=
  IsRecordEnd base c ∧ ((c + TRUNCATION_MARKER.length + reserve : ℕ) : ℚ) ≤ allowed

/-- A prefix that ends a record and fits with the marker and its closings. -/
def Fits (base : JsString) (allowed : ℚ) (c : ℕ) : Prop := LeavesRoom base allowed (closingsAt base c) c

/-- Where the loop comes to from a reserve: to a prefix, or to nothing. -/
inductive Ends (base : JsString) (allowed : ℚ) : ℕ → Option ℕ → Prop
  | nothing {r : ℕ} : (∀ c, ¬LeavesRoom base allowed r c) → Ends base allowed r none
  | found {r c : ℕ} : IsGreatest {c | LeavesRoom base allowed r c} c → Fits base allowed c →
      Ends base allowed r (some c)
  | next {r c : ℕ} {o : Option ℕ} : IsGreatest {c | LeavesRoom base allowed r c} c →
      ¬Fits base allowed c → Ends base allowed (closingsAt base c) o → Ends base allowed r o

/-- The reserves the loop comes to: none at first, and then the closings of the
prefix that did not fit. -/
inductive Reserve (base : JsString) (allowed : ℚ) : ℕ → Prop
  | zero : Reserve base allowed 0
  | next {r c : ℕ} : Reserve base allowed r → IsGreatest {c | LeavesRoom base allowed r c} c →
      ¬Fits base allowed c → Reserve base allowed (closingsAt base c)

variable {base : JsString} {allowed : ℚ}

variable {r : ℕ}

theorem LeavesRoom.mono {r' : ℕ} (h : LeavesRoom base allowed r c) (hr : r' ≤ r) :
    LeavesRoom base allowed r' c := by
  refine ⟨h.1, le_trans ?_ h.2⟩
  exact_mod_cast Nat.add_le_add_left hr _

theorem leavesRoom_iff : LeavesRoom base allowed r c ↔
      IsRecordEnd base c ∧ (c : ℚ) ≤ allowed - TRUNCATION_MARKER.length - r := by
  refine and_congr_right (fun _ => ?_)
  push_cast
  constructor
  · intro h
    linarith
  · intro h
    linarith

theorem exists_longest (h : LeavesRoom base allowed r c) :
    ∃ c, IsGreatest {c | LeavesRoom base allowed r c} c := by
  have hb : BddAbove {c | LeavesRoom base allowed r c} := ⟨base.length, fun c hc => hc.1.1⟩
  exact ⟨_, Nat.sSup_mem ⟨c, h⟩ hb, fun c hc => le_csSup hb hc⟩

/-- Closings that do not fit are longer than the reserve that was kept. -/
theorem lt_closingsAt (h : LeavesRoom base allowed r c) (hno : ¬Fits base allowed c) :
    r < closingsAt base c := by
  by_contra hle
  exact hno (h.mono (not_lt.mp hle))

variable {c' : ℕ}

/-- A later prefix of the walk is shorter. -/
theorem LeavesRoom.shorter (hc : IsRecordEnd base c) (hno : ¬Fits base allowed c)
    (h : LeavesRoom base allowed (closingsAt base c) c') : c' < c := by
  by_contra hle
  refine hno ⟨hc, le_trans ?_ h.2⟩
  have : c ≤ c' := not_lt.mp hle
  exact_mod_cast (by omega : c + TRUNCATION_MARKER.length + closingsAt base c ≤
      c' + TRUNCATION_MARKER.length + closingsAt base c)

/-- One turn of the loop follows the walk. -/
theorem trimLoop_ends (fuel : ℕ) {r : ℕ} {previous : Option ℕ} (hpos : 0 < fuel)
    (hfuel : ∀ c, LeavesRoom base allowed r c → c < fuel)
    (hprev : ∀ c, LeavesRoom base allowed r c → previous ≠ some c) :
    ∃ o, trimLoop base allowed fuel r previous = some (o.map (cutAt base)) ∧ Ends base allowed r o := by
  induction fuel generalizing r previous with
  | zero => exact absurd hpos (Nat.lt_irrefl 0)
  | succ fuel ih =>
    have hset : {c : ℕ | IsRecordEnd base c ∧
        (c : ℚ) ≤ allowed - TRUNCATION_MARKER.length - r} = {c | LeavesRoom base allowed r c} := by
      ext c
      exact leavesRoom_iff.symm
    rw [trimLoop]
    dsimp only
    split
    · rename_i hneg
      refine ⟨none, rfl, .nothing (fun c hc => ?_)⟩
      have h := (leavesRoom_iff.mp hc).2
      have : (0 : ℚ) < c := by exact_mod_cast hc.1.pos
      linarith
    · split
      · rename_i hnone
        refine ⟨none, rfl, .nothing (fun c hc => ?_)⟩
        obtain ⟨c, hgreatest⟩ := exists_longest hc
        rw [← hset, ← lastEnd_iff, hnone] at hgreatest
        cases hgreatest
      · rename_i cut hcut
        rw [lastEnd_iff, hset] at hcut
        rw [if_neg (hprev cut hcut.1)]
        split
        · rename_i hfits
          exact ⟨some cut, rfl, .found hcut ⟨hcut.1.1, hfits⟩⟩
        · rename_i hfits
          have hno : ¬Fits base allowed cut := fun h => hfits h.2
          have hlt := lt_closingsAt hcut.1 hno
          have hmax : max r (closeOpenElements (base.take cut)).length = closingsAt base cut :=
            max_eq_right hlt.le
          rw [hmax]
          have hc := hfuel cut hcut.1
          have hcpos := hcut.1.1.pos
          obtain ⟨o, ho, hends⟩ := @ih (closingsAt base cut) (some cut) (by omega)
            (fun c h => by
              have := h.shorter hcut.1.1 hno
              omega)
            (fun c h heq => by
              have := h.shorter hcut.1.1 hno
              have := Option.some.inj heq
              omega)
          exact ⟨o, ho, .next hcut hno hends⟩

theorem Ends.spec (h : Ends base allowed r (some c)) :
    LeavesRoom base allowed r c ∧ Fits base allowed c := by
  generalize ho : some c = o at h
  induction h with
  | nothing => cases ho
  | found hc hfits =>
    cases ho
    exact ⟨hc.1, hfits⟩
  | next hc hno _ ih =>
    obtain ⟨hroom, hfits⟩ := ih ho
    exact ⟨hroom.mono (lt_closingsAt hc.1 hno).le, hfits⟩

variable {o : Option ℕ}

/-- The walk from the start passes every reserve it comes to. -/
theorem Ends.from_reserve (hr : Reserve base allowed r) (h : Ends base allowed 0 o) :
    Ends base allowed r o := by
  induction hr with
  | zero => exact h
  | next _ hc hno ih =>
    cases ih with
    | nothing hnone => exact absurd hc.1 (hnone _)
    | found hc' hfits =>
      obtain rfl := hc.unique hc'
      exact absurd hfits hno
    | next hc' _ hends =>
      obtain rfl := hc.unique hc'
      exact hends

/-- With room for the longest fitting prefix at every reserve, the walk ends
there. -/
theorem Ends.eq_longest (hc : IsGreatest {c | Fits base allowed c} c)
    (hroom : ∀ r, Reserve base allowed r → LeavesRoom base allowed r c) (hr : Reserve base allowed r)
    (h : Ends base allowed r o) : o = some c := by
  induction h with
  | nothing hnone => exact absurd (hroom _ hr) (hnone c)
  | found hc' hfits => exact congrArg some (le_antisymm (hc.2 hfits) (hc'.2 (hroom _ hr)))
  | next hc' hno _ ih => exact ih (.next hr hc' hno)

/-! ### Reading the cut back -/

theorem marker_ne : TRUNCATION_MARKER ≠ [] := by decide

theorem marker_head : ∀ k, 0 < k → k < TRUNCATION_MARKER.length →
    TRUNCATION_MARKER[k]? ≠ TRUNCATION_MARKER[0]? := by
  have hall : ∀ k < 34, 0 < k → TRUNCATION_MARKER[k]? ≠ TRUNCATION_MARKER[0]? := by decide
  exact fun k hpos hk => hall k hk hpos

theorem occursAt_cutAt (hc : c ≤ base.length) : OccursAt TRUNCATION_MARKER (cutAt base c) c := by
  refine ⟨closeOpenElements (base.take c), ?_⟩
  rw [cutAt, append_assoc, drop_append_of_le_length (by simp [hc])]
  simp

theorem occursAt_of_cutAt {i : ℕ} (hc : c ≤ base.length)
    (h : OccursAt TRUNCATION_MARKER (cutAt base c) i) (hi : i + TRUNCATION_MARKER.length ≤ c) :
    OccursAt TRUNCATION_MARKER base i := by
  have hlen : (base.take c).length = c := by rw [length_take, Nat.min_eq_left hc]
  rw [OccursAt, cutAt, append_assoc, drop_append_of_le_length (by omega)] at h
  have hin : TRUNCATION_MARKER <+: (base.take c).drop i := by
    refine prefix_of_prefix_length_le h (prefix_append _ _) ?_
    rw [length_drop]
    omega
  exact hin.trans ((List.take_prefix c base).drop i)

/-- The marker of a cut text stands where it was cut and not before: the base
holds no marker, and the marker does not overlap itself. -/
theorem cutAt_not_earlier (hfree : ∀ i, ¬OccursAt TRUNCATION_MARKER base i) (hc : c ≤ base.length)
    (hc' : c' ≤ base.length) (h : cutAt base c = cutAt base c') : c' ≤ c := by
  by_contra hlt
  have hat : OccursAt TRUNCATION_MARKER (cutAt base c') c := h ▸ occursAt_cutAt hc
  have hapart := hat.apart (occursAt_cutAt hc') (not_le.mp hlt) marker_ne marker_head
  exact hfree c (occursAt_of_cutAt hc' hat hapart)

theorem cutAt_injective (hfree : ∀ i, ¬OccursAt TRUNCATION_MARKER base i) (hc : c ≤ base.length)
    (hc' : c' ≤ base.length) (h : cutAt base c = cutAt base c') : c = c' :=
  le_antisymm (cutAt_not_earlier hfree hc' hc h.symm) (cutAt_not_earlier hfree hc hc' h)

theorem markerFree_free (text : JsString) (i : ℕ) : ¬OccursAt TRUNCATION_MARKER (markerFree text) i := by
  intro h
  have hend := h.end_le marker_ne
  have hpos := length_pos_of_ne_nil marker_ne
  have hin : OccursAt TRUNCATION_MARKER text i := h.trans ((List.take_prefix _ text).drop i)
  rw [markerFree, length_take] at hend
  cases hfind : find text TRUNCATION_MARKER 0 with
  | none => exact find_none marker_ne hfind i (Nat.zero_le i) hin
  | some k =>
    obtain ⟨-, -, hfirst⟩ := find_some hfind
    rw [hfind, Option.getD_some] at hend
    exact hfirst i (Nat.zero_le i) (by omega) hin

/-! ### The longest fitting prefix -/

/-- What the cut is documented to return: the longest prefix that ends a record
and fits, with its marker and closings, or nothing when none fits. -/
def IsLargestTrim (base : JsString) (allowed : ℚ) (result : Option JsString) : Prop :=
  (∀ c, IsGreatest {c | Fits base allowed c} c → result = some (cutAt base c)) ∧
  ((∀ c, ¬Fits base allowed c) → result = none)

variable {text : JsString}

theorem find_ne_none (h : RECORD_CLOSE <:+: text) : find text RECORD_CLOSE 0 ≠ none := by
  obtain ⟨before, behind, htext⟩ := h
  intro hnone
  refine find_none recordClose_ne hnone before.length (Nat.zero_le _) ⟨behind, ?_⟩
  rw [← htext, append_assoc, drop_left]

theorem trimAtRecordBoundary_ends (ha : 0 < allowed) (hc : find text RECORD_CLOSE 0 ≠ none) :
    ∃ o, trimLoop (markerFree text) allowed ((markerFree text).length + 1) 0 none =
        some (o.map (cutAt (markerFree text))) ∧
      trimAtRecordBoundary text allowed = o.map (cutAt (markerFree text)) ∧
      Ends (markerFree text) allowed 0 o := by
  obtain ⟨o, hloop, hends⟩ := @trimLoop_ends (markerFree text) allowed
    ((markerFree text).length + 1) 0 none (Nat.succ_pos _)
    (fun c h => Nat.lt_succ_of_le h.1.1) (fun c _ h => (by cases h))
  refine ⟨o, hloop, ?_, hends⟩
  rw [trimAtRecordBoundary, if_neg (not_or.mpr ⟨not_le.mpr ha, hc⟩)]
  dsimp only
  rw [hloop]
  rfl

/-- A text that was cut fits, and holds its marker at least. -/
theorem trimAtRecordBoundary_fits {result : JsString}
    (h : trimAtRecordBoundary text allowed = some result) :
    (result.length : ℚ) ≤ allowed ∧ result ≠ [] := by
  by_cases hgate : allowed ≤ 0 ∨ find text RECORD_CLOSE 0 = none
  · rw [trimAtRecordBoundary, if_pos hgate] at h
    cases h
  · obtain ⟨hpos, hc⟩ := not_or.mp hgate
    obtain ⟨o, -, hresult, hends⟩ := trimAtRecordBoundary_ends (not_le.mp hpos) hc
    rw [hresult] at h
    obtain ⟨c, rfl, rfl⟩ := Option.map_eq_some_iff.mp h
    obtain ⟨⟨hle, -⟩, hfits⟩ := hends.spec.2
    have hlen : (cutAt (markerFree text) c).length =
        c + TRUNCATION_MARKER.length + closingsAt (markerFree text) c := by
      rw [cutAt, length_append, length_append, length_take, Nat.min_eq_left hle]
      rfl
    refine ⟨by rwa [hlen], fun hnil => ?_⟩
    have hmarker := length_pos_of_ne_nil marker_ne
    rw [hnil, length_nil] at hlen
    omega

/-- The loop always comes to its end, and what it returns is the longest
fitting prefix exactly when no reserve it comes to is too large for that one:
the closings of a prefix that was turned down are held back from shorter ones
too, also from those with fewer open elements. -/
theorem trim_largest_iff (text : JsString) (allowed : ℚ) (ha : 0 < allowed)
    (hc : RECORD_CLOSE <:+: text) :
    (∃ r, trimLoop (markerFree text) allowed ((markerFree text).length + 1) 0 none = some r) ∧
    (IsLargestTrim (markerFree text) allowed (trimAtRecordBoundary text allowed) ↔
      ∀ c, IsGreatest {c | Fits (markerFree text) allowed c} c → ∀ r, Reserve (markerFree text) allowed r →
          ((c + TRUNCATION_MARKER.length + r : ℕ) : ℚ) ≤ allowed) := by
  obtain ⟨o, hloop, hresult, hends⟩ := trimAtRecordBoundary_ends ha (find_ne_none hc)
  refine ⟨⟨_, hloop⟩, ?_⟩
  rw [hresult]
  constructor
  · rintro ⟨hsome, -⟩ c hlongest r hr
    cases o with
    | none => cases hsome c hlongest
    | some c' =>
      obtain rfl : c' = c := cutAt_injective (markerFree_free text) hends.spec.1.1.1
        hlongest.1.1.1 (Option.some.inj (hsome c hlongest))
      exact (hends.from_reserve hr).spec.1.2
  · intro hroom
    refine ⟨fun c hlongest => ?_, fun hnone => ?_⟩
    · rw [hends.eq_longest hlongest (fun r hr => ⟨hlongest.1.1, hroom c hlongest r hr⟩) .zero]
      rfl
    · cases o with
      | none => rfl
      | some c => exact absurd hends.spec.2 (hnone c)

/-- A text of one record leaves the loop no reserve but the first. -/
theorem trim_largest_iff_one_record :
    IsLargestTrim (markerFree RECORD_CLOSE) 50 (trimAtRecordBoundary RECORD_CLOSE 50) := by
  refine (trim_largest_iff RECORD_CLOSE 50 (by decide) infix_rfl).2.mpr ?_
  have hbase : markerFree RECORD_CLOSE = RECORD_CLOSE := by decide
  rw [hbase]
  have hend : ∀ c, IsRecordEnd RECORD_CLOSE c → c = 16 := by
    intro c hc
    have hle : c ≤ 16 := hc.1
    have hlen := hc.2.length_le
    rw [length_take] at hlen
    have : RECORD_CLOSE.length = 16 := by decide
    omega
  have hfits : Fits RECORD_CLOSE 50 16 := ⟨⟨by decide, by decide⟩, by decide⟩
  intro c hc r hr
  obtain rfl := hend c hc.1.1
  cases hr with
  | zero => exact hfits.2
  | next _ hc' hno => exact absurd hfits (hend _ hc'.1.1 ▸ hno)

/-- Nine elements are opened after the first record, so the closings of the
second are longer than all that stands between the two. -/
def skippedRecord : JsString := RECORD_CLOSE ++ (List.replicate 9 (units "<a>")).flatten ++ RECORD_CLOSE

/-- The first record fits with its marker, and nothing is returned. -/
theorem largest_trim_skipped :
    ¬IsLargestTrim (markerFree skippedRecord) 93 (trimAtRecordBoundary skippedRecord 93) := by
  have hnone : trimAtRecordBoundary skippedRecord 93 = none := by decide +kernel
  have hfits : Fits (markerFree skippedRecord) 93 16 :=
    ⟨⟨by decide, by decide⟩, by decide⟩
  have hb : BddAbove {c | Fits (markerFree skippedRecord) 93 c} :=
    ⟨(markerFree skippedRecord).length, fun c hc => hc.1.1⟩
  intro h
  have := h.1 _ ⟨Nat.sSup_mem ⟨16, hfits⟩ hb, fun c hc => le_csSup hb hc⟩
  rw [hnone] at this
  cases this

end Plur1bus.Recall
