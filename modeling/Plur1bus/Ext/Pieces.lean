import Plur1bus.Ext.Names
import Mathlib.Data.List.Forall2
import Mathlib.Data.List.Perm.Basic

/-!
The parts of an archive as stretches of its bytes. Each reader answers exactly when
the bytes in front of it are a part of its kind; what stands behind the part is
left free, so that parts can be put one after the other.
-/

namespace Plur1bus.Ext

open Program List

/-! ### Words -/

theorem word16_drop (b : Bytes) (p i : ℕ) : word16 (b.drop p) i = word16 b (p + i) := by
  simp only [word16, getD_eq_getElem?_getD, List.getElem?_drop, Nat.add_assoc]

variable {b : Bytes} {n i : ℕ}

theorem word16_take (h : i + 2 ≤ n) : word16 (b.take n) i = word16 b i := by
  simp only [word16, getD_eq_getElem?_getD]
  rw [List.getElem?_take_of_lt (by omega), List.getElem?_take_of_lt (by omega)]

theorem word16_append {a : Bytes} (h : i + 2 ≤ a.length) : word16 (a ++ b) i = word16 a i := by
  simp only [word16, getD_eq_getElem?_getD]
  rw [List.getElem?_append_left (by omega), List.getElem?_append_left (by omega)]

theorem word32_drop (b : Bytes) (p i : ℕ) : word32 (b.drop p) i = word32 b (p + i) := by
  simp only [word32, word16_drop, Nat.add_assoc]

theorem word32_take (h : i + 4 ≤ n) : word32 (b.take n) i = word32 b i := by
  simp only [word32]
  rw [word16_take (by omega), word16_take (by omega)]

/-! ### Readers -/

theorem readAt_ok {file : Bytes} {pos len : ℕ} :
    readAt file pos len = .ok b ↔ (len = 0 ∨ pos + len ≤ file.length) ∧ (file.drop pos).take len = b := by
  unfold readAt
  split
  next h => simp [h]
  next h => simp only [reduceCtorEq, h, false_and]

theorem slice_ok {s : Bytes} {j : ℕ} :
    slice b i j = .ok s ↔ (i ≤ j ∧ j ≤ b.length) ∧ (b.drop i).take (j - i) = s := by
  unfold slice
  split
  next h => simp [h]
  next h => simp only [reduceCtorEq, h, false_and]

theorem sub_ok {a b : ℕ} : sub a b = .ok n ↔ b ≤ a ∧ a - b = n := by
  unfold sub
  split
  next h => simp [h]
  next h => simp only [reduceCtorEq, h, false_and]

theorem u16At_ok : u16At b i = .ok n ↔ i + 2 ≤ b.length ∧ word16 b i = n := by
  unfold u16At
  split
  next h => simp [h]
  next h => simp only [reduceCtorEq, h, false_and]

theorem u32At_ok : u32At b i = .ok n ↔ i + 4 ≤ b.length ∧ word32 b i = n := by
  unfold u32At
  split
  next h => simp [h]
  next h => simp only [reduceCtorEq, h, false_and]

/-! ### Records of the directory -/

/-- The length of a record that the bytes begin with. -/
def recordLength (r : Bytes) : ℕ := CENTRAL_LEN + word16 r 28 + word16 r 30 + word16 r 32

def recordName (r : Bytes) : Bytes := (r.drop CENTRAL_LEN).take (word16 r 28)

def recordExtra (r : Bytes) : Bytes := (r.drop (CENTRAL_LEN + word16 r 28)).take (word16 r 30)

def centralOf (r : Bytes) (name : List Char) (exec : Bool) : Central :=
  ⟨name, word16 r 8, word16 r 10, word32 r 16, word32 r 20, word32 r 24, exec, word32 r 42⟩

/-- The record that the bytes begin with, for itself: everything that does not depend on the others. -/
structure GoodRecord (isNormalized : List Char → Bool) (limits : Limits) (r : Bytes) (c : Central) : Prop where
  signature : word32 r 0 = SIG_CENTRAL
  fields : checkFields (r.take CENTRAL_LEN) (recordName r) (recordExtra r) = .ok ()
  name : checkName isNormalized limits (recordName r) = .ok c.name
  exec : checkType (recordName r) (word32 r 38) = .ok c.exec
  sizes : checkSizes limits (recordName r) (word32 r 20) (word32 r 24) = .ok ()
  central : c = centralOf r c.name c.exec

variable {fold : List Char → List Char} {isNormalized : List Char → Bool} {limits : Limits}

section

variable {x : Bytes}

theorem le_recordLength (x : Bytes) : 46 ≤ recordLength x := by unfold recordLength CENTRAL_LEN; omega

theorem word16_record {i : ℕ} (h : i + 2 ≤ 46) : word16 (x.take (recordLength x)) i = word16 x i :=
  word16_take (by have := le_recordLength x; omega)

theorem word32_record {i : ℕ} (h : i + 4 ≤ 46) : word32 (x.take (recordLength x)) i = word32 x i :=
  word32_take (by have := le_recordLength x; omega)

theorem length_record (h : recordLength x ≤ x.length) :
    (x.take (recordLength x)).length = recordLength (x.take (recordLength x)) := by
  rw [length_take_of_le h]
  conv_rhs => rw [recordLength, word16_record (by omega), word16_record (by omega), word16_record (by omega)]
  rfl

/-- Bytes that begin with a whole record. -/
theorem recordLength_append {r rest : Bytes} (h : r.length = recordLength r) : recordLength (r ++ rest) = r.length := by
  have hmin := le_recordLength r
  rw [h]
  unfold recordLength
  rw [word16_append (by omega), word16_append (by omega), word16_append (by omega)]

theorem take_record : (x.take (recordLength x)).take CENTRAL_LEN = x.take CENTRAL_LEN := by
  rw [take_take]
  exact congrArg (x.take ·) (Nat.min_eq_left (le_recordLength x))

theorem recordName_record : recordName (x.take (recordLength x)) = recordName x := by
  unfold recordName
  rw [word16_record (by omega), drop_take, take_take, Nat.min_eq_left]
  unfold recordLength
  omega

theorem recordExtra_record : recordExtra (x.take (recordLength x)) = recordExtra x := by
  unfold recordExtra
  rw [word16_record (by omega), word16_record (by omega), drop_take, take_take, Nat.min_eq_left]
  unfold recordLength
  omega

theorem centralOf_record {name : List Char} {exec : Bool} :
    centralOf (x.take (recordLength x)) name exec = centralOf x name exec := by
  simp (disch := decide) only [centralOf, word16_record, word32_record]

/-- It does not matter what stands behind a record. -/
theorem goodRecord_record {c : Central} :
    GoodRecord isNormalized limits (x.take (recordLength x)) c ↔ GoodRecord isNormalized limits x c := by
  constructor
  · rintro ⟨h1, h2, h3, h4, h5, h6⟩
    rw [recordName_record] at h2 h3 h4 h5
    rw [take_record, recordExtra_record] at h2
    rw [word32_record (by decide)] at h1 h4
    rw [word32_record (by decide), word32_record (by decide)] at h5
    rw [centralOf_record] at h6
    exact ⟨h1, h2, h3, h4, h5, h6⟩
  · rintro ⟨h1, h2, h3, h4, h5, h6⟩
    refine ⟨?_, ?_, ?_, ?_, ?_, ?_⟩
    · rw [word32_record (by decide)]; exact h1
    · rw [recordName_record, take_record, recordExtra_record]; exact h2
    · rw [recordName_record]; exact h3
    · rw [recordName_record, word32_record (by decide)]; exact h4
    · rw [recordName_record, word32_record (by decide), word32_record (by decide)]; exact h5
    · rw [centralOf_record]; exact h6

end

variable {cd : Bytes} {s s' : Reading}

theorem readCentral_ok : readCentral fold isNormalized limits cd s = .ok s' ↔
      recordLength (cd.drop s.p) ≤ (cd.drop s.p).length ∧ ∃ (c : Central) (folded : Folded),
        GoodRecord isNormalized limits (cd.drop s.p) c ∧
          s.folded.insert fold (recordName (cd.drop s.p)) c.name = .ok folded ∧
          s.declared + c.uncompressed ≤ limits.packageBytes ∧
          s' = ⟨s.centrals ++ [c], folded, s.declared + c.uncompressed, s.p + recordLength (cd.drop s.p)⟩ := by
  simp only [readCentral, bind_ok, ensure_ok, sub_ok, u32At_ok, u16At_ok, slice_ok, exists_const, exists_and_left,
    exists_and_right, exists_eq_left', and_assoc, pure, Except.pure, Except.ok.injEq]
  generalize hx : cd.drop s.p = x
  have hlen : x.length = cd.length - s.p := by rw [← hx, length_drop]
  have hdrop : ∀ i, cd.drop (s.p + i) = x.drop i := by
    intro i
    rw [← hx, drop_drop]
  have hsig : word32 cd s.p = word32 x 0 := by rw [← hx, word32_drop, Nat.add_zero]
  have h16 : ∀ i, i + 2 ≤ CENTRAL_LEN → word16 (x.take CENTRAL_LEN) i = word16 x i := fun i => word16_take
  have h32 : ∀ i, i + 4 ≤ CENTRAL_LEN → word32 (x.take CENTRAL_LEN) i = word32 x i := fun i => word32_take
  have hname : (x.drop CENTRAL_LEN).take (word16 x 28) = recordName x := rfl
  have hextra : (x.drop (CENTRAL_LEN + word16 x 28)).take (word16 x 30) = recordExtra x := rfl
  simp (disch := decide) only [Nat.add_sub_cancel_left, h16, h32, hsig, Nat.add_assoc s.p]
  simp only [hdrop, hname, hextra, length_take, Nat.add_sub_add_left, Nat.add_sub_cancel_left]
  unfold recordLength
  constructor
  · rintro ⟨hp, -, -, hsignature, -, -, -, -, -, hroom, hfit, -, -, -, -, ⟨_, hfields⟩, name, hok, folded, hins, exec,
      htype, ⟨_, hsizes⟩, hsum, rfl⟩
    refine ⟨by omega, ⟨name, _, _, _, _, _, exec, _⟩, ⟨hsignature, hfields, hok, htype, hsizes, rfl⟩, folded, hins,
      hsum, rfl⟩
  · rintro ⟨hfit, c, ⟨hsignature, hfields, hok, htype, hsizes, hc⟩, folded, hins, hsum, rfl⟩
    have hc46 : CENTRAL_LEN = 46 := rfl
    rw [hc] at hsum
    refine ⟨by omega, by omega, by omega, hsignature, by omega, by omega, by omega, by omega, by omega, by omega,
      by omega, by omega, by omega, by omega, by omega, ⟨_, hfields⟩, c.name, hok, folded, hins, c.exec, htype,
      ⟨_, hsizes⟩, hsum, ?_⟩
    rw [hc]
    rfl

/-! ### The directory -/

/-- A whole record and what it says. -/
def IsRecord (isNormalized : List Char → Bool) (limits : Limits) (r : Bytes) (c : Central) : Prop :=
  r.length = recordLength r ∧ GoodRecord isNormalized limits r c

/-- These records were read. -/
structure Reads (fold : List Char → List Char) (isNormalized : List Char → Bool) (limits : Limits) (cd : Bytes)
    (rs : List Bytes) (s : Reading) : Prop where
  consumed : ∃ rest, cd = rs.flatten ++ rest
  p : s.p = rs.flatten.length
  records : List.Forall₂ (IsRecord isNormalized limits) rs s.centrals
  declared : s.declared = (s.centrals.map Central.uncompressed).sum
  within : s.declared ≤ limits.packageBytes
  table : Represents fold s.folded (s.centrals.map Central.name)
  apart : Apart fold (s.centrals.map Central.name)

theorem Represents.perm {f : Folded} {names names' : List (List Char)} (h : Represents fold f names)
    (hp : names.Perm names') : Represents fold f names' where
  files := by
    intro key
    rw [h.files key]
    simp only [hp.mem_iff]
  dirs := by
    refine h.dirs.congr rfl fun d => ?_
    exact (hp.flatMap_right dirPrefixes).mem_iff.symm

theorem Apart.sublist {names names' : List (List Char)} (h : Apart fold names) (hs : names'.Sublist names) :
    Apart fold names' where
  keys := (hs.map fold).nodup h.keys
  files := fun a ha b hb => h.files a (hs.subset ha) b (hs.subset hb)
  dirs := fun a ha b hb => h.dirs a (hs.subset ha) b (hs.subset hb)

variable {cs : List Central} {c : Central}

theorem perm_concat_name : (c.name :: cs.map Central.name).Perm ((cs ++ [c]).map Central.name) := by
  rw [map_append, map_singleton]
  exact (perm_append_singleton _ _).symm

theorem Reads.init : Reads fold isNormalized limits cd [] {} where
  consumed := ⟨cd, rfl⟩
  p := rfl
  records := .nil
  declared := rfl
  within := Nat.zero_le _
  table := Represents.nil
  apart := Apart.nil

variable {rest : Bytes} {rs : List Bytes}

/-- What one more record makes of a reading. -/
theorem Reads.concat {r : Bytes} {folded : Folded} (h : Reads fold isNormalized limits cd rs s)
    (hcd : cd = rs.flatten ++ (r ++ rest)) (hr : IsRecord isNormalized limits r c)
    (hins : s.folded.insert fold (recordName r) c.name = .ok folded)
    (hsum : s.declared + c.uncompressed ≤ limits.packageBytes) :
    Reads fold isNormalized limits cd (rs ++ [r])
      ⟨s.centrals ++ [c], folded, s.declared + c.uncompressed, s.p + r.length⟩ where
  consumed := ⟨rest, by rw [hcd]; simp⟩
  p := by rw [h.p]; simp
  records := rel_append h.records (.cons hr .nil)
  declared := by rw [h.declared]; simp
  within := hsum
  table := (insert_represents h.table h.apart hins).1.perm perm_concat_name
  apart := (insert_represents h.table h.apart hins).2.perm perm_concat_name

theorem Reads.drop (h : Reads fold isNormalized limits cd rs s) : cd = rs.flatten ++ cd.drop s.p := by
  obtain ⟨rest, hrest⟩ := h.consumed
  rw [h.p, hrest, drop_left]

theorem Reads.step (h : Reads fold isNormalized limits cd rs s)
    (hok : readCentral fold isNormalized limits cd s = .ok s') :
    ∃ r, Reads fold isNormalized limits cd (rs ++ [r]) s' := by
  obtain ⟨hfit, c, folded, hgood, hins, hsum, rfl⟩ := readCentral_ok.mp hok
  have hdrop := h.drop
  generalize cd.drop s.p = x at hfit hgood hins hdrop
  rw [← goodRecord_record] at hgood
  rw [← recordName_record] at hins
  rw [← take_append_drop (recordLength x) x] at hdrop
  have hcat := h.concat hdrop ⟨length_record hfit, hgood⟩ hins hsum
  rw [length_take_of_le hfit] at hcat
  exact ⟨_, hcat⟩

theorem Reads.run {total : ℕ} (h : Reads fold isNormalized limits cd rs s)
    (hok : readCentrals fold isNormalized limits cd total s = .ok s') :
    ∃ rs', rs'.length = total ∧ Reads fold isNormalized limits cd (rs ++ rs') s' := by
  induction total generalizing rs s with
  | zero =>
    cases hok
    exact ⟨[], rfl, by rw [append_nil]; exact h⟩
  | succ total ih =>
    obtain ⟨s₁, hone, hrest⟩ := bind_ok.mp hok
    obtain ⟨r, hr⟩ := h.step hone
    obtain ⟨rs', hlen, hrs⟩ := ih hr hrest
    refine ⟨r :: rs', by rw [length_cons, hlen], ?_⟩
    rw [append_cons]
    exact hrs

variable {rs' : List Bytes}

/-- Records that fit together are read. -/
theorem Reads.total (h : Reads fold isNormalized limits cd rs s)
    (hcd : cd = rs.flatten ++ (rs'.flatten ++ rest))
    (hrs : List.Forall₂ (IsRecord isNormalized limits) rs' cs)
    (hapart : Apart fold ((s.centrals ++ cs).map Central.name))
    (hsum : s.declared + (cs.map Central.uncompressed).sum ≤ limits.packageBytes) :
    ∃ s', readCentrals fold isNormalized limits cd rs'.length s = .ok s' ∧ s'.centrals = s.centrals ++ cs ∧
      Reads fold isNormalized limits cd (rs ++ rs') s' := by
  induction hrs generalizing rs s with
  | nil => exact ⟨s, rfl, (append_nil _).symm, by rw [append_nil]; exact h⟩
  | @cons r c rs' cs hr hrs ih =>
    rw [flatten_cons, append_assoc] at hcd
    have hx : cd.drop s.p = r ++ (rs'.flatten ++ rest) := by rw [h.p, hcd, drop_left]
    have hL : recordLength (r ++ (rs'.flatten ++ rest)) = r.length := recordLength_append hr.1
    have htake : (r ++ (rs'.flatten ++ rest)).take r.length = r := take_left
    rw [map_cons, sum_cons] at hsum
    have hone : s.declared + c.uncompressed ≤ limits.packageBytes := by omega
    rw [append_cons] at hapart
    have happend : Apart fold ((s.centrals ++ [c]).map Central.name) :=
      hapart.sublist ((sublist_append_left _ _).map _)
    obtain ⟨folded, hins⟩ := insert_total (recordName r) h.table (happend.perm perm_concat_name.symm)
    -- The record is the one that the rest begins with.
    have hread : readCentral fold isNormalized limits cd s =
        .ok ⟨s.centrals ++ [c], folded, s.declared + c.uncompressed, s.p + r.length⟩ := by
      rw [readCentral_ok, hx, hL]
      refine ⟨by rw [length_append]; omega, c, folded, ?_, ?_, hone, rfl⟩
      · rw [← goodRecord_record, hL, htake]
        exact hr.2
      · rw [← recordName_record, hL, htake]
        exact hins
    have hstep := h.concat hcd hr hins hone
    obtain ⟨s', hs', hcs, hreads⟩ := ih hstep (by rw [hcd]; simp) hapart (by dsimp only; omega)
    refine ⟨s', bind_ok.mpr ⟨_, hread, hs'⟩, ?_, ?_⟩
    · rw [hcs, append_assoc]
      rfl
    · rw [append_cons]
      exact hreads

/-- Bytes are whole records in one way. -/
theorem records_unique (h : ∀ r ∈ rs, r.length = recordLength r)
    (h' : ∀ r ∈ rs', r.length = recordLength r) (heq : rs.flatten = rs'.flatten) : rs = rs' := by
  have hpos : ∀ r rest : Bytes, r.length = recordLength r → r ++ rest ≠ [] := by
    intro r rest hr hnil
    have := le_recordLength r
    rw [(append_eq_nil_iff.mp hnil).1] at hr this
    rw [← hr, length_nil] at this
    omega
  induction rs generalizing rs' with
  | nil =>
    cases rs' with
    | nil => rfl
    | cons r rs' => exact absurd heq.symm (hpos r _ (h' r mem_cons_self))
  | cons r rs ih =>
    cases rs' with
    | nil => exact absurd heq (hpos r _ (h r mem_cons_self))
    | cons r' rs' =>
      have hr := h r mem_cons_self
      have hr' := h' r' mem_cons_self
      have hlen : r.length = r'.length := by
        have hlong : recordLength (r ++ rs.flatten) = r.length := recordLength_append hr
        have hlong' : recordLength (r' ++ rs'.flatten) = r'.length := recordLength_append hr'
        rw [← hlong, ← hlong']
        exact congrArg recordLength heq
      obtain ⟨rfl, hrest⟩ := append_inj heq hlen
      rw [ih (fun r hr => h r (mem_cons_of_mem _ hr)) (fun r hr => h' r (mem_cons_of_mem _ hr)) hrest]

end Plur1bus.Ext
