import Plur1bus.Logs.Lines

/-!
Both directions read the same lines. A file up to some place is its complete lines and a fragment;
forward yields the lines in order, backward in reverse, and forward adds a mark when the fragment is
longer than the cap. Neither depends on where the chunks begin.
-/

namespace Plur1bus.Logs

open Program List

variable {maxLine : ℕ}

/-- What forward yields of the bytes of a line before its end is found. -/
def mark (maxLine : ℕ) (line : List UInt8) : List RawLine := if line.length > maxLine then [overlong] else []

variable {line : List UInt8}

theorem yieldLine_long (h : maxLine < line.length) : yieldLine maxLine line = [overlong] := if_pos h

theorem mark_long (h : maxLine < line.length) : mark maxLine line = [overlong] := if_pos h

theorem mark_short (h : line.length ≤ maxLine) : mark maxLine line = [] := if_neg (Nat.not_lt.mpr h)

/-! ### Forward -/

/-- What is carried over stands for the bytes of a line that has not ended. -/
structure Carries (maxLine : ℕ) (c : Carry) (line : List UInt8) : Prop where
  long : maxLine < line.length → c.skipping = true
  short : line.length ≤ maxLine → c.skipping = false ∧ c.carry.flatten = line ∧ c.carryLen = line.length
  whole : NL ∉ line

theorem carries_nil (maxLine : ℕ) : Carries maxLine {} [] where
  long h := absurd h (Nat.not_lt_zero _)
  short _ := ⟨rfl, rfl, rfl⟩
  whole := not_mem_nil

/-- The bytes go on without a line end. -/
theorem Carries.more {n : ℕ} {c : Carry} {line chunk : List UInt8} (hc : Carries maxLine c line) (hno : NL ∉ chunk)
    (hnone : chunk.idxOf? NL = none) :
    Carries maxLine (forwardChunk maxLine (n + 1) c chunk).1 (line ++ chunk) ∧
      mark maxLine line ++ (forwardChunk maxLine (n + 1) c chunk).2 = mark maxLine (line ++ chunk) := by
  have hwhole : NL ∉ line ++ chunk := by
    rw [mem_append, not_or]
    exact ⟨hc.whole, hno⟩
  have hlen : (line ++ chunk).length = line.length + chunk.length := length_append
  unfold forwardChunk
  simp only [hnone]
  obtain hlong | hshort := Nat.lt_or_ge maxLine line.length
  · have hskip := hc.long hlong
    rw [if_pos hskip, mark_long hlong, mark_long (by omega)]
    exact ⟨⟨fun _ => hskip, fun hle => absurd hle (by omega), hwhole⟩, rfl⟩
  · obtain ⟨hskip, hcarry, hcarryLen⟩ := hc.short hshort
    rw [if_neg (by rw [hskip]; decide), hcarryLen, mark_short hshort]
    by_cases hover : line.length + chunk.length > maxLine
    · rw [if_pos hover, mark_long (by omega)]
      exact ⟨⟨fun _ => rfl, fun hle => absurd hle (by omega), hwhole⟩, rfl⟩
    · rw [if_neg hover, mark_short (by omega)]
      refine ⟨⟨fun hlt => absurd hlt (by omega), fun _ => ⟨rfl, ?_, hlen.symm⟩, hwhole⟩, rfl⟩
      rw [flatten_append, hcarry, flatten_singleton]

variable {n : ℕ} {c : Carry}

theorem forwardChunk_lines {chunk : List UInt8} (hn : chunk.length < n) (hc : Carries maxLine c line) :
    ∃ ls frag, line ++ chunk = Lines.content NL ls ++ frag ∧ (∀ l ∈ ls, NL ∉ l) ∧
      Carries maxLine (forwardChunk maxLine n c chunk).1 frag ∧
      mark maxLine line ++ (forwardChunk maxLine n c chunk).2 = ls.flatMap (yieldLine maxLine) ++ mark maxLine frag := by
  induction n generalizing c line chunk with
  | zero => exact absurd hn (Nat.not_lt_zero _)
  | succ n ih =>
    obtain ⟨hno, hnone⟩ | ⟨x, y, rfl, hx, hnl⟩ := Lines.idxOf?_cases NL chunk
    · obtain ⟨hcarries, hout⟩ := hc.more (n := n) hno hnone
      exact ⟨[], line ++ chunk, rfl, fun l hl => absurd hl not_mem_nil, hcarries, hout⟩
    · have hy : y.length < n := by
        rw [length_append, length_cons] at hn
        omega
      obtain ⟨ls, frag, hcontent, hls, hcarries, hout⟩ := ih hy (carries_nil maxLine)
      rw [nil_append] at hcontent
      change [] ++ _ = _ at hout
      rw [nil_append] at hout
      have htake : (x ++ NL :: y).take x.length = x := take_left
      have hdrop : (x ++ NL :: y).drop (x.length + 1) = y := by
        rw [← drop_drop, drop_left]
        rfl
      refine ⟨(line ++ x) :: ls, frag, ?_, ?_, ?_, ?_⟩
      · rw [Lines.content_cons, hcontent]
        simp only [append_assoc, cons_append]
      · intro l hl
        obtain rfl | hl := mem_cons.mp hl
        · rw [mem_append, not_or]
          exact ⟨hc.whole, hx⟩
        · exact hls l hl
      · unfold forwardChunk
        simp only [hnl, htake, hdrop]
        by_cases hskip : c.skipping = true
        · rw [if_pos hskip]
          exact hcarries
        · rw [if_neg hskip]
          exact hcarries
      · unfold forwardChunk
        simp only [hnl, htake, hdrop, flatMap_cons, append_assoc, ← hout]
        obtain hlong | hshort := Nat.lt_or_ge maxLine line.length
        · -- The line was reported when it grew too long.
          have hlen : (line ++ x).length = line.length + x.length := length_append
          rw [if_pos (hc.long hlong), mark_long hlong, yieldLine_long (by omega)]
        · obtain ⟨hskip, hcarry, -⟩ := hc.short hshort
          rw [if_neg (by rw [hskip]; decide), mark_short hshort, hcarry]
          rfl

/-- A chunk, and what follows it. -/
theorem readAt_append (file : List UInt8) (pos k m : ℕ) (hk : k ≤ m) :
    readAt file pos k ++ readAt file (pos + (readAt file pos k).length) (m - (readAt file pos k).length) =
      readAt file pos m := by
  have hlen : (readAt file pos k).length = min k (file.drop pos).length := length_take
  have hself : (file.drop pos).take (readAt file pos k).length = readAt file pos k := by
    unfold readAt at hlen ⊢
    rw [take_eq_take_iff, hlen]
    omega
  have hle : (readAt file pos k).length ≤ m := by omega
  have hm : readAt file pos m =
      (file.drop pos).take ((readAt file pos k).length + (m - (readAt file pos k).length)) := by
    rw [Nat.add_sub_cancel' hle]
    rfl
  rw [hm, take_add, hself, drop_drop]
  rfl

/-- Nothing more is read. -/
theorem lines_over {rest : List UInt8} {out : List RawLine} (hwhole : NL ∉ line) (hrest : rest = [])
    (hout : out = []) :
    ∃ ls frag, line ++ rest = Lines.content NL ls ++ frag ∧ (∀ l ∈ ls, NL ∉ l) ∧ NL ∉ frag ∧
      mark maxLine line ++ out = ls.flatMap (yieldLine maxLine) ++ mark maxLine frag := by
  rw [hrest, hout]
  refine ⟨[], line, ?_, fun l hl => absurd hl not_mem_nil, hwhole, ?_⟩
  · rw [append_nil]
    rfl
  · rw [append_nil]
    rfl

variable {pos : ℕ}

theorem forwardFrom_lines (file : List UInt8) {stop : ℕ} (hn : stop - pos ≤ n)
    (hc : Carries maxLine c line) : ∃ ls frag,
      line ++ readAt file pos (stop - pos) = Lines.content NL ls ++ frag ∧ (∀ l ∈ ls, NL ∉ l) ∧ NL ∉ frag ∧
      mark maxLine line ++ forwardFrom file stop maxLine n pos c =
        ls.flatMap (yieldLine maxLine) ++ mark maxLine frag := by
  induction n generalizing pos c line with
  | zero =>
    have hzero : stop - pos = 0 := Nat.le_zero.mp hn
    exact lines_over hc.whole (by rw [hzero]; exact take_zero) rfl
  | succ n ih =>
    by_cases hpos : pos < stop
    · have happend := readAt_append file pos (min CHUNK (stop - pos)) (stop - pos) (Nat.min_le_right _ _)
      set chunk := readAt file pos (min CHUNK (stop - pos)) with hchunk
      by_cases hempty : chunk.length = 0
      · -- Nothing can be read, so nothing is there.
        have hfile : (file.drop pos).length = 0 := by
          have hlen : chunk.length = min (min CHUNK (stop - pos)) (file.drop pos).length := length_take
          have hpositive : 0 < min CHUNK (stop - pos) := Nat.lt_min.mpr ⟨by decide, by omega⟩
          omega
        refine lines_over hc.whole ?_ ?_
        · unfold readAt
          rw [length_eq_zero_iff.mp hfile, take_nil]
        · unfold forwardFrom
          rw [if_pos hpos]
          exact if_pos hempty
      · obtain ⟨ls, frag, hcontent, hls, hcarries, hout⟩ := forwardChunk_lines (Nat.lt_succ_self chunk.length) hc
        have hsub : stop - (pos + chunk.length) = stop - pos - chunk.length := by omega
        obtain ⟨ls', frag', hcontent', hls', hfrag', hout'⟩ := ih (by rw [hsub]; omega : stop - (pos + chunk.length) ≤ n) hcarries
        have hstep : forwardFrom file stop maxLine (n + 1) pos c =
            (forwardChunk maxLine (chunk.length + 1) c chunk).2 ++
              forwardFrom file stop maxLine n (pos + chunk.length)
                (forwardChunk maxLine (chunk.length + 1) c chunk).1 := by
          show (if pos < stop then _ else _) = _
          rw [if_pos hpos]
          exact if_neg hempty
        refine ⟨ls ++ ls', frag', ?_, ?_, hfrag', ?_⟩
        · rw [hsub] at hcontent'
          rw [← happend, ← append_assoc, hcontent, append_assoc, hcontent', Lines.content_append,
            append_assoc]
        · intro l hl
          obtain hl | hl := mem_append.mp hl
          · exact hls l hl
          · exact hls' l hl
        · rw [hstep, ← append_assoc, hout, append_assoc, hout', flatMap_append, append_assoc]
    · have hzero : stop - pos = 0 := by omega
      exact lines_over hc.whole (by rw [hzero]; exact take_zero) (if_neg hpos)

/-! ### The last line end -/

theorem take_readAt (file : List UInt8) {k : ℕ} (hk : k ≤ pos) :
    file.take (pos - k) ++ readAt file (pos - k) k = file.take pos := by
  have hpos : file.take pos = file.take (pos - k + k) := by rw [Nat.sub_add_cancel hk]
  rw [hpos, take_add]
  rfl

variable {file : List UInt8}

theorem readAt_ne_nil {k : ℕ} (h : readAt file pos k ≠ []) : (file.take pos).length = pos := by
  have hdrop : file.drop pos ≠ [] := by
    intro hnil
    apply h
    unfold readAt
    rw [hnil, take_nil]
  have hlen := length_pos_iff.mpr hdrop
  rw [length_drop] at hlen
  rw [length_take]
  omega

theorem boundaryFrom_eq (file : List UInt8) (hn : pos ≤ n) :
    boundaryFrom file n pos = Lines.afterLast NL (file.take pos) := by
  induction n generalizing pos with
  | zero =>
    obtain rfl := Nat.le_zero.mp hn
    rw [take_zero]
    rfl
  | succ n ih =>
    by_cases hpos : pos > 0
    · unfold boundaryFrom
      rw [if_pos hpos]
      have hk : min CHUNK pos ≤ pos := Nat.min_le_right _ _
      have hpositive : 0 < min CHUNK pos := Nat.lt_min.mpr ⟨by decide, hpos⟩
      have htake := take_readAt file hk
      obtain ⟨hno, hnone⟩ | ⟨x, y, hxy, hy, hsome⟩ :=
        Lines.lastIdxOf?_cases NL (readAt file (pos - min CHUNK pos) (min CHUNK pos))
      · simp only [hnone]
        rw [ih (by omega), ← htake, Lines.afterLast_append hno]
      · simp only [hsome]
        have hlen : (file.take (pos - min CHUNK pos)).length = pos - min CHUNK pos := readAt_ne_nil (by rw [hxy]; simp)
        have hsplit : file.take pos = (file.take (pos - min CHUNK pos) ++ x ++ [NL]) ++ y := by
          rw [← htake, hxy]
          simp only [append_assoc, singleton_append]
        rw [hsplit, Lines.afterLast_append hy, Lines.afterLast_snoc, length_append, hlen]
    · obtain rfl : pos = 0 := by omega
      rw [take_zero]
      exact if_neg hpos

/-! ### Backward -/

theorem backwardBuf_lines (maxLine : ℕ) {buf : List UInt8} (hn : buf.length ≤ n) : ∃ ls,
    buf ++ [NL] = (backwardBuf maxLine n buf).1 ++ NL :: Lines.content NL ls ∧ (∀ l ∈ ls, NL ∉ l) ∧
      NL ∉ (backwardBuf maxLine n buf).1 ∧ (backwardBuf maxLine n buf).2 = ls.reverse.flatMap (yieldLine maxLine) := by
  induction n generalizing buf with
  | zero =>
    obtain rfl := length_eq_zero_iff.mp (Nat.le_zero.mp hn)
    exact ⟨[], rfl, fun l hl => absurd hl not_mem_nil, not_mem_nil, rfl⟩
  | succ n ih =>
    by_cases hpos : buf.length > 0
    · obtain ⟨hno, hnone⟩ | ⟨x, y, rfl, hy, hsome⟩ := Lines.lastIdxOf?_cases NL buf
      · unfold backwardBuf
        rw [if_pos hpos]
        simp only [hnone]
        exact ⟨[], rfl, fun l hl => absurd hl not_mem_nil, hno, rfl⟩
      · have htake : (x ++ NL :: y).take x.length = x := take_left
        have hdrop : (x ++ NL :: y).drop (x.length + 1) = y := by
          rw [← drop_drop, drop_left]
          rfl
        have hx : x.length ≤ n := by
          rw [length_append, length_cons] at hn
          omega
        obtain ⟨ls, hcontent, hls, hfirst, hout⟩ := ih hx
        unfold backwardBuf
        rw [if_pos hpos]
        simp only [hsome, htake, hdrop]
        refine ⟨ls ++ [y], ?_, ?_, hfirst, ?_⟩
        · have hsplit : x ++ NL :: y ++ [NL] = (x ++ [NL]) ++ y ++ [NL] := by
            simp only [append_assoc, singleton_append]
          rw [hsplit, hcontent, Lines.content_snoc]
          simp only [append_assoc, cons_append]
        · grind
        · rw [hout, reverse_append, flatMap_append, reverse_singleton, flatMap_singleton]
    · obtain rfl : buf = [] := length_eq_zero_iff.mp (by omega)
      exact ⟨[], rfl, fun l hl => absurd hl not_mem_nil, not_mem_nil, rfl⟩

/-- What is left of the file before `pos`, with the start of a line end in `rest`. -/
def Between (file : List UInt8) (maxLine n : ℕ) (pos : ℕ) : Prop :=
  ∀ rest, NL ∉ rest → ∃ ls, Lines.content NL ls = file.take pos ++ rest ++ [NL] ∧ (∀ l ∈ ls, NL ∉ l) ∧
    backwardFrom file maxLine n pos rest false false = ls.reverse.flatMap (yieldLine maxLine)

/-- The same when the line at `pos` is passed over. -/
def Inside (file : List UInt8) (maxLine n : ℕ) (pos : ℕ) : Prop :=
  ∃ ls frag, Lines.content NL ls ++ frag = file.take pos ∧ (∀ l ∈ ls, NL ∉ l) ∧ NL ∉ frag ∧
    backwardFrom file maxLine n pos [] false true = ls.reverse.flatMap (yieldLine maxLine)

theorem backwardChunk_lines (hbetween : Between file maxLine n pos)
    (hinside : Inside file maxLine n pos) (buf : List UInt8) : ∃ ls,
      Lines.content NL ls = file.take pos ++ buf ++ [NL] ∧ (∀ l ∈ ls, NL ∉ l) ∧
      (backwardChunk maxLine buf).2.2 ++
        backwardFrom file maxLine n pos (backwardChunk maxLine buf).1 false (backwardChunk maxLine buf).2.1 =
        ls.reverse.flatMap (yieldLine maxLine) := by
  obtain ⟨ls, hcontent, hls, hfirst, hout⟩ := backwardBuf_lines maxLine (Nat.le_succ buf.length)
  set rest := (backwardBuf maxLine (buf.length + 1) buf).1
  set out := (backwardBuf maxLine (buf.length + 1) buf).2
  by_cases hlong : rest.length > maxLine
  · -- The line that the buffer begins in is reported now.
    have hchunk : backwardChunk maxLine buf = ([], true, out ++ [overlong]) := if_pos hlong
    rw [hchunk]
    obtain ⟨ls', frag, hcontent', hls', hfrag, hout'⟩ := hinside
    refine ⟨ls' ++ [frag ++ rest] ++ ls, ?_, ?_, ?_⟩
    · rw [append_assoc (file.take pos), hcontent, ← hcontent', Lines.content_append, Lines.content_snoc]
      simp only [append_assoc, singleton_append]
    · grind
    · have hwhole : maxLine < (frag ++ rest).length := by
        rw [length_append]
        omega
      rw [hout, hout']
      simp only [reverse_append, flatMap_append, reverse_singleton, flatMap_singleton,
        yieldLine_long hwhole, append_assoc]
  · have hchunk : backwardChunk maxLine buf = (rest, false, out) := if_neg hlong
    rw [hchunk]
    obtain ⟨ls', hcontent', hls', hout'⟩ := hbetween rest hfirst
    refine ⟨ls' ++ ls, ?_, ?_, ?_⟩
    · simp_all
    · intro l hl
      obtain hl | hl := mem_append.mp hl
      · exact hls' l hl
      · exact hls l hl
    · rw [hout, hout', reverse_append, flatMap_append]

theorem backwardFrom_first (file : List UInt8) (n : ℕ) (rest : List UInt8) :
    backwardFrom file maxLine (n + 1) 0 rest false false = yieldLine maxLine rest := by
  grind [yieldLine, backwardFrom]

theorem backwardFrom_between (hpos : pos > 0) (rest : List UInt8) (first : Bool) :
    backwardFrom file maxLine (n + 1) pos rest first false =
      let buf := readAt file (pos - min CHUNK pos) (min CHUNK pos) ++ rest
      let kept := backwardChunk maxLine (if first then buf.dropLast else buf)
      kept.2.2 ++ backwardFrom file maxLine n (pos - min CHUNK pos) kept.1 false kept.2.1 := by
  grind [CHUNK, readAt, backwardFrom, backwardChunk]

theorem between_inside (file : List UInt8) (maxLine : ℕ) (hn : pos < n) :
    Between file maxLine n pos ∧ Inside file maxLine n pos := by
  induction n generalizing pos with
  | zero => exact absurd hn (Nat.not_lt_zero _)
  | succ n ih =>
    by_cases hpos : pos > 0
    · have hk : min CHUNK pos ≤ pos := Nat.min_le_right _ _
      have hpositive : 0 < min CHUNK pos := Nat.lt_min.mpr ⟨by decide, hpos⟩
      have htake := take_readAt file hk
      have hless : pos - min CHUNK pos < n := by omega
      obtain ⟨hbetween, hinside⟩ := ih hless
      constructor
      · intro rest hrest
        obtain ⟨ls, hcontent, hls, hout⟩ :=
          backwardChunk_lines hbetween hinside (readAt file (pos - min CHUNK pos) (min CHUNK pos) ++ rest)
        refine ⟨ls, ?_, hls, ?_⟩
        · rw [hcontent, ← htake]
          simp only [append_assoc]
        · rw [backwardFrom_between hpos]
          exact hout
      · obtain ⟨hno, hnone⟩ | ⟨x, y, hxy, hy, hsome⟩ :=
          Lines.lastIdxOf?_cases NL (readAt file (pos - min CHUNK pos) (min CHUNK pos))
        · obtain ⟨ls, frag, hcontent, hls, hfrag, hout⟩ := hinside
          refine ⟨ls, frag ++ readAt file (pos - min CHUNK pos) (min CHUNK pos), ?_, hls, ?_, ?_⟩
          · rw [← append_assoc, hcontent, htake]
          · rw [mem_append, not_or]
            exact ⟨hfrag, hno⟩
          · unfold backwardFrom
            rw [if_pos hpos]
            simp only [if_true, hnone, Option.map_none]
            exact hout
        · obtain ⟨ls, hcontent, hls, hout⟩ := backwardChunk_lines hbetween hinside x
          refine ⟨ls, y, ?_, hls, hy, ?_⟩
          · rw [hcontent, ← htake, hxy]
            simp only [append_assoc, singleton_append]
          · have hx : (readAt file (pos - min CHUNK pos) (min CHUNK pos)).take x.length = x := by
              rw [hxy]
              exact take_left
            unfold backwardFrom
            rw [if_pos hpos]
            simp only [if_true, hsome, Option.map_some, hx]
            exact hout
    · obtain rfl : pos = 0 := by omega
      constructor
      · intro rest hrest
        refine ⟨[rest], ?_, ?_, ?_⟩
        · rw [take_zero]
          exact Lines.content_snoc [] rest
        · intro l hl
          rw [mem_singleton.mp hl]
          exact hrest
        · rw [backwardFrom_first, reverse_singleton, flatMap_singleton]
      · exact ⟨[], [], rfl, fun l hl => absurd hl not_mem_nil, not_mem_nil, rfl⟩

/-! ### Both -/

def completeLines (file : List UInt8) (stop : ℕ) : List (List UInt8) := ((file.take stop).splitOn NL).dropLast

/-- What follows the last line end before `stop`. -/
def fragment (file : List UInt8) (stop : ℕ) : List UInt8 := ((file.take stop).splitOn NL).getLastD []

theorem lines_of_content {file : List UInt8} {stop : ℕ} {ls : List (List UInt8)} {frag : List UInt8}
    (hcontent : file.take stop = Lines.content NL ls ++ frag) (hls : ∀ l ∈ ls, NL ∉ l) (hfrag : NL ∉ frag) :
    completeLines file stop = ls ∧ fragment file stop = frag := by
  have hsplit : (file.take stop).splitOn NL = ls ++ [frag] := by
    rw [hcontent]
    exact Lines.splitOn_content_append hls hfrag
  unfold completeLines fragment
  rw [hsplit]
  exact ⟨dropLast_concat, by simp⟩

theorem content_inj {ls ls' : List (List UInt8)} (hls : ∀ l ∈ ls, NL ∉ l) (hls' : ∀ l ∈ ls', NL ∉ l)
    (h : Lines.content NL ls = Lines.content NL ls') : ls = ls' := by
  have hsplit := Lines.splitOn_content hls
  rw [h, Lines.splitOn_content hls'] at hsplit
  exact (append_cancel_right hsplit).symm

theorem forwardLines_eq (file : List UInt8) (stop : ℕ) (cap : Option ℕ) : forwardLines file 0 stop cap =
    (completeLines file stop).flatMap (yieldLine (cap.getD MAX_LINE)) ++
      mark (cap.getD MAX_LINE) (fragment file stop) := by
  obtain ⟨ls, frag, hcontent, hls, hfrag, hout⟩ :=
    forwardFrom_lines file (Nat.le_refl (stop - 0)) (carries_nil (cap.getD MAX_LINE))
  obtain ⟨hlines, hrest⟩ := @lines_of_content file stop ls frag hcontent hls hfrag
  rw [hlines, hrest]
  exact hout

theorem backwardLines_eq (file : List UInt8) (stop : ℕ) (cap : Option ℕ) : backwardLines file stop cap =
    (completeLines file stop).reverse.flatMap (yieldLine (cap.getD MAX_LINE)) := by
  obtain ⟨ls, frag, hcontent, hls, hfrag⟩ := Lines.exists_content NL (file.take stop)
  have hlines := (lines_of_content hcontent hls hfrag).1
  have hboundary : lastLineBoundary file stop = (Lines.content NL ls).length := by
    have heq : lastLineBoundary file stop = _ := boundaryFrom_eq file (Nat.le_refl stop)
    rw [heq, hcontent, Lines.afterLast_content ls hfrag]
  have htake : file.take (Lines.content NL ls).length = Lines.content NL ls := by
    have hle : (Lines.content NL ls).length ≤ stop := by
      have hlen := congrArg List.length hcontent
      rw [length_take, length_append] at hlen
      omega
    have h := congrArg (List.take (Lines.content NL ls).length) hcontent
    rwa [take_take, Nat.min_eq_left hle, take_left] at h
  rw [hlines]
  unfold backwardLines
  rw [hboundary]
  obtain rfl | ⟨ls, l, rfl⟩ := eq_nil_or_concat ls
  · rfl
  · rw [concat_eq_append] at *
    set pos := (Lines.content NL (ls ++ [l])).length with hposdef
    have hpos : pos > 0 := by
      rw [hposdef, Lines.content_snoc, length_append]
      exact Nat.lt_add_left _ (by decide)
    have hk : min CHUNK pos ≤ pos := Nat.min_le_right _ _
    have hpositive : 0 < min CHUNK pos := Nat.lt_min.mpr ⟨by decide, hpos⟩
    have hless : pos - min CHUNK pos < pos := by omega
    obtain ⟨hbetween, hinside⟩ := between_inside file (cap.getD MAX_LINE) hless
    set chunk := readAt file (pos - min CHUNK pos) (min CHUNK pos) with hchunk
    have hread : file.take (pos - min CHUNK pos) ++ chunk = Lines.content NL ls ++ l ++ [NL] := by
      rw [hchunk, take_readAt file hk, htake, Lines.content_snoc]
    have hne : chunk ≠ [] := by
      intro hnil
      have hlen := congrArg List.length hread
      rw [hnil, append_nil, length_take, ← Lines.content_snoc, ← hposdef] at hlen
      omega
    obtain ⟨ls', hcontent', hls', hout⟩ := backwardChunk_lines hbetween hinside chunk.dropLast
    have hsame : ls' = ls ++ [l] := by
      refine content_inj hls' hls ?_
      rw [hcontent', Lines.content_snoc]
      have hlast := congrArg List.dropLast hread
      rw [dropLast_append_of_ne_nil hne, dropLast_concat] at hlast
      rw [hlast]
    rw [backwardFrom_between hpos, ← hsame, ← hout, ← hchunk]
    simp only [append_nil, if_true]

theorem reverse_flatMap_yieldLine (maxLine : ℕ) (ls : List (List UInt8)) :
    (ls.flatMap (yieldLine maxLine)).reverse = ls.reverse.flatMap (yieldLine maxLine) := by
  rw [reverse_flatMap]
  congr 1
  funext l
  show (yieldLine maxLine l).reverse = yieldLine maxLine l
  unfold yieldLine
  split
  · rfl
  · split
    · rfl
    · rfl

/-- A line that is not blank and not longer than the cap. -/
def isShown (maxLine : ℕ) (line : List UInt8) : Bool := line ≠ [] && line ≠ [CR] && line.length ≤ maxLine

theorem filter_yieldLine (maxLine : ℕ) (line : List UInt8) : (yieldLine maxLine line).filter (fun item => !item.tooLong) =
    if isShown maxLine line then [⟨decode line, false⟩] else [] := by
  unfold yieldLine isShown
  by_cases hlong : line.length > maxLine
  · rw [if_pos hlong, if_neg]
    · rfl
    · simp only [Bool.and_eq_true, decide_eq_true_eq]
      omega
  · have hblank : (line.length > 0 ∧ ¬(line.length = 1 ∧ line.head? = some CR)) ↔ line ≠ [] ∧ line ≠ [CR] := by
      cases line with
      | nil => simp
      | cons b more =>
        cases more with
        | nil => simp
        | cons b' more => simp
    rw [if_neg hlong]
    by_cases hshown : line ≠ [] ∧ line ≠ [CR]
    · simp_all
    · grind

theorem filter_flatMap_yieldLine (maxLine : ℕ) (ls : List (List UInt8)) :
    (ls.flatMap (yieldLine maxLine)).filter (fun item => !item.tooLong) =
      (ls.filter (isShown maxLine)).map fun l => ⟨decode l, false⟩ := by
  induction ls with
  | nil => rfl
  | cons l ls ih =>
    rw [flatMap_cons, filter_append, ih, filter_yieldLine]
    by_cases hl : isShown maxLine l = true
    · rw [if_pos hl, filter_cons_of_pos hl]
      rfl
    · rw [if_neg hl, filter_cons_of_neg hl]
      rfl

/-- Backward is the reverse of forward, but for the mark of a fragment that is longer than the cap;
and the texts that it yields are those of the lines, each once, that are not blank and not longer than
the cap. -/
theorem directions (file : List UInt8) (stop : ℕ) (cap : Option ℕ) :
    forwardLines file 0 stop cap = (backwardLines file stop cap).reverse ++
        (if (fragment file stop).length > cap.getD MAX_LINE then [⟨"", true⟩] else []) ∧
      (backwardLines file stop cap).reverse = (completeLines file stop).flatMap (yieldLine (cap.getD MAX_LINE)) ∧
      ((backwardLines file stop cap).filter fun item => !item.tooLong) =
        (((completeLines file stop).filter (isShown (cap.getD MAX_LINE))).map fun l => ⟨decode l, false⟩).reverse := by
  have hback : (backwardLines file stop cap).reverse =
      (completeLines file stop).flatMap (yieldLine (cap.getD MAX_LINE)) := by
    rw [backwardLines_eq, ← reverse_flatMap_yieldLine, reverse_reverse]
  refine ⟨?_, hback, ?_⟩
  · rw [forwardLines_eq, hback]
    rfl
  · rw [← filter_flatMap_yieldLine, ← hback, filter_reverse, reverse_reverse]

-- The last line has no end and is longer than the cap.
example : forwardLines [0x61, NL, CR, NL, 0x62, 0x62, NL, 0x63, 0x63] 0 9 (some 1) =
      [⟨"a", false⟩, overlong, overlong] ∧
    backwardLines [0x61, NL, CR, NL, 0x62, 0x62, NL, 0x63, 0x63] 9 (some 1) = [overlong, ⟨"a", false⟩] := by
  decide

end Plur1bus.Logs
