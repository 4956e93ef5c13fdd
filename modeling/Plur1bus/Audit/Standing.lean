import Plur1bus.Audit.Chain
import Plur1bus.Program.Linked

/-!
What a directory holds when its chain is sound: the complete lines of the
rotated files and of the active one are consecutive, correctly linked chain
lines, every rotated file is named after its first line, and at most the
active file ends in a fragment. Every step of a writer keeps this, finished or
cut off; the specifications below say what each adds.
-/

namespace Plur1bus.Audit

open Program Lines Prog List

/-! ### Texts and bytes -/

theorem fromUtf8_bytesOf (s : String) : fromUtf8 (bytesOf s) = some s := by
  unfold fromUtf8 bytesOf String.fromUTF8?
  simp only [Array.toArray_toList]
  exact dif_pos s.isValidUTF8

variable {b : Bytes} {s : String}

theorem bytesOf_of_fromUtf8 (h : fromUtf8 b = some s) : bytesOf s = b := by
  unfold fromUtf8 String.fromUTF8? at h
  split at h
  · cases h
    simp [bytesOf, String.fromUTF8]
  · cases h

theorem bytesOf_append (s t : String) : bytesOf (s ++ t) = bytesOf s ++ bytesOf t := by
  simp [bytesOf]

theorem bytesOf_eq (s : String) : bytesOf s = s.toList.flatMap String.utf8EncodeChar := by
  conv => lhs; rw [← String.ofList_toList (s := s)]
  unfold bytesOf
  rw [String.toUTF8_eq_toByteArray, String.toByteArray_ofList]
  simp [List.utf8Encode]

/-- The newline byte encodes nothing but the newline. -/
theorem eq_newline_of_mem_utf8EncodeChar {c : Char} (h : newline ∈ String.utf8EncodeChar c) : c = '\n' := by
  have hbyte : ∀ n : ℕ, newline = UInt8.ofNat n → n < 256 → n = 10 := by
    intro n hn hlt
    have hmod : 10 = n % 256 := congrArg UInt8.toNat hn
    omega
  unfold String.utf8EncodeChar at h
  simp only at h
  split at h
  · rw [mem_singleton] at h
    have hval := hbyte _ h (by omega)
    exact Char.ext (UInt32.toNat_inj.mp hval)
  -- the bytes of a longer encoding are at least 0x80
  · split at h
    · grind
    · split at h
      · grind
      · grind

theorem newline_not_mem_bytesOf (h : '\n' ∉ s.toList) : newline ∉ bytesOf s := by
  intro hmem
  rw [bytesOf_eq, mem_flatMap] at hmem
  obtain ⟨c, hc, hb⟩ := hmem
  exact h (eq_newline_of_mem_utf8EncodeChar hb ▸ hc)

/-- The bytes decode. -/
def Decodes (b : Bytes) : Prop := (ByteArray.mk b.toArray).IsValidUTF8

theorem decodes_iff : Decodes b ↔ (fromUtf8 b).isSome = true := by
  unfold Decodes fromUtf8 String.fromUTF8?
  split <;> simp_all

theorem Decodes.append {a : Bytes} (ha : Decodes a) (hb : Decodes b) : Decodes (a ++ b) := by
  have := ByteArray.IsValidUTF8.append ha hb
  unfold Decodes
  convert this using 1
  ext1
  simp

theorem decodes_bytesOf (s : String) : Decodes (bytesOf s) := by
  rw [decodes_iff, fromUtf8_bytesOf]
  rfl

theorem isLowerHex_digitChar : ∀ n < 16, isLowerHex (Nat.digitChar n) = true := by decide

theorem hex64_hexOf (d : BitVec 256) : hex64 (hexOf d) = true := by
  unfold hex64 hexOf
  simp only [String.toList_ofList, length_map, length_range, decide_true, Bool.true_and,
    all_map, List.all_eq_true, Function.comp]
  intro i _
  exact isLowerHex_digitChar _ (Nat.mod_lt _ (by decide))

theorem newline_not_mem_of_hex64 (h : hex64 s = true) : '\n' ∉ s.toList := by
  intro hmem
  simp only [hex64, Bool.and_eq_true, List.all_eq_true] at h
  exact absurd (h.2 _ hmem) (by decide)

/-! ### The reader and the printer -/

section

variable {R : Type} (env : Env R)

/-- What the writers rely on: the JSON reader reads back the lines and anchors
they print, and a printed record is one line. -/
structure ReadsBack : Prop where
  line : ∀ seq prev rec', 0 < seq → seq ≤ MAX_SEQ → hex64 prev = true → ∃ fields,
    env.fromStr (lineText env seq prev rec') =
      some (.obj [("seq", .num seq), ("prev", .str prev), ("rec", .obj fields)])
  anchor : ∀ seq hash, 0 < seq → seq ≤ MAX_SEQ → hex64 hash = true →
    env.fromStr (anchorText seq hash ++ "\n") =
      some (.obj [("hash", .str hash), ("seq", .num seq), ("v", .num 1)])
  single : ∀ rec', '\n' ∉ (env.render rec').toList

variable {env}

variable {seq : ℕ}

theorem chainSeq_num (hpos : 0 < seq) (hmax : seq ≤ MAX_SEQ) : chainSeq (.num seq) = some seq := by
  have hrange : (0 : ℤ) < seq ∧ (seq : ℤ) ≤ MAX_SEQ := by omega
  simp only [chainSeq, if_pos hrange, Int.toNat_natCast]

theorem hex64_hashLine (line : String) : hex64 (hashLine env line) = true := hex64_hexOf _

theorem hex64_genesis : hex64 GENESIS = true := by decide

variable {prev : String}

theorem ReadsBack.parseLine (h : ReadsBack env) (rec' : R) (hpos : 0 < seq) (hmax : seq ≤ MAX_SEQ)
    (hprev : hex64 prev = true) : parseLine env (lineText env seq prev rec') = .ok ⟨seq, prev⟩ := by
  obtain ⟨fields, hread⟩ := h.line seq prev rec' hpos hmax hprev
  simp [Audit.parseLine, hread, Json.get, lookup_cons, chainSeq_num hpos hmax, hprev]

theorem newline_not_mem_lineText (h : ReadsBack env) (seq : ℕ) (rec' : R) (hprev : hex64 prev = true) :
    newline ∉ bytesOf (lineText env seq prev rec') := by
  apply newline_not_mem_bytesOf
  have hseq : '\n' ∉ (toString seq).toList := by
    intro hmem
    rw [Nat.toString_eq_repr, Nat.toList_repr] at hmem
    exact absurd (Nat.isDigit_of_mem_toDigits (by decide) (by decide) hmem) (by decide)
  simp only [lineText, String.toList_append, mem_append, not_or]
  exact ⟨⟨⟨⟨⟨⟨by decide, hseq⟩, by decide⟩, newline_not_mem_of_hex64 hprev⟩, by decide⟩,
    h.single rec'⟩, by decide⟩

/-- A line ends in a brace. -/
theorem stripCr_lineText (seq : ℕ) (prev : String) (rec' : R) :
    stripCr (bytesOf (lineText env seq prev rec')) = bytesOf (lineText env seq prev rec') := by
  unfold stripCr lineText
  rw [bytesOf_append, show bytesOf "\x7d" = [125] by decide]
  simp [carriageReturn]

/-! ### What a directory holds -/

/-- The rotated files with their names, the lines of the active file, and its
fragment. A line is raw here: without its newline, as the file has it. -/
structure Layout where
  old : List (ℕ × List Bytes)
  cur : List Bytes
  frag : Bytes

def Layout.raws (x : Layout) : List Bytes := x.old.flatMap Prod.snd ++ x.cur

/-- Each file is named after the number of its first line. -/
def Named : ℕ → List (ℕ × List Bytes) → Prop
  | _, [] => True
  | n, f :: fs => f.1 = n ∧ f.2 ≠ [] ∧ Named (n + f.2.length) fs

theorem Named.bounds {n : ℕ} {old : List (ℕ × List Bytes)} (h : Named n old) :
    ∀ f ∈ old, n ≤ f.1 ∧ f.1 < n + (old.flatMap Prod.snd).length := by
  induction old generalizing n with
  | nil => simp
  | cons g old ih =>
      obtain ⟨hname, hne, hrest⟩ := h
      have hpos : 0 < g.2.length := length_pos_of_ne_nil hne
      intro f hf
      simp only [flatMap_cons, length_append]
      rcases mem_cons.mp hf with rfl | hf
      · omega
      · have := ih hrest f hf
        omega

theorem Named.snoc {n : ℕ} {old : List (ℕ × List Bytes)} (h : Named n old) {ls : List Bytes}
    (hls : ls ≠ []) : Named n (old ++ [(n + (old.flatMap Prod.snd).length, ls)]) := by
  induction old generalizing n with
  | nil => exact ⟨rfl, hls, trivial⟩
  | cons g old ih =>
      obtain ⟨hname, hne, hrest⟩ := h
      have hlen : n + ((g :: old).flatMap Prod.snd).length =
          n + g.2.length + (old.flatMap Prod.snd).length := by
        rw [flatMap_cons, length_append, Nat.add_assoc]
      rw [hlen]
      exact ⟨hname, hne, ih hrest⟩

def seqOf (env : Env R) (line : String) : ℕ :=
  match parseLine env line with
  | .ok p => p.seq
  | .error _ => 0

def prevOf (env : Env R) (line : String) : String :=
  match parseLine env line with
  | .ok p => p.prev
  | .error _ => ""

/-- A line's digest is that of its text, which holds its predecessor's. -/
def links (env : Env R) : LinkShape String String where
  seq l := seqOf env l
  prev l := prevOf env l
  own l := hashLine env l
  digest _ l := hashLine env l

/-- The directory is laid out as `x`, and its complete lines are the chain
`lines`. -/
structure Lies (env : Env R) (d : Dir) (x : Layout) (lines : List String) : Prop where
  distinct : (d.archive.map Prod.fst).Nodup
  rotated : rotated d = x.old.map (fun f => (f.1, content newline f.2))
  active : d.active.getD [] = content newline x.cur ++ x.frag
  named : Named 1 x.old
  terminated : ∀ raw ∈ x.raws, newline ∉ raw
  fragment : newline ∉ x.frag
  reads : x.raws.map (fun raw => fromUtf8 (stripCr raw)) = lines.map some
  parses : ∀ l ∈ lines, ∃ p, parseLine env l = .ok p
  linked : Linked (links env) 1 GENESIS lines

/-- The newest line of a chain. -/
def tailOf (env : Env R) (lines : List String) : Tail :=
  match lines.getLast? with
  | none => ⟨0, GENESIS, GENESIS⟩
  | some l => ⟨seqOf env l, hashLine env l, prevOf env l⟩

variable {l : List (ℕ × Bytes)}

theorem lookup_of_nodup (h : (l.map Prod.fst).Nodup) {k : ℕ} {b : Bytes} (hmem : (k, b) ∈ l) :
    l.lookup k = some b := by
  induction l with
  | nil => cases hmem
  | cons f l ih => grind

theorem orderedInsert_snoc {a x : ℕ × Bytes} (h : a.1 ≤ x.1) :
    (l ++ [x]).orderedInsert (fun a b => a.1 ≤ b.1) a =
      l.orderedInsert (fun a b => a.1 ≤ b.1) a ++ [x] := by
  induction l with
  | nil => simp [h]
  | cons b l ih =>
      simp only [cons_append, orderedInsert_cons]
      split
      · rfl
      · rw [ih, cons_append]

/-- A file of the highest number sorts last. -/
theorem insertionSort_snoc {x : ℕ × Bytes} (h : ∀ a ∈ l, a.1 ≤ x.1) :
    (l ++ [x]).insertionSort (fun a b => a.1 ≤ b.1) = l.insertionSort (fun a b => a.1 ≤ b.1) ++ [x] := by
  induction l with
  | nil => rfl
  | cons a l ih =>
      have hl := ih fun b hb => h b (mem_cons_of_mem _ hb)
      rw [cons_append, insertionSort_cons, hl,
        orderedInsert_snoc (h a (mem_cons_self ..)), insertionSort_cons]

theorem completeLines_content {raws : List Bytes} {frag : Bytes}
    (hraws : ∀ raw ∈ raws, newline ∉ raw) (hfrag : newline ∉ frag) :
    completeLines (content newline raws ++ frag) = raws.map stripCr := by
  unfold completeLines
  rw [afterLast_content raws hfrag, take_left, splitOn_content hraws]
  simp

theorem map_stripCr_eq {raws : List Bytes} {lines : List String}
    (h : raws.map (fun raw => fromUtf8 (stripCr raw)) = lines.map some) :
    raws.map stripCr = lines.map bytesOf := by
  induction raws generalizing lines with
  | nil =>
      cases lines with
      | nil => rfl
      | cons => cases h
  | cons raw raws ih =>
      cases lines with
      | nil => cases h
      | cons line lines =>
          obtain ⟨hraw, hraws⟩ := List.cons.inj h
          rw [map_cons, map_cons, bytesOf_of_fromUtf8 hraw, ih hraws]

namespace Lies

variable {env : Env R} {d : Dir} {x : Layout} {lines : List String}

theorem read_rotated (h : Lies env d x lines) {f : ℕ × List Bytes} (hf : f ∈ x.old) :
    d.read (.rotated f.1) = some (content newline f.2) := by
  have hmem : (f.1, content newline f.2) ∈ Audit.rotated d := by
    rw [h.rotated]
    exact mem_map.mpr ⟨f, hf, rfl⟩
  rw [Audit.rotated, mem_insertionSort, mem_filter] at hmem
  exact lookup_of_nodup h.distinct hmem.1

theorem chainFiles (h : Lies env d x lines) :
    chainFiles d = x.old.map (fun f => .rotated f.1) ++ [.active] := by
  rw [Audit.chainFiles, h.rotated, List.map_map]
  rfl

theorem chainLines (h : Lies env d x lines) : chainLines d = lines.map bytesOf := by
  have hold : (x.old.map (fun f => ChainFile.rotated f.1)).flatMap
      (fun p => ((d.read p).map completeLines).getD []) = (x.old.flatMap Prod.snd).map stripCr := by
    rw [flatMap_map, map_flatMap]
    apply flatMap_congr
    intro f hf
    have hraws : ∀ raw ∈ f.2, newline ∉ raw := fun raw hraw =>
      h.terminated raw (mem_append_left _ (mem_flatMap.mpr ⟨f, hf, hraw⟩))
    have hlines : completeLines (content newline f.2 ++ []) = f.2.map stripCr :=
      completeLines_content hraws (by simp)
    rw [append_nil] at hlines
    rw [h.read_rotated hf, Option.map_some, Option.getD_some, hlines]
  have hcur : ((d.read .active).map completeLines).getD [] = x.cur.map stripCr := by
    have hlines : completeLines (content newline x.cur ++ x.frag) = x.cur.map stripCr :=
      completeLines_content (fun raw hraw => h.terminated raw (mem_append_right _ hraw))
        h.fragment
    rw [← h.active] at hlines
    change (d.active.map completeLines).getD [] = _
    rw [← hlines]
    cases d.active with
    | none => decide
    | some _ => rfl
  rw [Audit.chainLines, h.chainFiles, flatMap_append, hold, flatMap_singleton, hcur, ← map_append]
  exact map_stripCr_eq h.reads

theorem length_eq (h : Lies env d x lines) :
    (x.old.flatMap Prod.snd).length + x.cur.length = lines.length := by
  have := congrArg List.length h.reads
  simpa [Layout.raws] using this

/-- The number of a line is its place. -/
theorem seqOf_getElem (h : Lies env d x lines) (i : ℕ) (hi : i < lines.length) :
    seqOf env lines[i] = i + 1 := by
  have := h.linked.seq_getElem i hi
  simp only [links] at this
  omega

theorem tailOf_seq (h : Lies env d x lines) : (tailOf env lines).seq = lines.length := by
  rcases eq_nil_or_concat lines with rfl | ⟨init, l, rfl⟩
  · rfl
  · have := h.seqOf_getElem init.length (by simp)
    simpa [tailOf] using this

variable {d' : Dir}

/-- The layout is about the chain files only. -/
theorem congr (h : Lies env d x lines) (harchive : d'.archive = d.archive)
    (hactive : d'.active = d.active) : Lies env d' x lines where
  distinct := by rw [harchive]; exact h.distinct
  rotated := by rw [Audit.rotated, harchive]; exact h.rotated
  active := by rw [hactive]; exact h.active
  named := h.named
  terminated := h.terminated
  fragment := h.fragment
  reads := h.reads
  parses := h.parses
  linked := h.linked

/-- Another end of the active file. -/
theorem refrag (h : Lies env d x lines) {frag : Bytes} (harchive : d'.archive = d.archive)
    (hactive : d'.active.getD [] = content newline x.cur ++ frag) (hfrag : newline ∉ frag) :
    Lies env d' { x with frag := frag } lines where
  distinct := by rw [harchive]; exact h.distinct
  rotated := by rw [Audit.rotated, harchive]; exact h.rotated
  active := hactive
  named := h.named
  terminated := h.terminated
  fragment := hfrag
  reads := h.reads
  parses := h.parses
  linked := h.linked

end Lies

end

end Plur1bus.Audit
