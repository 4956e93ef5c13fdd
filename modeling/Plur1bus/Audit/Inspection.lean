import Plur1bus.Audit.Reanchor
import Plur1bus.Audit.Recovery

/-!
The repair's view of a chain against the writer's, for directories of any
content. `inspect` reads every file forwards and `tail` reads backwards from the
newest, cutting torn ends on its way; both end at the last complete line, so
both judge the anchor alike. What the writer still does after that, `inspect`
does not look at: a full active file is renamed after its first line, and a
first line that is not a chain line is refused there.
-/

namespace Plur1bus.Audit

open Program Lines Prog List

variable {R : Type} {env : Env R}

/-! ### Torn ends -/

/-- The complete part of a file. -/
def complete (b : Bytes) : Bytes := b.take (afterLast newline b)

theorem complete_content (raws : List Bytes) {frag : Bytes} (h : newline ∉ frag) :
    complete (content newline raws ++ frag) = content newline raws := by
  rw [complete, afterLast_content raws h, take_left]

theorem afterLast_complete (b : Bytes) : afterLast newline (complete b) = afterLast newline b ∧
      (complete b).length = afterLast newline b := by
  obtain ⟨raws, frag, rfl, -, hfrag⟩ := exists_content newline b
  rw [complete_content raws hfrag, afterLast_content raws hfrag]
  have hnil : newline ∉ ([] : Bytes) := by simp
  have := afterLast_content raws hnil
  rw [append_nil] at this
  exact ⟨this, rfl⟩

@[simp] theorem complete_complete (b : Bytes) : complete (complete b) = complete b := by
  obtain ⟨hafter, hlen⟩ := afterLast_complete b
  conv_lhs => rw [complete, hafter, ← hlen]
  exact take_length

@[simp] theorem completeLines_complete (b : Bytes) : completeLines (complete b) = completeLines b := by
  change ((((complete (complete b)).splitOn newline).map stripCr).dropLast) = _
  rw [complete_complete]
  rfl

/-- From `d` to `d'` torn ends were cut off, and nothing else of the chain
changed. -/
structure Trimmed (d d' : Dir) : Prop where
  files : chainFiles d' = chainFiles d
  names : d'.archive.map Prod.fst = d.archive.map Prod.fst
  read : ∀ p, d'.read p = d.read p ∨ d'.read p = (d.read p).map complete
  anchor : d'.anchor = d.anchor

namespace Trimmed

variable {d d' d'' : Dir}

theorem refl (d : Dir) : Trimmed d d := ⟨rfl, rfl, fun _ => .inl rfl, rfl⟩

theorem trans (h : Trimmed d d') (h' : Trimmed d' d'') : Trimmed d d'' := by
  refine ⟨h'.files.trans h.files, h'.names.trans h.names, fun p => ?_, h'.anchor.trans h.anchor⟩
  rcases h'.read p with hp | hp <;> rcases h.read p with hq | hq <;> rw [hp, hq]
  · exact .inl rfl
  · exact .inr rfl
  · exact .inr rfl
  · right
    rw [Option.map_map]
    congr 1
    funext b
    exact complete_complete b

theorem lines (h : Trimmed d d') (p : ChainFile) :
    (d'.read p).map completeLines = (d.read p).map completeLines := by
  rcases h.read p with hp | hp
  · rw [hp]
  · rw [hp, Option.map_map]
    congr 1
    funext b
    exact completeLines_complete b

theorem chainLines (h : Trimmed d d') : Audit.chainLines d' = Audit.chainLines d := by
  unfold Audit.chainLines
  rw [h.files]
  simp only [h.lines]

theorem verdict (h : Trimmed d d') (t : Tail) :
    verdict env d' t (readAnchor env d') = verdict env d t (readAnchor env d) := by
  have hanchor : readAnchor env d' = readAnchor env d := by
    unfold readAnchor
    rw [h.anchor]
  unfold Audit.verdict lineBeforeTailHashes
  rw [hanchor, h.chainLines]

end Trimmed

theorem map_fst_write (l : List (ℕ × Bytes)) (n : ℕ) (b : Bytes) :
    (l.map (fun f => if f.1 = n then (n, b) else f)).map Prod.fst = l.map Prod.fst := by
  rw [List.map_map]
  apply map_congr_left
  intro f _
  by_cases hf : f.1 = n <;> simp [hf]

theorem lookup_write (l : List (ℕ × Bytes)) (n m : ℕ) (b : Bytes) :
    (l.map (fun f => if f.1 = n then (n, b) else f)).lookup m =
      if m = n then (l.lookup n).map (fun _ => b) else l.lookup m := by
  induction l with
  | nil => simp
  | cons f l ih => grind

theorem map_fst_rotated_write (d : Dir) (b : Bytes) (p : ChainFile) :
    (rotated (d.write b p)).map Prod.fst = (rotated d).map Prod.fst := by
  cases p with
  | active => rfl
  | rotated n =>
      have hkeep : ∀ f : ℕ × Bytes, (if f.1 = n then (n, b) else f).1 = f.1 := by
        intro f
        by_cases hf : f.1 = n <;> simp [hf]
      have hfilter : (d.archive.map (fun f => if f.1 = n then (n, b) else f)).filter
            (fun f => decide (f.1 < 10 ^ 10)) =
          (d.archive.filter (fun f => decide (f.1 < 10 ^ 10))).map
            (fun f => if f.1 = n then (n, b) else f) := by
        rw [filter_map]
        congr 1
        apply filter_congr
        intro f _
        simp only [Function.comp, hkeep]
      change (List.insertionSort _ (List.filter _ (List.map _ _))).map Prod.fst = _
      have hsort := map_insertionSort (fun a b : ℕ × Bytes => a.1 ≤ b.1)
        (fun a b : ℕ × Bytes => a.1 ≤ b.1) (fun f => if f.1 = n then (n, b) else f)
        (d.archive.filter (fun f => decide (f.1 < 10 ^ 10))) fun f _ g _ => by rw [hkeep, hkeep]
      rw [hfilter, ← hsort]
      exact map_fst_write _ n b

variable {d d' : Dir}

theorem chainFiles_congr (h : (rotated d').map Prod.fst = (rotated d).map Prod.fst) :
    chainFiles d' = chainFiles d := by
  have hmap : ∀ d : Dir, chainFiles d = ((rotated d).map Prod.fst).map ChainFile.rotated ++ [.active] := by
    intro d
    rw [chainFiles, List.map_map]
    rfl
  rw [hmap, hmap, h]

theorem read_write (d : Dir) (b : Bytes) (p q : ChainFile) : (d.write b p).read q = if q = p then
      (match p with | .rotated _ => (d.read p).map fun _ => b | .active => some b)
      else d.read q := by
  rcases p with n | _ <;> rcases q with m | _ <;> simp [Dir.write, Dir.read, lookup_write]

theorem trimmed_write {p : ChainFile} {b : Bytes} (h : d.read p = some b) :
    Trimmed d (d.write (complete b) p) where
  files := chainFiles_congr (map_fst_rotated_write d _ p)
  names := by
    cases p with
    | active => rfl
    | rotated n => exact map_fst_write _ n _
  read := by
    intro q
    rw [read_write]
    by_cases hq : q = p
    · subst hq
      right
      cases q <;> simp [h]
    · exact .inl (if_neg hq)
  anchor := by cases p <;> rfl

variable {w : World Dir Effect}

theorem wp_setTornAside_any {p : ChainFile} {bytes : Bytes} (hleft : w.left = none)
    (hread : w.disk.read p = some bytes) : wp (setTornAside p bytes)
      (fun _ w' => w'.left = none ∧ Trimmed w.disk w'.disk ∧
        w'.disk.read p = some (complete bytes)) (fun _ _ => False) w := by
  unfold setTornAside
  simp only [wp_ite, wp_bind, wp_effect, wp_pure]
  constructor
  · intro _
    refine ⟨fun h => ?_, fun _ => ⟨fun h => ?_, fun _ => ?_⟩⟩
    · rw [hleft] at h
      cases h
    · rw [World.after, hleft] at h
      cases h
    · set d₁ : Dir := { w.disk with evidence := w.disk.evidence ++ [(p, bytes.drop _)] } with hd₁
      have hread₁ : d₁.read p = some bytes := by
        rw [← hread]
        cases p <;> rfl
      have hkeep : Trimmed w.disk d₁ := ⟨rfl, rfl, fun q => .inl (by cases q <;> rfl), rfl⟩
      refine ⟨by simp [World.after, hleft], hkeep.trans (trimmed_write hread₁), ?_⟩
      change (d₁.write (complete bytes) p).read p = _
      rw [read_write, if_pos rfl]
      cases p <;> simp [hread₁]
  · intro hend
    have hcomplete : complete bytes = bytes := by
      rw [complete]
      exact take_of_length_le (Nat.le_of_not_lt hend)
    exact ⟨hleft, .refl _, by rw [hread, hcomplete]⟩

/-! ### The newest line -/

def readTail (env : Env R) (raw : Bytes) : Option Tail :=
  (parseRaw env raw).map fun p => ⟨p.seq, hashBytes env raw, p.prev⟩

/-- The newest of the lines, as far as it is a chain line. -/
def newestTail (env : Env R) (lines : List Bytes) : Option Tail :=
  match lines.getLast? with
  | none => some emptyTail
  | some raw => readTail env raw

def fileLines (d : Dir) (p : ChainFile) : List Bytes := ((d.read p).map completeLines).getD []

theorem chainLines_eq (d : Dir) : chainLines d = (chainFiles d).flatMap (fileLines d) := rfl

theorem Trimmed.fileLines (h : Trimmed d d') : fileLines d' = fileLines d := by
  funext p
  unfold Audit.fileLines
  rw [h.lines]

/-- The chain's own word for a line it cannot read. -/
def Malformed (e : Stop Failure) : Prop := ∃ text, e = .thrown (.refusal ⟨"tail-malformed", text⟩)

variable {line : String}

theorem parseLine_error {e : Failure} (h : parseLine env line = .error e) : e = notAChainLine := by
  grind [notAChainLine, parseLine]

theorem lastLine_spec (env : Env R) (init : List Bytes) {raw : Bytes} (hraw : newline ∉ raw) :
    match readTail env (stripCr raw) with
    | some t => lastLine env (content newline init ++ raw) = .ok t
    | none => ∃ text, lastLine env (content newline init ++ raw) =
        .error (.refusal ⟨"tail-malformed", text⟩) := by
  unfold lastLine readTail parseRaw
  rw [drop_afterLast init hraw]
  cases htext : fromUtf8 (stripCr raw) with
  | none => exact ⟨_, rfl⟩
  | some line =>
      simp only [Option.bind_some]
      cases hparse : parseLine env line with
      | ok p =>
          simp only [Except.toOption, Option.map_some, hashLine, bytesOf_of_fromUtf8 htext]
      | error e =>
          rw [parseLine_error hparse]
          exact ⟨_, rfl⟩

theorem newestTail_append {as bs : List Bytes} (h : bs ≠ []) :
    newestTail env (as ++ bs) = newestTail env bs := by
  unfold newestTail
  rw [List.getLast?_append_of_ne_nil _ h]

/-- The writer's newest line is that of the files, whatever they hold. -/
theorem wp_tailFrom_any (env : Env R) (files : List ChainFile) (hleft : w.left = none) :
    wp (tailFrom env files)
      (fun t w' => w'.left = none ∧ Trimmed w.disk w'.disk ∧
        (∀ p ∈ files.head?, w'.disk.read p = (w.disk.read p).map complete) ∧
        newestTail env (files.reverse.flatMap (fileLines w.disk)) = some t)
      (fun e _ => newestTail env (files.reverse.flatMap (fileLines w.disk)) = none ∧ Malformed e)
      w := by
  induction files generalizing w with
  | nil => exact ⟨hleft, .refl _, by simp, rfl⟩
  | cons p rest ih =>
      have hsplit : (p :: rest).reverse.flatMap (fileLines w.disk) =
          rest.reverse.flatMap (fileLines w.disk) ++ fileLines w.disk p := by
        simp
      rw [hsplit, tailFrom, wp_bind, wp_gets]
      cases hread : w.disk.read p with
      | none =>
          have hnil : fileLines w.disk p = [] := by rw [fileLines, hread]; rfl
          rw [hnil, append_nil]
          refine wp_mono (ih hleft) ?_ fun _ _ h => h
          rintro t w₁ ⟨hleft₁, htrim, -, htail⟩
          refine ⟨hleft₁, htrim, ?_, htail⟩
          rintro q hq
          rw [List.head?_cons, Option.mem_some_iff] at hq
          subst hq
          rcases htrim.read p with hp | hp
          · rw [hp, hread]
            rfl
          · exact hp
      | some bytes =>
          have hlines : fileLines w.disk p = completeLines bytes := by rw [fileLines, hread]; rfl
          simp only [wp_bind]
          refine wp_mono (wp_setTornAside_any hleft hread) ?_ fun _ _ h => h.elim
          rintro - w₁ ⟨hleft₁, htrim, hcut⟩
          have hhead : ∀ w₂ : World Dir Effect, Trimmed w₁.disk w₂.disk →
              ∀ q ∈ (p :: rest).head?, w₂.disk.read q = (w.disk.read q).map complete := by
            intro w₂ htrim₂ q hq
            rw [List.head?_cons, Option.mem_some_iff] at hq
            subst hq
            rcases htrim₂.read p with hp | hp <;> rw [hp, hcut, hread] <;> simp
          obtain ⟨raws, frag, hbytes, hraws, hfrag⟩ := exists_content newline bytes
          rw [hlines, hbytes, completeLines_content hraws hfrag]
          rcases eq_nil_or_concat raws with rfl | ⟨init, raw, rfl⟩
          · -- no complete line here: the next older file decides
            have hend : afterLast newline (content newline [] ++ frag) = 0 := afterLast_content [] hfrag
            rw [if_pos hend, map_nil, append_nil]
            refine wp_mono (ih hleft₁) ?_ ?_
            · rintro t w₂ ⟨hleft₂, htrim₂, -, htail⟩
              refine ⟨hleft₂, htrim.trans htrim₂, hhead w₂ htrim₂, ?_⟩
              rw [← htail, htrim.fileLines]
            · rintro e w₂ ⟨htail, he⟩
              refine ⟨?_, he⟩
              rw [← htail, htrim.fileLines]
          · rw [concat_eq_append] at hraws ⊢
            have hend : afterLast newline (content newline (init ++ [raw]) ++ frag) ≠ 0 := by
              rw [afterLast_content _ hfrag, content_snoc]
              simp
            have hspec := lastLine_spec env init (hraws raw (by simp))
            rw [if_neg hend, take_pred_afterLast init raw hfrag, map_append,
              newestTail_append (by simp), map_singleton]
            have hnewest : newestTail env (init.map stripCr ++ [stripCr raw]) =
                readTail env (stripCr raw) := by
              rw [newestTail_append (by simp)]
              rfl
            rw [hnewest]
            cases htail : readTail env (stripCr raw) with
            | some t =>
                rw [htail] at hspec
                simp only at hspec
                rw [hspec]
                exact ⟨hleft₁, htrim, hhead w₁ (.refl _), rfl⟩
            | none =>
                rw [htail] at hspec
                obtain ⟨text, htext⟩ := hspec
                rw [htext]
                exact ⟨rfl, text, rfl⟩

theorem wp_tail_any (env : Env R) (hleft : w.left = none) : wp (tail env)
      (fun t w' => w'.left = none ∧ Trimmed w.disk w'.disk ∧
        w'.disk.active = w.disk.active.map complete ∧ newestTail env (chainLines w.disk) = some t)
      (fun e _ => newestTail env (chainLines w.disk) = none ∧ Malformed e) w := by
  unfold tail
  rw [wp_bind, wp_gets]
  have h := wp_tailFrom_any env (chainFiles w.disk).reverse hleft
  rw [reverse_reverse] at h
  refine wp_mono h ?_ fun _ _ h => h
  rintro t w' ⟨hleft', htrim, hhead, htail⟩
  exact ⟨hleft', htrim, hhead .active (by simp [chainFiles]), htail⟩

/-! ### The inspection -/

theorem newest_scanLine (env : Env R) (name : String) (s : Scan × Option ℕ) (line : Bytes × ℕ) :
    (scanLine env name s line).1.newest = some (readTail env line.1) := by
  unfold scanLine
  simp only
  split
  · rfl
  · split
    · rfl
    · split <;> rfl

theorem newest_scanLines (env : Env R) (name : String) (lines : List (Bytes × ℕ))
    (s : Scan × Option ℕ) :
    (lines.foldl (scanLine env name) s).1.newest =
      (lines.getLast?.map fun line => readTail env line.1).or s.1.newest := by
  rcases eq_nil_or_concat lines with rfl | ⟨init, line, rfl⟩
  · rfl
  · rw [concat_eq_append, foldl_append, List.getLast?_append_of_ne_nil _ (by simp)]
    exact newest_scanLine env name _ line

theorem newest_checkName (file : ChainFile) (firstSeq : Option ℕ) (scan : Scan) :
    (checkName file firstSeq scan).newest = scan.newest := by
  unfold checkName
  split
  · rfl
  · split
    · split <;> rfl
    · rfl

theorem newest_checkEnd (file : ChainFile) (bytes : Bytes) (scan : Scan) :
    (checkEnd file bytes scan).newest = scan.newest := by
  unfold checkEnd
  split <;> rfl

theorem newest_scanFile (env : Env R) (scan : Scan) (file : ChainFile × Bytes) :
    (scanFile env scan file).newest =
      ((completeLines file.2).getLast?.map (readTail env)).or scan.newest := by
  have hlast : (completeLines file.2).zipIdx.getLast?.map Prod.fst = (completeLines file.2).getLast? := by
    rw [← List.getLast?_map, zipIdx_map_fst]
  unfold scanFile
  simp only [newest_checkEnd, newest_checkName, newest_scanLines]
  rw [← hlast, Option.map_map]
  rfl

theorem newest_scanFiles (env : Env R) (files : List (ChainFile × Bytes)) (scan : Scan) :
    (files.foldl (scanFile env) scan).newest =
      ((files.flatMap fun f => completeLines f.2).getLast?.map (readTail env)).or scan.newest := by
  induction files generalizing scan with
  | nil => rfl
  | cons f files ih =>
      rw [foldl_cons, ih, newest_scanFile, flatMap_cons, List.getLast?_append]
      cases (files.flatMap fun f => completeLines f.2).getLast? <;> simp

theorem chainLines_presentFiles (hnames : (d.archive.map Prod.fst).Nodup) :
    (presentFiles d).flatMap (fun f => completeLines f.2) = chainLines d := by
  have hold : (rotated d).flatMap (fun f => completeLines f.2) =
      ((rotated d).map fun f => ChainFile.rotated f.1).flatMap (fileLines d) := by
    rw [flatMap_map]
    apply flatMap_congr
    rintro ⟨n, b⟩ hf
    rw [rotated, mem_insertionSort, mem_filter] at hf
    have hread : d.read (.rotated n) = some b := lookup_of_nodup hnames hf.1
    rw [fileLines, hread]
    rfl
  rw [chainLines_eq, chainFiles, presentFiles, flatMap_append, flatMap_append, ← hold, flatMap_map]
  congr 1
  rw [flatMap_map, flatMap_singleton]
  cases hactive : d.active <;> simp [fileLines, Dir.read, hactive]

/-- What the inspection says of the anchor. -/
theorem inspect_verdict {d : Dir} (hnames : (d.archive.map Prod.fst).Nodup) : (inspect env d).verdict =
      match newestTail env (chainLines d) with
      | none => .refuse .tailMalformed
      | some t => verdict env d t (readAnchor env d) := by
  have hnewest : ((presentFiles d).foldl (scanFile env) {}).newest.getD (some emptyTail) =
      newestTail env (chainLines d) := by
    rw [newest_scanFiles, chainLines_presentFiles hnames]
    unfold newestTail
    cases (chainLines d).getLast? <;> rfl
  unfold inspect
  dsimp only
  rewrite [hnewest]
  cases newestTail env (chainLines d) <;> rfl

/-! ### Text that ends in a newline -/

/-- A newline byte is a newline character, so a text can be cut there. -/
theorem split_at_newline {cs : List Char} {a b : Bytes}
    (h : cs.flatMap String.utf8EncodeChar = a ++ newline :: b) :
    ∃ init rest, cs = init ++ '\n' :: rest ∧ a = init.flatMap String.utf8EncodeChar := by
  induction cs generalizing a with
  | nil => simp at h
  | cons c cs ih =>
      have hnext : ∀ a', a = String.utf8EncodeChar c ++ a' →
          cs.flatMap String.utf8EncodeChar = a' ++ newline :: b →
          ∃ init rest, c :: cs = init ++ '\n' :: rest ∧ a = init.flatMap String.utf8EncodeChar := by
        intro a' ha hrest
        obtain ⟨init, rest, rfl, rfl⟩ := ih hrest
        exact ⟨c :: init, rest, rfl, by rw [ha, flatMap_cons]⟩
      rw [flatMap_cons] at h
      rcases append_eq_append_iff.mp h with ⟨a', ha, hrest⟩ | ⟨c', hc, hrest⟩
      · exact hnext a' ha hrest
      · cases c' with
        | nil =>
            rw [append_nil] at hc
            exact hnext [] (by rw [hc, append_nil]) hrest.symm
        | cons x c' =>
            obtain ⟨rfl, -⟩ := List.cons.inj hrest
            have hmem : newline ∈ String.utf8EncodeChar c := by rw [hc]; simp
            obtain rfl := eq_newline_of_mem_utf8EncodeChar hmem
            have hlen := congrArg List.length hc
            rw [show String.utf8EncodeChar '\n' = [newline] by decide] at hlen
            simp only [length_append, length_cons, length_nil] at hlen
            exact ⟨[], cs, rfl, length_eq_zero_iff.mp (by omega)⟩

theorem Decodes.of_append {a b : Bytes} (h : Decodes (a ++ newline :: b)) : Decodes (a ++ [newline]) := by
  obtain ⟨s, hs⟩ := Option.isSome_iff_exists.mp (decodes_iff.mp h)
  have hbytes := bytesOf_of_fromUtf8 hs
  rw [bytesOf_eq] at hbytes
  obtain ⟨init, rest, -, rfl⟩ := split_at_newline hbytes
  have htext := decodes_bytesOf (String.ofList (init ++ ['\n']))
  rw [bytesOf_eq, String.toList_ofList, flatMap_append] at htext
  exact htext

/-! ### What a write can still refuse -/

/-- The refusals that say the chain and its anchor disagree. -/
def RefusedFor (why : Disagreement) (e : Stop Failure) : Prop :=
  ∃ text, e = .thrown (.refusal ⟨why.refusalCode, text⟩)

/-- A refusal of another kind, or no refusal. -/
def Other (e : Stop Failure) : Prop := ∀ why, ¬RefusedFor why e

/-- A full text file whose first line is not a chain line. -/
def Jammed (env : Env R) (active : Option Bytes) : Prop :=
  ∃ bytes, active = some bytes ∧ MAX_BYTES ≤ bytes.length ∧ Decodes bytes ∧
    ∃ first e, firstLine bytes = some first ∧ parseLine env first = .error e

/-- A nonempty text file that is full once `n` bytes are added, and whose first
line is not a chain line. -/
def JammedWith (env : Env R) (n : ℕ) (body : Bytes) : Prop :=
  body ≠ [] ∧ MAX_BYTES ≤ body.length + n ∧ Decodes body ∧
    ∃ first e, firstLine body = some first ∧ parseLine env first = .error e

variable {body : Bytes}

theorem JammedWith.of_full {n : ℕ} (h : JammedWith env n body) (hfull : MAX_BYTES ≤ body.length) :
    JammedWith env 0 body :=
  ⟨h.1, hfull, h.2.2⟩

theorem jammed_iff (active : Option Bytes) : Jammed env active ↔ JammedWith env 0 (active.getD []) := by
  cases active with
  | none =>
      refine iff_of_false ?_ (fun h => h.1 rfl)
      rintro ⟨bytes, h, -⟩
      cases h
  | some bytes =>
      constructor
      · rintro ⟨bytes', h, hfull, hdecodes, hfirst⟩
        cases h
        refine ⟨?_, hfull, hdecodes, hfirst⟩
        rintro rfl
        exact absurd hfull (by decide)
      · rintro ⟨-, hfull, hdecodes, hfirst⟩
        exact ⟨bytes, rfl, hfull, hdecodes, hfirst⟩

/-- The file after one more line: it is jammed by the line it already starts
with. -/
theorem jammed_snoc {p : Parsed} (hbody : complete body = body) (hline : newline ∉ bytesOf line)
    (hcr : stripCr (bytesOf line) = bytesOf line) (hparse : parseLine env line = .ok p) :
    Jammed env (some (body ++ bytesOf line ++ [newline])) ↔
      JammedWith env ((bytesOf line).length + 1) body := by
  obtain ⟨raws, frag, hraws, hterminated, hfrag⟩ := exists_content newline body
  have hcontent : body = content newline raws := by
    rw [← hbody, hraws, complete_content raws hfrag]
  rw [jammed_iff]
  subst hcontent
  have hadded : content newline raws ++ bytesOf line ++ [newline] =
      content newline (raws ++ [bytesOf line]) := (content_snoc ..).symm
  unfold JammedWith
  rw [Option.getD_some]
  cases raws with
  | nil =>
      refine iff_of_false ?_ (fun h => h.1 rfl)
      rintro ⟨-, -, -, first, e, hfirst, hbad⟩
      rw [hadded, firstLine, nil_append, takeWhile_content [] hline, hcr, fromUtf8_bytesOf] at hfirst
      cases hfirst
      rw [hparse] at hbad
      cases hbad
  | cons raw raws =>
      have hraw : newline ∉ raw := hterminated raw (mem_cons_self ..)
      have hfirst : firstLine (content newline (raw :: raws) ++ bytesOf line ++ [newline]) =
          firstLine (content newline (raw :: raws)) := by
        rw [hadded, firstLine, firstLine, cons_append, takeWhile_content _ hraw, takeWhile_content _ hraw]
      have hdecodes : Decodes (content newline (raw :: raws) ++ bytesOf line ++ [newline]) ↔
          Decodes (content newline (raw :: raws)) := by
        constructor
        · intro h
          obtain ⟨init, last, hlast⟩ := (eq_nil_or_concat (raw :: raws)).resolve_left (by simp)
          rw [concat_eq_append] at hlast
          rw [hlast, content_snoc] at h ⊢
          simp only [append_assoc, singleton_append] at h
          rw [← append_assoc] at h
          exact h.of_append
        · intro h
          exact (h.append (decodes_bytesOf line)).append (decodes_bytesOf "\n")
      rw [hfirst, hdecodes]
      have hne : content newline (raw :: raws) ≠ [] := by rw [content_cons]; simp
      simp only [length_append, length_singleton, Nat.add_zero, Nat.add_assoc]
      simp [hne]

theorem other_refusal {reason text : String} (h : ∀ why : Disagreement, why.refusalCode ≠ reason) :
    Other (.thrown (.refusal ⟨reason, text⟩)) := by
  rintro why ⟨text', heq⟩
  cases heq
  exact h why rfl

theorem other_io : Other (.thrown .io) := by
  rintro why ⟨text', heq⟩
  cases heq

/-- How a write ends: it refuses a malformed line exactly when `p` holds. -/
def EndsOn (p : Prop) (e : Stop Failure) : Prop := (p ∧ RefusedFor .tailMalformed e) ∨ (¬p ∧ Other e)

theorem wp_rotate_any (env : Env R) (hleft : w.left = none) : wp (rotate env)
      (fun _ w' => ¬Jammed env w.disk.active ∧ w'.left = none ∧
        if (w.disk.active.getD []).length < MAX_BYTES then w' = w else w'.disk.active = none)
      (fun e _ => MAX_BYTES ≤ (w.disk.active.getD []).length ∧ EndsOn (Jammed env w.disk.active) e) w := by
  unfold rotate
  rw [wp_bind, wp_gets]
  cases hactive : w.disk.active with
  | none =>
      refine ⟨?_, hleft, ?_⟩
      · rintro ⟨bytes, h, -⟩
        cases h
      · exact (if_pos (by decide)).mpr rfl
  | some bytes =>
      have hjam : Jammed env (some bytes) ↔ MAX_BYTES ≤ bytes.length ∧ Decodes bytes ∧
          ∃ first e, firstLine bytes = some first ∧ parseLine env first = .error e := by
        simp [Jammed]
      simp only
      by_cases hfull : bytes.length < MAX_BYTES
      · simp_all
      rw [if_neg hfull]
      cases htext : fromUtf8 bytes with
      | none =>
          have hnot : ¬Jammed env (some bytes) := by
            intro h
            have := decodes_iff.mp (hjam.mp h).2.1
            rw [htext] at this
            cases this
          exact ⟨Nat.le_of_not_lt hfull, .inr ⟨hnot, other_io⟩⟩
      | some text =>
          have hdecodes : Decodes bytes := decodes_iff.mpr (by rw [htext]; rfl)
          cases hfirst : firstLine bytes with
          | none =>
              refine ⟨Nat.le_of_not_lt hfull, .inr ⟨fun h => ?_, other_io⟩⟩
              obtain ⟨first, e, hfirst', -⟩ := (hjam.mp h).2.2
              rw [hfirst] at hfirst'
              cases hfirst'
          | some first =>
              cases hparse : parseLine env first with
              | error e =>
                  simp only [hparse, raiseError, wp_bind, wp_raise]
                  refine ⟨Nat.le_of_not_lt hfull,
                    .inl ⟨hjam.mpr ⟨by omega, hdecodes, first, e, hfirst, hparse⟩, ?_⟩⟩
                  rw [parseLine_error hparse]
                  exact ⟨_, rfl⟩
              | ok p =>
                  have hnot : ¬Jammed env (some bytes) := by simp_all
                  simp only [hparse, raiseError, wp_bind, wp_pure, wp_gets, wp_ite, wp_effect]
                  refine ⟨fun _ => ⟨Nat.le_of_not_lt hfull,
                      .inr ⟨hnot, other_refusal (by intro why; cases why <;> decide)⟩⟩,
                    fun _ => ⟨fun h => ?_, fun _ => ⟨hnot, ?_, (if_neg hfull).mpr rfl⟩⟩⟩
                  · rw [hleft] at h
                    cases h
                  · simp [World.after, hleft]

theorem wp_writeAnchor_any (hleft : w.left = none) (seq : ℕ) (hash : String) : wp (writeAnchor seq hash)
      (fun _ w' => w'.left = none ∧ w'.disk.active = w.disk.active) (fun _ _ => False) w := by
  refine wp_mono (wp_writeAnchor_steps seq hash) ?_ ?_
  · rintro - w' ⟨hpassed, hdisk⟩
    exact ⟨hpassed.of_none hleft, by rw [hdisk]⟩
  · rintro e w' ⟨-, k, -, hk, -⟩
    rw [hleft] at hk
    cases hk

theorem wp_writeLineUnanchored_any (env : Env R) (hleft : w.left = none) (start : Tail) (rec' : R) :
    wp (writeLineUnanchored env start rec')
      (fun t w' => start.seq < MAX_SEQ ∧ ¬Jammed env w.disk.active ∧ w'.left = none ∧
        t.seq = start.seq + 1 ∧ ∃ body, w'.disk.active =
            some (body ++ bytesOf (lineText env (start.seq + 1) start.hash rec') ++ [newline]) ∧
          body = if (w.disk.active.getD []).length < MAX_BYTES then w.disk.active.getD [] else [])
      (fun e _ => (start.seq < MAX_SEQ → MAX_BYTES ≤ (w.disk.active.getD []).length) ∧
        EndsOn (start.seq < MAX_SEQ ∧ Jammed env w.disk.active) e) w := by
  unfold writeLineUnanchored
  rw [wp_ite]
  constructor
  · intro hmax
    exact ⟨fun h => by omega, .inr ⟨fun h => by omega, other_refusal (by intro why; cases why <;> decide)⟩⟩
  · intro hmax
    rw [wp_bind]
    refine wp_mono (wp_rotate_any env hleft) ?_ ?_
    · rintro - w₁ ⟨hnot, hleft₁, hactive⟩
      simp only [wp_bind, wp_effect, wp_pure]
      refine ⟨fun h => ?_, fun _ => ⟨fun h => ?_, fun _ => ?_⟩⟩
      · rw [hleft₁] at h
        cases h
      · rw [World.after, hleft₁] at h
        cases h
      · refine ⟨by omega, hnot, by simp [World.after, hleft₁], trivial, w₁.disk.active.getD [], rfl, ?_⟩
        split at hactive
        · rename_i hlt
          rw [if_pos hlt, hactive]
        · rename_i hlt
          rw [if_neg hlt, hactive]
          rfl
    · simp_all

theorem wp_writeRecs_any (env : Env R) (hleft : w.left = none) (t : Tail) (rec' : R) :
    wp (writeRecs env t [rec'])
      (fun _ _ => ¬(t.seq < MAX_SEQ ∧ Jammed env w.disk.active))
      (fun e _ => EndsOn (t.seq < MAX_SEQ ∧ Jammed env w.disk.active) e) w := by
  unfold writeRecs
  rw [wp_bind, writeBatch, wp_bind, wp_attempt]
  refine wp_mono (wp_writeLineUnanchored_any env hleft t rec') ?_ ?_
  · rintro t' w₁ ⟨-, hnot, hleft₁, -⟩
    change wp (writeAnchor t'.seq t'.hash >>= fun _ => raiseError (.ok ())) _ _ w₁
    rw [wp_bind]
    exact wp_mono (wp_writeAnchor_any hleft₁ _ _) (fun _ _ _ h => hnot h.2) fun _ _ h => h.elim
  · rintro e w₁ ⟨-, hend⟩
    constructor
    · rintro rfl
      exact hend
    · rintro e' rfl
      exact hend

/-- The line that records a moved anchor. -/
def advanceLine (env : Env R) (t : Tail) : String :=
  lineText env (t.seq + 1) t.hash (env.anchorAdvancedEvent (t.seq - 1) t.seq)

/-- A write after the verdict `v` runs into a first line that is not a chain
line. -/
def Stuck (env : Env R) (active : Option Bytes) (t : Tail) (v : Verdict) : Prop :=
  (t.seq < MAX_SEQ ∧ JammedWith env 0 (active.getD [])) ∨ (v = .advance ∧ t.seq + 1 < MAX_SEQ ∧
      JammedWith env ((bytesOf (advanceLine env t)).length + 1) (active.getD []))

theorem stuck_agree (active : Option Bytes) (t : Tail) :
    Stuck env active t .agree ↔ t.seq < MAX_SEQ ∧ Jammed env active := by
  simp [Stuck, jammed_iff]

variable {t : Tail}

theorem wp_append_advance (hserde : ReadsBack env) (hleft : w.left = none)
    (hactive : w.disk.active = w.disk.active.map complete) (hhash : hex64 t.hash = true) (rec' : R) :
    wp (do let t ← settle env t .advance; writeRecs env t [rec'])
      (fun _ _ => ¬Stuck env w.disk.active t .advance)
      (fun e _ => EndsOn (Stuck env w.disk.active t .advance) e) w := by
  have hbody : complete (w.disk.active.getD []) = w.disk.active.getD [] := by
    cases h : w.disk.active with
    | none => decide
    | some bytes =>
        rw [h] at hactive
        exact (Option.some.inj hactive).symm
  have hcr : stripCr (bytesOf (advanceLine env t)) = bytesOf (advanceLine env t) := stripCr_lineText _ _ _
  have hline : newline ∉ bytesOf (advanceLine env t) := newline_not_mem_lineText hserde _ _ hhash
  rw [wp_bind, settle, wp_bind]
  refine wp_mono (wp_writeAnchor_any hleft _ _) ?_ fun _ _ h => h.elim
  rintro - w₁ ⟨hleft₁, hactive₁⟩
  rw [writeLine, wp_bind]
  refine wp_mono (wp_writeLineUnanchored_any env hleft₁ t _) ?_ ?_
  · -- the event is written: the record meets the file that holds it
    rintro t' w₂ ⟨hmax, hnot, hleft₂, hseq, body, hgrown, hkept⟩
    rw [hactive₁] at hnot hkept
    rw [wp_bind]
    refine wp_mono (wp_writeAnchor_any hleft₂ _ _) ?_ fun _ _ h => h.elim
    rintro - w₃ ⟨hleft₃, hactive₃⟩
    rw [wp_pure]
    have hstuck : (t'.seq < MAX_SEQ ∧ Jammed env w₃.disk.active) ↔ Stuck env w.disk.active t .advance := by
      obtain ⟨p, hparse⟩ : ∃ p, parseLine env (advanceLine env t) = .ok p :=
        ⟨_, hserde.parseLine _ (by omega) (by omega) hhash⟩
      rw [hseq, hactive₃, hgrown]
      by_cases hlt : (w.disk.active.getD []).length < MAX_BYTES
      · rw [if_pos hlt] at hkept
        subst hkept
        change _ ∧ Jammed env (some (_ ++ bytesOf (advanceLine env t) ++ _)) ↔ _
        rw [jammed_snoc hbody hline hcr hparse, Stuck, ← jammed_iff]
        simp [hnot]
      · rw [if_neg hlt] at hkept
        subst hkept
        change _ ∧ Jammed env (some (_ ++ bytesOf (advanceLine env t) ++ _)) ↔ _
        rw [jammed_snoc (by decide) hline hcr hparse, Stuck, ← jammed_iff]
        refine iff_of_false (fun h => h.2.1 rfl) ?_
        rintro (⟨-, hjam⟩ | ⟨-, -, hjam⟩)
        · exact hnot hjam
        · exact hnot ((jammed_iff _).mpr (hjam.of_full (Nat.le_of_not_lt hlt)))
    have hrest := wp_writeRecs_any env hleft₃ t' rec'
    simp only [hstuck] at hrest
    exact hrest
  · rintro e w₂ ⟨hfull, hend⟩
    rw [hactive₁] at hfull hend
    rcases hend with ⟨⟨hmax, hjam⟩, he⟩ | ⟨hnot, he⟩
    · exact .inl ⟨.inl ⟨hmax, (jammed_iff _).mp hjam⟩, he⟩
    · refine .inr ⟨?_, he⟩
      rintro (⟨hmax, hjam⟩ | ⟨-, hmax, hjam⟩)
      · exact hnot ⟨hmax, (jammed_iff _).mpr hjam⟩
      · have hlt : t.seq < MAX_SEQ := by omega
        exact hnot ⟨hlt, (jammed_iff _).mpr (hjam.of_full (hfull hlt))⟩

/-! ### The two verdicts -/

theorem RefusedFor.inj {why why' : Disagreement} {e : Stop Failure} (h : RefusedFor why e)
    (h' : RefusedFor why' e) : why = why' := by
  obtain ⟨text, rfl⟩ := h
  obtain ⟨text', heq⟩ := h'
  injection heq with heq
  injection heq with heq
  injection heq with hcode
  cases why <;> cases why' <;> first | rfl | exact absurd hcode (by decide)

theorem hex64_newestTail {lines : List Bytes} (h : newestTail env lines = some t) :
    hex64 t.hash = true := by
  unfold newestTail readTail at h
  split at h
  · cases h
    exact hex64_genesis
  · obtain ⟨p, -, rfl⟩ := Option.map_eq_some_iff.mp h
    exact hex64_hexOf _

/-- The newest line and the anchor agree, or nearly, and the write after that runs
into a first line that is not a chain line. -/
def Stalled (env : Env R) (d : Dir) : Prop := ∃ t, newestTail env (chainLines d) = some t ∧
    (∀ why, verdict env d t (readAnchor env d) ≠ .refuse why) ∧
    Stuck env (d.active.map complete) t (verdict env d t (readAnchor env d))

theorem disagreement_eq_none (hnames : (d.archive.map Prod.fst).Nodup)
    (ht : newestTail env (chainLines d) = some t) : (inspect env d).disagreement = none ↔
      ∀ why, verdict env d t (readAnchor env d) ≠ .refuse why := by
  have hverdict := @inspect_verdict R env d hnames
  simp only [ht] at hverdict
  rw [Inspection.disagreement, hverdict]
  cases verdict env d t (readAnchor env d) <;> simp

theorem wp_judged_any (env : Env R) (hnames : (d.archive.map Prod.fst).Nodup) :
    wp (judged env) (fun v _ => v = (inspect env d).verdict)
      (fun e _ => (inspect env d).verdict = .refuse .tailMalformed ∧
        newestTail env (chainLines d) = none ∧ Malformed e) { disk := d } := by
  unfold judged
  rw [wp_bind]
  refine wp_mono (wp_tail_any env rfl) ?_ ?_
  · rintro t w₁ ⟨-, htrim, -, htail⟩
    rw [wp_gets, inspect_verdict hnames, htail]
    exact htrim.verdict t
  · rintro e w₁ ⟨htail, he⟩
    refine ⟨?_, htail, he⟩
    rw [inspect_verdict hnames, htail]

theorem wp_appendLocked_any (hserde : ReadsBack env) (hnames : (d.archive.map Prod.fst).Nodup)
    (rec' : R) : wp (appendLocked env [rec'])
      (fun _ _ => (inspect env d).disagreement = none ∧ ¬Stalled env d)
      (fun e _ => match (inspect env d).disagreement with
        | some why => RefusedFor why e
        | none => EndsOn (Stalled env d) e) { disk := d } := by
  have hverdict := @inspect_verdict R env d hnames
  unfold appendLocked
  rw [wp_bind]
  refine wp_mono (wp_tail_any env rfl) ?_ ?_
  · rintro t w₁ ⟨hleft, htrim, hactive, htail⟩
    rw [wp_bind, wp_gets, htrim.verdict]
    change newestTail env (chainLines d) = some t at htail
    simp only [htail] at hverdict
    change wp (do let t ← settle env t (verdict env d t (readAnchor env d)); _) _ _ _
    rw [← hverdict]
    have hstalled : (inspect env d).disagreement = none →
        (Stalled env d ↔ Stuck env w₁.disk.active t (inspect env d).verdict) := by
      intro hnone
      rw [hactive, hverdict]
      constructor
      · rintro ⟨t', ht', -, hstuck⟩
        rw [htail] at ht'
        cases ht'
        exact hstuck
      · exact fun hstuck => ⟨t, htail, (disagreement_eq_none hnames htail).mp hnone, hstuck⟩
    cases hv : (inspect env d).verdict with
    | refuse why =>
        have hwhy : (inspect env d).disagreement = some why := by rw [Inspection.disagreement, hv]
        rw [hwhy]
        exact ⟨_, rfl⟩
    | agree =>
        have hnone : (inspect env d).disagreement = none := by rw [Inspection.disagreement, hv]
        have hiff := hstalled hnone
        rw [hv, stuck_agree] at hiff
        rw [hnone, hiff]
        refine wp_mono (wp_writeRecs_any env hleft t rec') ?_ fun _ _ h => h
        exact fun _ _ h => ⟨rfl, h⟩
    | advance =>
        have hnone : (inspect env d).disagreement = none := by rw [Inspection.disagreement, hv]
        have hiff := hstalled hnone
        rw [hv] at hiff
        rw [hnone, hiff]
        have hcomplete : w₁.disk.active = w₁.disk.active.map complete := by
          rw [hactive, Option.map_map]
          congr 1
          funext b
          exact (complete_complete b).symm
        refine wp_mono (wp_append_advance hserde hleft hcomplete (hex64_newestTail htail) rec') ?_
          fun _ _ h => h
        exact fun _ _ h => ⟨rfl, h⟩
  · rintro e w₁ ⟨htail, he⟩
    change newestTail env (chainLines d) = none at htail
    rw [htail] at hverdict
    have hwhy : (inspect env d).disagreement = some .tailMalformed := by
      rw [Inspection.disagreement, hverdict]
    rw [hwhy]
    exact he

/-! ### Inspection and writer -/

/-- The append ended in a refusal for `why`. -/
def Refuses (why : Disagreement) (out : Except (Stop Failure) Unit × World Dir Effect) : Prop :=
  ∃ e, out.1 = .error e ∧ RefusedFor why e

/-- The inspection of `d` against an append of `rec'` to it. -/
structure Agrees (env : Env Fields) (d : Dir) (rec' : Fields) : Prop where
  refuses : ∀ why, (inspect env d).disagreement = some why ↔
    Refuses why (appendLocked env [rec'] { disk := d })
  heals : (inspect env d).healsItself = true ↔ (judged env { disk := d }).1 = .ok .advance
  setsAside : ∀ r f, Effect.setOldAside f ∈ (reanchor env r false { disk := d }).2.log →
    ∃ why, Refuses why (appendLocked env [rec'] { disk := d })
  nothing : ∀ r b, (reanchor env r false { disk := d }).1 = .ok (.error (.nothingToRepair b)) →
    ∀ why, ¬Refuses why (appendLocked env [rec'] { disk := d })

section

variable {env : Env Fields}

variable {d : Dir}

theorem refuses_iff (hserde : ReadsBack env) (hnames : (d.archive.map Prod.fst).Nodup) (rec' : Fields)
    (why : Disagreement) : Refuses why (appendLocked env [rec'] { disk := d }) ↔
      (inspect env d).disagreement = some why ∨ (Stalled env d ∧ why = .tailMalformed) := by
  have hspec := wp_appendLocked_any hserde hnames rec'
  rcases hrun : appendLocked env [rec'] { disk := d } with ⟨e | a, w'⟩
  · have hend := hspec.error hrun
    have hrefuses : Refuses why (Except.error e, w') ↔ RefusedFor why e := by
      constructor
      · rintro ⟨e', he, h⟩
        cases he
        exact h
      · exact fun h => ⟨e, rfl, h⟩
    rw [hrefuses]
    cases hwhy : (inspect env d).disagreement with
    | some why' =>
        rw [hwhy] at hend
        constructor
        · exact fun h => .inl (by rw [hend.inj h])
        · rintro (h | ⟨⟨t, ht, hverdict, -⟩, -⟩)
          · cases h
            exact hend
          · rw [(disagreement_eq_none hnames ht).mpr hverdict] at hwhy
            cases hwhy
    | none =>
        rw [hwhy] at hend
        rcases hend with ⟨hstalled, he⟩ | ⟨hnot, he⟩
        · constructor
          · exact fun h => .inr ⟨hstalled, h.inj he⟩
          · rintro (h | ⟨-, rfl⟩)
            · cases h
            · exact he
        · refine iff_of_false (he why) ?_
          rintro (h | ⟨h, -⟩)
          · cases h
          · exact hnot h
  · obtain ⟨hnone, hnot⟩ := hspec.ok hrun
    refine iff_of_false ?_ ?_
    · rintro ⟨e, he, -⟩
      cases he
    · rintro (h | ⟨h, -⟩)
      · rw [hnone] at h
        cases h
      · exact hnot h

theorem heals_iff (hnames : (d.archive.map Prod.fst).Nodup) :
    (inspect env d).healsItself = true ↔ (judged env { disk := d }).1 = .ok .advance := by
  have hspec := wp_judged_any env hnames
  rw [Inspection.healsItself, decide_eq_true_iff]
  rcases hrun : judged env { disk := d } with ⟨e | v, w'⟩
  · obtain ⟨hv, -, -⟩ := hspec.error hrun
    rw [hv]
    exact iff_of_false (by simp) (by simp)
  · have hv : v = (inspect env d).verdict := hspec.ok hrun
    rw [← hv]
    simp

variable {r : Request} {w : World Dir Effect}

/-- A repair does something exactly when there is a disagreement. -/
theorem reanchor_of_none (h : (inspect env w.disk).disagreement = none) : reanchor env r false w =
      (.ok (.error (.nothingToRepair (inspect env w.disk).healsItself)), w) := by
  rw [reanchor_eq r w rfl, h]

theorem reanchor_nothing {b : Bool} (h : (reanchor env r false w).1 = .ok (.error (.nothingToRepair b))) :
    (inspect env w.disk).disagreement = none := by
  rw [reanchor_eq r w rfl] at h
  cases hwhy : (inspect env w.disk).disagreement with
  | none => rfl
  | some why =>
      rw [hwhy] at h
      simp only at h
      split at h
      · cases h
      · split at h <;> cases h

/-- The inspection and the writer agree on a directory of any content, unless the
active file is full and its first line is not a chain line. -/
theorem inspection_agrees_iff (env : Env Fields) (hserde : ReadsBack env) (d : Dir)
    (hnames : (d.archive.map Prod.fst).Nodup) (rec' : Fields) :
    Agrees env d rec' ↔ ¬Stalled env d := by
  have hrefuses := refuses_iff hserde hnames rec'
  constructor
  · intro h hstalled
    obtain ⟨t, ht, hverdict, -⟩ := id hstalled
    have hrefused := (h.refuses .tailMalformed).mpr ((hrefuses _).mpr (.inr ⟨hstalled, rfl⟩))
    rw [(disagreement_eq_none hnames ht).mpr hverdict] at hrefused
    cases hrefused
  · intro hnot
    have hiff : ∀ why, (inspect env d).disagreement = some why ↔
        Refuses why (appendLocked env [rec'] { disk := d }) := by
      intro why
      rw [hrefuses]
      exact ⟨.inl, fun h => h.resolve_right fun h => hnot h.1⟩
    refine ⟨hiff, heals_iff hnames, fun r f hlog => ?_, fun r b hnothing why hrefused => ?_⟩
    · cases hwhy : (inspect env d).disagreement with
      | none =>
          rw [reanchor_of_none hwhy] at hlog
          cases hlog
      | some why => exact ⟨why, (hiff why).mp hwhy⟩
    · have hnone := reanchor_nothing hnothing
      rw [(hiff why).mpr hrefused] at hnone
      cases hnone

end

/-! ### A full file that starts with another line -/

theorem bytesOf_replicate (n : ℕ) :
    bytesOf (String.ofList (List.replicate n 'x')) = List.replicate n 120 := by
  rw [bytesOf_eq, String.toList_ofList]
  induction n with
  | zero => rfl
  | succ n ih =>
      rw [replicate_succ, flatMap_cons, ih, replicate_succ]
      rfl

/-- A line of `n` letters. -/
def fillerLine (n : ℕ) : String := String.ofList (List.replicate n 'x')

/-- The sample reader and its digests, with the digest of the filler line. -/
def recordEnv : Env Fields where
  sha256 b := if MAX_BYTES ≤ b.length then
      0x0c77bc0a0795a93612d45256897456d0fcb24f151c44c150d07ecd03f4ef5168#256
    else sampleDigest b
  fromStr := sampleEnv.fromStr
  render f :=
    if f = SampleRecord.advanced.fields then SampleRecord.advanced.text else SampleRecord.event.text
  anchorAdvancedEvent _ _ := SampleRecord.advanced.fields

theorem render_recordEnv (f : Fields) : recordEnv.render f =
      sampleEnv.render (if f = SampleRecord.advanced.fields then .advanced else .event) := by
  by_cases h : f = SampleRecord.advanced.fields
  · rw [if_pos h]
    exact if_pos h
  · rw [if_neg h]
    exact if_neg h

theorem lineText_congr {seq : ℕ} {prev : String} {f : Fields} {rec' : SampleRecord}
    (h : recordEnv.render f = sampleEnv.render rec') :
    lineText recordEnv seq prev f = lineText sampleEnv seq prev rec' := by
  unfold lineText
  rw [h]

theorem fromStr_recordEnv : recordEnv.fromStr = sampleEnv.fromStr := rfl

theorem readsBack_recordEnv : ReadsBack recordEnv := by
  constructor
  · intro seq prev f hpos hmax hprev
    rw [fromStr_recordEnv, lineText_congr (render_recordEnv f)]
    exact readsBack_sampleEnv.line seq prev _ hpos hmax hprev
  · rw [fromStr_recordEnv]
    exact readsBack_sampleEnv.anchor
  · intro f
    rw [render_recordEnv]
    exact readsBack_sampleEnv.single _

theorem lineText_recordEnv : lineText recordEnv 1 GENESIS SampleRecord.event.fields = sampleLine := by
  have hne : SampleRecord.event.fields ≠ SampleRecord.advanced.fields := by decide
  have hrender := render_recordEnv SampleRecord.event.fields
  rw [if_neg hne] at hrender
  exact lineText_congr hrender

theorem parseLine_filler (n : ℕ) : parseLine recordEnv (fillerLine (n + 1)) = .error notAChainLine := by
  have hread : recordEnv.fromStr (fillerLine (n + 1)) = none := by
    change (readLine (fillerLine (n + 1)).toList).or _ = none
    rw [fillerLine, String.toList_ofList, replicate_succ]
    rfl
  rw [parseLine, hread]

/-- A chain of one line and its anchor; the line follows a filler of `n` letters
in its file. -/
def filledDir (n : ℕ) : Dir where
  active := some (content newline [bytesOf (fillerLine n), bytesOf sampleLine])
  anchor := some (bytesOf (anchorText 1 (hashLine sampleEnv sampleLine) ++ "\n"))

theorem newline_not_mem_filler (n : ℕ) : newline ∉ bytesOf (fillerLine n) := by
  rw [fillerLine, bytesOf_replicate]
  intro h
  exact absurd (eq_of_mem_replicate h) (by decide)

theorem stripCr_filler (n : ℕ) : stripCr (bytesOf (fillerLine n)) = bytesOf (fillerLine n) := by
  rw [fillerLine, bytesOf_replicate, stripCr, if_neg]
  rw [List.getLast?_replicate]
  split <;> decide

theorem terminated_filledDir (n : ℕ) :
    ∀ raw ∈ [bytesOf (fillerLine n), bytesOf sampleLine], newline ∉ raw := by
  intro raw hraw
  simp only [mem_cons, not_mem_nil, or_false] at hraw
  rcases hraw with rfl | rfl
  · exact newline_not_mem_filler n
  · exact newline_not_mem_lineText readsBack_sampleEnv 1 .event hex64_genesis

theorem chainLines_filledDir (n : ℕ) :
    chainLines (filledDir n) = [bytesOf (fillerLine n), bytesOf sampleLine] := by
  have hlines := completeLines_content (terminated_filledDir n) not_mem_nil
  rw [append_nil] at hlines
  change completeLines (content newline _) ++ [] = _
  rw [hlines, append_nil, map_cons, map_cons, stripCr_filler, sampleLine, stripCr_lineText]
  rfl

theorem newestTail_filledDir (n : ℕ) : newestTail recordEnv (chainLines (filledDir n)) =
      some ⟨1, hashLine sampleEnv sampleLine, GENESIS⟩ := by
  have hparse : parseLine recordEnv sampleLine = .ok ⟨1, GENESIS⟩ := by
    rw [← lineText_recordEnv]
    exact readsBack_recordEnv.parseLine _ (by decide) (by decide) hex64_genesis
  have hhash : hashBytes recordEnv (bytesOf sampleLine) = hashLine sampleEnv sampleLine := by
    decide +kernel
  have hlast : ∀ as : List Bytes, newestTail recordEnv (as ++ [bytesOf sampleLine]) =
      readTail recordEnv (bytesOf sampleLine) := fun as => newestTail_append (by simp)
  rw [chainLines_filledDir]
  refine (hlast [_]).trans ?_
  rw [readTail, parseRaw, fromUtf8_bytesOf, Option.bind_some, hparse, hhash]
  rfl

theorem verdict_filledDir (n : ℕ) :
    verdict recordEnv (filledDir n) ⟨1, hashLine sampleEnv sampleLine, GENESIS⟩
      (readAnchor recordEnv (filledDir n)) = .agree := by
  have hread := readsBack_recordEnv.anchor 1 (hashLine sampleEnv sampleLine) (by decide) (by decide)
    (hex64_hashLine sampleLine)
  have hanchor : readAnchor recordEnv (filledDir n) = .at 1 (hashLine sampleEnv sampleLine) := by
    have hbytes : (filledDir n).anchor =
        some (bytesOf (anchorText 1 (hashLine sampleEnv sampleLine) ++ "\n")) := rfl
    unfold readAnchor
    rw [hbytes]
    simp only [fromUtf8_bytesOf, Option.bind_some, hread]
    simp [Json.get, lookup_cons, chainSeq, MAX_SEQ, hex64_hashLine]
  rw [hanchor]
  simp [verdict, judge]

theorem stalled_filledDir {n : ℕ} (hn : MAX_BYTES ≤ n) : Stalled recordEnv (filledDir n) := by
  obtain ⟨m, rfl⟩ : ∃ m, n = m + 1 := ⟨n - 1, by simp only [MAX_BYTES] at hn; omega⟩
  refine ⟨_, newestTail_filledDir _, ?_, .inl ⟨by decide, ?_⟩⟩
  · rw [verdict_filledDir]
    nofun
  have hbody : ((filledDir (m + 1)).active.map complete).getD [] =
      content newline [bytesOf (fillerLine (m + 1)), bytesOf sampleLine] := by
    have := complete_content [bytesOf (fillerLine (m + 1)), bytesOf sampleLine] not_mem_nil
    rw [append_nil] at this
    exact this
  rw [hbody]
  have hfirst : firstLine (content newline [bytesOf (fillerLine (m + 1)), bytesOf sampleLine]) =
      some (fillerLine (m + 1)) := by
    rw [firstLine, takeWhile_content _ (newline_not_mem_filler _), stripCr_filler, fromUtf8_bytesOf]
  refine ⟨by rw [content_cons]; simp, ?_, ?_, _, _, hfirst, parseLine_filler m⟩
  · rw [content_cons, length_append, fillerLine, bytesOf_replicate, length_replicate]
    omega
  · apply decodes_content
    intro raw hraw
    simp only [mem_cons, not_mem_nil, or_false] at hraw
    rcases hraw with rfl | rfl
    · exact decodes_bytesOf _
    · exact decodes_bytesOf _

/-- The sample chain, one line and its anchor. -/
theorem inspection_agrees_on_sampleDir : ReadsBack recordEnv ∧ (sampleDir.archive.map Prod.fst).Nodup ∧
      Agrees recordEnv sampleDir SampleRecord.event.fields := by
  refine ⟨readsBack_recordEnv, by decide, (inspection_agrees_iff recordEnv readsBack_recordEnv
    sampleDir (by decide) SampleRecord.event.fields).mpr ?_⟩
  have hverdict : (inspect recordEnv sampleDir).verdict = .agree := by decide +kernel
  rintro ⟨t, ht, -, ⟨-, -, hfull, -⟩ | ⟨hadvance, -⟩⟩
  · exact absurd hfull (by decide)
  · rw [inspect_verdict (by decide), ht] at hverdict
    simp only at hverdict
    rw [hverdict] at hadvance
    cases hadvance

/-- A chain line and its anchor behind a first line of 8 MiB that is not a chain
line: the inspection finds nothing, and no writer appends. -/
theorem inspection_of_a_full_file_disagrees :
    ¬Agrees recordEnv (filledDir MAX_BYTES) SampleRecord.event.fields := by
  intro h
  have hnames : ((filledDir MAX_BYTES).archive.map Prod.fst).Nodup := nodup_nil
  have hrefused := (h.refuses .tailMalformed).mpr
    ((refuses_iff readsBack_recordEnv hnames SampleRecord.event.fields .tailMalformed).mpr
      (.inr ⟨stalled_filledDir (Nat.le_refl _), rfl⟩))
  have hnone : (inspect recordEnv (filledDir MAX_BYTES)).disagreement = none := by
    rw [disagreement_eq_none hnames (newestTail_filledDir _), verdict_filledDir]
    nofun
  rw [hnone] at hrefused
  cases hrefused

end Plur1bus.Audit
