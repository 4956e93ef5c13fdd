import Plur1bus.Audit.Standing

/-!
What each step of a writer does to a sound directory, finished or cut off by a
crash. A step that finishes leaves the chain grown by the lines it wrote, with
no fragment; one that is cut off leaves it grown by the lines it had written,
perhaps with a fragment, and the anchor where it was.
-/

namespace Plur1bus.Audit

open Program Lines Prog List

/-- The lines fsynced so far. -/
def synced (log : List Effect) : List String := log.filterMap fun
    | .line text => some text
    | _ => none

/-- From `w` to `w'` the lines `more` were written, and the anchor was left
alone. -/
structure Extends (w w' : World Dir Effect) (more : List String) : Prop where
  left : w'.left = none ↔ w.left = none
  synced : synced w'.log = synced w.log ++ more
  moved : Effect.anchor ∈ w'.log ↔ Effect.anchor ∈ w.log
  anchor : w'.disk.anchor = w.disk.anchor

namespace Extends

variable {w w' w'' : World Dir Effect} {more more' : List String}

theorem refl (w : World Dir Effect) : Extends w w [] := ⟨Iff.rfl, by simp, Iff.rfl, rfl⟩

theorem trans (h : Extends w w' more) (h' : Extends w' w'' more') : Extends w w'' (more ++ more') where
  left := h'.left.trans h.left
  synced := by rw [h'.synced, h.synced, append_assoc]
  moved := h'.moved.trans h.moved
  anchor := h'.anchor.trans h.anchor

theorem trans_nil (h : Extends w w' []) (h' : Extends w' w'' more) : Extends w w'' more := h.trans h'

/-- An effect other than a line or the anchor. -/
theorem after (w : World Dir Effect) {e : Effect} {whole : Dir → Dir}
    (hline : Audit.synced [e] = []) (hanchor : e ≠ .anchor)
    (hwhole : (whole w.disk).anchor = w.disk.anchor) : Extends w (w.after e whole) [] where
  left := by simp [World.after]
  synced := by
    change Audit.synced (w.log ++ [e]) = _
    unfold Audit.synced at hline ⊢
    rw [filterMap_append, hline]
  moved := by
    change Effect.anchor ∈ w.log ++ [e] ↔ _
    simp [hanchor.symm]
  anchor := hwhole

/-- A crash: only the disk has changed. -/
theorem disk (w : World Dir Effect) {d : Dir} (h : d.anchor = w.disk.anchor) :
    Extends w { w with disk := d } [] := ⟨Iff.rfl, by simp, Iff.rfl, h⟩

end Extends

section

variable {R : Type} {env : Env R}

/-- The chain of the directory is `lines`, without a fragment. -/
def Intact (env : Env R) (d : Dir) (lines : List String) : Prop :=
  ∃ x : Layout, x.frag = [] ∧ Lies env d x lines

/-- The anchor remembers the last of the lines. -/
def Anchored (env : Env R) (d : Dir) (lines : List String) : Prop :=
  readAnchor env d = .at lines.length (tailOf env lines).hash

/-- The run was cut off, and left the chain grown by what it had written, at
most `k` lines. -/
def Cut (env : Env R) (lines : List String) (k : ℕ) (w : World Dir Effect) (e : Stop Failure)
    (w' : World Dir Effect) : Prop :=
  e = .crash ∧ w.left ≠ none ∧
    ∃ x more, more.length ≤ k ∧ Lies env w'.disk x (lines ++ more) ∧ Extends w w' more

variable {lines : List String} {k : ℕ} {w w' w'' : World Dir Effect} {e : Stop Failure}

theorem Cut.after {more : List String} (h : Extends w w' more)
    (hcut : Cut env (lines ++ more) k w' e w'') : Cut env lines (more.length + k) w e w'' := by
  obtain ⟨rfl, hleft, x, more', hk, hlies, hext⟩ := hcut
  refine ⟨rfl, mt h.left.mpr hleft, x, more ++ more', ?_, ?_, h.trans hext⟩
  · rw [length_append]
    omega
  · rwa [append_assoc] at hlies

theorem Cut.after_nil (h : Extends w w' []) (hcut : Cut env lines k w' e w'') :
    Cut env lines k w e w'' := by
  obtain ⟨rfl, hleft, x, more, hk, hlies, hext⟩ := hcut
  exact ⟨rfl, mt h.left.mpr hleft, x, more, hk, hlies, h.trans_nil hext⟩

theorem Cut.mono {k' : ℕ} (hcut : Cut env lines k w e w') (hk : k ≤ k') : Cut env lines k' w e w' := by
  obtain ⟨he, hleft, x, more, hmore, hlies, hext⟩ := hcut
  exact ⟨he, hleft, x, more, hmore.trans hk, hlies, hext⟩

variable {x : Layout} {d : Dir}

/-- A crash that changed nothing of the chain but the end of its active file. -/
theorem Cut.here (hleft : w.left = some 0) (h : Lies env d x lines) (hanchor : d.anchor = w.disk.anchor) :
    Cut env lines 0 w .crash { w with disk := d } :=
  ⟨rfl, by simp [hleft], x, [], Nat.le_refl 0, by rwa [append_nil], .disk w hanchor⟩

/-! ### The newest line -/

variable {raws : List Bytes}

theorem setTornAside_of_content {p : ChainFile} : setTornAside p (content newline raws) = pure () := by
  have hend : afterLast newline (content newline raws ++ []) = (content newline raws).length :=
    afterLast_content raws (by simp)
  rw [append_nil] at hend
  simp [setTornAside, hend]

theorem wp_setTornAside {bytes : Bytes} (h : Lies env w.disk x lines)
    (hactive : w.disk.active = some bytes) : wp (setTornAside .active bytes)
      (fun _ w' => Lies env w'.disk { x with frag := [] } lines ∧ Extends w w' [])
      (Cut env lines 0 w) w := by
  have hbytes : bytes = content newline x.cur ++ x.frag := by
    have := h.active
    rwa [hactive] at this
  subst hbytes
  by_cases hfrag : x.frag = []
  · rw [hfrag, append_nil, setTornAside_of_content, wp_pure]
    refine ⟨?_, .refl w⟩
    have := h
    rw [← hfrag]
    exact this
  have hend := afterLast_content x.cur h.fragment
  have hlt : (content newline x.cur).length < (content newline x.cur ++ x.frag).length := by
    have := length_pos_of_ne_nil hfrag
    rw [length_append]
    omega
  unfold setTornAside
  simp only [hend, if_pos hlt]
  rw [wp_bind, wp_effect]
  refine ⟨fun hleft => Cut.here hleft (h.congr rfl rfl) rfl, fun _ => ?_⟩
  rw [wp_effect]
  refine ⟨fun hleft => ?_, fun _ => ⟨?_, ?_⟩⟩
  · exact Cut.after_nil (.after w rfl (by simp) rfl) (Cut.here hleft (h.congr rfl rfl) rfl)
  · refine h.refrag rfl ?_ (by simp)
    change (content newline x.cur ++ x.frag).take _ = _
    rw [take_left, append_nil]
  · exact (Extends.after w rfl (by simp) rfl).trans_nil (.after _ rfl (by simp) rfl)

/-- Before the last newline of a file stand the other lines and the last one. -/
theorem take_pred_afterLast (init : List Bytes) (raw : Bytes) {frag : Bytes}
    (h : newline ∉ frag) :
    (content newline (init ++ [raw]) ++ frag).take
        (afterLast newline (content newline (init ++ [raw]) ++ frag) - 1) =
      content newline init ++ raw := by
  have hlen : (content newline (init ++ [raw])).length - 1 = (content newline init ++ raw).length := by
    rw [content_snoc, length_append, length_singleton]
    omega
  rw [afterLast_content _ h, hlen, content_snoc, append_assoc, take_left]

variable {raw : Bytes}

/-- The last raw line of the chain, read. -/
theorem Lies.last (h : Lies env d x lines) {init : List Bytes} (hraws : x.raws = init ++ [raw])
    (body : List Bytes) : lastLine env (content newline body ++ raw) = .ok (tailOf env lines) := by
  have hnl : newline ∉ raw := h.terminated raw (by rw [hraws]; simp)
  have hlast := congrArg List.getLast? h.reads
  rw [hraws, map_append, map_singleton, List.getLast?_append_of_ne_nil _ (by simp),
    List.getLast?_singleton, List.getLast?_map] at hlast
  obtain ⟨line, hline, hread⟩ := Option.map_eq_some_iff.mp hlast.symm
  obtain ⟨p, hp⟩ := h.parses line (mem_of_getLast? hline)
  unfold lastLine tailOf
  simp only [drop_afterLast body hnl, ← hread, hp, hline, seqOf, prevOf]

theorem wp_tailFrom_rotated (h : Lies env w.disk x lines) (hcur : x.cur = []) :
    wp (tailFrom env (x.old.map (fun f => ChainFile.rotated f.1)).reverse)
      (fun t w' => t = tailOf env lines ∧ w' = w) (fun _ _ => False) w := by
  rcases eq_nil_or_concat x.old with hold | ⟨files, f, hold⟩
  · have hlines : lines = [] := by
      have := h.length_eq
      rw [hold, hcur] at this
      exact length_eq_zero_iff.mp this.symm
    rw [hold, hlines]
    exact ⟨rfl, rfl⟩
  rw [concat_eq_append] at hold
  have hf : f ∈ x.old := by rw [hold]; simp
  -- the newest rotated file has a line
  obtain ⟨init, raw, hraw⟩ : ∃ init raw, f.2 = init ++ [raw] := by
    rcases eq_nil_or_concat f.2 with hnil | ⟨init, raw, hraw⟩
    · have hne : ∀ {n : ℕ} {old : List (ℕ × List Bytes)}, Named n old → ∀ g ∈ old, g.2 ≠ [] := by
        intro n old hnamed
        induction old generalizing n with
        | nil => simp
        | cons g old ih =>
            intro g' hg'
            rcases mem_cons.mp hg' with rfl | hg'
            · exact hnamed.2.1
            · exact ih hnamed.2.2 g' hg'
      exact absurd hnil (hne h.named f hf)
    · exact ⟨init, raw, by rw [hraw, concat_eq_append]⟩
  have hraws : x.raws = (files.flatMap Prod.snd ++ init) ++ [raw] := by
    rw [Layout.raws, hold, hcur]
    simp [hraw]
  have hread := h.read_rotated hf
  have hend : afterLast newline (content newline f.2 ++ []) = (content newline f.2).length :=
    afterLast_content f.2 (by simp)
  have htake : (content newline (init ++ [raw]) ++ []).take
      (afterLast newline (content newline (init ++ [raw]) ++ []) - 1) =
        content newline init ++ raw := take_pred_afterLast init raw (by simp)
  rw [append_nil, ← hraw] at htake
  rw [append_nil] at hend
  have hpos : afterLast newline (content newline f.2) ≠ 0 := by
    rw [hend, hraw, content_snoc]
    simp
  rw [hold, map_append, reverse_append]
  change wp (tailFrom env (ChainFile.rotated f.1 :: _)) _ _ w
  rw [tailFrom, wp_bind, wp_gets, hread]
  simp only [setTornAside_of_content, wp_bind, wp_pure, if_neg hpos, htake, h.last hraws]
  exact ⟨rfl, rfl⟩

theorem wp_tail (h : Lies env w.disk x lines) : wp (tail env)
      (fun t w' => t = tailOf env lines ∧ Intact env w'.disk lines ∧ Extends w w' [])
      (Cut env lines 0 w) w := by
  unfold tail
  rw [wp_bind, wp_gets, h.chainFiles, reverse_append]
  change wp (tailFrom env (ChainFile.active :: _)) _ _ w
  rw [tailFrom, wp_bind, wp_gets]
  have hrest : ∀ {w' : World Dir Effect} {y : Layout}, y.frag = [] → y.cur = [] → y.old = x.old →
      Lies env w'.disk y lines → Extends w w' [] →
      wp (tailFrom env (x.old.map (fun f => ChainFile.rotated f.1)).reverse)
        (fun t w' => t = tailOf env lines ∧ Intact env w'.disk lines ∧ Extends w w' [])
        (Cut env lines 0 w) w' := by
    intro w' y hfrag hcur hold hlies hext
    rw [← hold]
    refine wp_mono (wp_tailFrom_rotated hlies hcur) ?_ (fun _ _ hfalse => hfalse.elim)
    rintro t w'' ⟨rfl, rfl⟩
    exact ⟨rfl, ⟨y, hfrag, hlies⟩, hext⟩
  cases hactive : w.disk.active with
  | none =>
      have hempty : content newline x.cur ++ x.frag = [] := by
        rw [← h.active, hactive]
        rfl
      obtain ⟨hcur, hfrag⟩ := append_eq_nil_iff.mp hempty
      have hcur : x.cur = [] := by
        cases hx : x.cur with
        | nil => rfl
        | cons raw rest =>
            rw [hx, content_cons] at hcur
            simp at hcur
      simp only [Dir.read, hactive]
      exact hrest hfrag hcur rfl h (.refl w)
  | some bytes =>
      have hbytes : bytes = content newline x.cur ++ x.frag := by
        rw [← h.active, hactive]
        rfl
      simp only [Dir.read, hactive]
      rw [wp_bind]
      refine wp_mono (wp_setTornAside h hactive) ?_ (fun _ _ hcut => hcut)
      rintro - w' ⟨hlies, hext⟩
      rcases eq_nil_or_concat x.cur with hcur | ⟨init, raw, hcur⟩
      · have hend : afterLast newline bytes = 0 := by
          rw [hbytes, afterLast_content _ h.fragment, hcur]
          rfl
        rw [if_pos hend]
        exact @hrest w' { x with frag := [] } rfl hcur rfl hlies hext
      · rw [concat_eq_append] at hcur
        have hend : afterLast newline bytes ≠ 0 := by
          rw [hbytes, afterLast_content _ h.fragment, hcur, content_snoc]
          simp
        have hraws : x.raws = (x.old.flatMap Prod.snd ++ init) ++ [raw] := by
          rw [Layout.raws, hcur, append_assoc]
        have htake : bytes.take (afterLast newline bytes - 1) = content newline init ++ raw := by
          rw [hbytes, hcur]
          exact take_pred_afterLast init raw h.fragment
        rw [if_neg hend, htake, h.last hraws]
        exact ⟨rfl, ⟨_, rfl, hlies⟩, hext⟩

/-! ### Rotation -/

theorem Decodes.of_stripCr (h : Decodes (stripCr raw)) : Decodes raw := by
  unfold stripCr at h
  split at h
  · rename_i hlast
    rw [← dropLast_append_getLast? _ hlast]
    exact h.append (decodes_bytesOf "\r")
  · exact h

theorem decodes_content (h : ∀ raw ∈ raws, Decodes raw) : Decodes (content newline raws) := by
  induction raws with
  | nil => exact decodes_bytesOf ""
  | cons raw raws ih =>
      rw [content_cons]
      have hrest := ih fun r hr => h r (mem_cons_of_mem _ hr)
      exact (h raw (mem_cons_self ..)).append ((decodes_bytesOf "\n").append hrest)

section Rotation

variable {d : Dir} {x : Layout} {lines : List String}

variable {raw : Bytes}

theorem Lies.decodes (h : Lies env d x lines) (hraw : raw ∈ x.raws) : Decodes raw := by
  apply Decodes.of_stripCr
  rw [decodes_iff]
  have hmem : fromUtf8 (stripCr raw) ∈ lines.map some := by
    rw [← h.reads]
    exact mem_map.mpr ⟨raw, hraw, rfl⟩
  obtain ⟨line, -, hline⟩ := mem_map.mp hmem
  rw [← hline]
  rfl

/-- The first line of the active file has the number the file is renamed to. -/
theorem Lies.firstLine (h : Lies env d x lines) {rest : List Bytes} (hcur : x.cur = raw :: rest) :
    ∃ line p, firstLine (content newline x.cur) = some line ∧ parseLine env line = .ok p ∧
      p.seq = 1 + (x.old.flatMap Prod.snd).length := by
  have hlen := h.length_eq
  rw [hcur, length_cons] at hlen
  have hi : (x.old.flatMap Prod.snd).length < lines.length := by omega
  have hnl : newline ∉ raw := h.terminated raw (by simp [Layout.raws, hcur])
  have hread : fromUtf8 (stripCr raw) = some lines[(x.old.flatMap Prod.snd).length] := by
    have hget := congrArg (fun l => l[(x.old.flatMap Prod.snd).length]?) h.reads
    simp only [Layout.raws, hcur, map_append, map_cons] at hget
    rw [List.getElem?_append_right (by rw [length_map]), length_map, Nat.sub_self,
      List.getElem?_cons_zero, List.getElem?_map, List.getElem?_eq_getElem hi] at hget
    exact Option.some.inj hget
  obtain ⟨p, hp⟩ := h.parses _ (getElem_mem hi)
  refine ⟨_, p, ?_, hp, ?_⟩
  · rw [Audit.firstLine, hcur, takeWhile_content rest hnl, hread]
  · have := h.seqOf_getElem _ hi
    rw [seqOf, hp] at this
    simp only at this
    omega

theorem Lies.not_mem_archive (h : Lies env d x lines)
    (hroom : 1 + (x.old.flatMap Prod.snd).length < 10 ^ 10) :
    ∀ f ∈ d.archive, f.1 ≠ 1 + (x.old.flatMap Prod.snd).length := by
  intro f hf hname
  have hmem : f ∈ Audit.rotated d := by
    rw [Audit.rotated, mem_insertionSort, mem_filter]
    exact ⟨hf, by rw [hname]; exact decide_eq_true hroom⟩
  rw [h.rotated] at hmem
  obtain ⟨g, hg, rfl⟩ := mem_map.mp hmem
  have := (h.named.bounds g hg).2
  simp only at hname
  omega

/-- The active file under its new name. -/
theorem Lies.rotate (h : Lies env d x lines) (hcur : x.cur ≠ [])
    (hroom : 1 + (x.old.flatMap Prod.snd).length < 10 ^ 10) {d' : Dir}
    (harchive : d'.archive = d.archive ++ [(1 + (x.old.flatMap Prod.snd).length, content newline x.cur)])
    (hactive : d'.active = none) :
    Lies env d' ⟨x.old ++ [(1 + (x.old.flatMap Prod.snd).length, x.cur)], [], []⟩ lines where
  distinct := by
    rw [harchive, map_append, map_singleton, nodup_append]
    refine ⟨h.distinct, by simp, ?_⟩
    intro n hn m hm
    obtain ⟨f, hf, rfl⟩ := mem_map.mp hn
    rw [mem_singleton.mp hm]
    exact h.not_mem_archive hroom f hf
  rotated := by
    have hlt : ∀ f ∈ d.archive.filter (fun f => decide (f.1 < 10 ^ 10)),
        f.1 ≤ 1 + (x.old.flatMap Prod.snd).length := by
      intro f hf
      have hmem : f ∈ Audit.rotated d := by
        rw [Audit.rotated, mem_insertionSort]
        exact hf
      rw [h.rotated] at hmem
      obtain ⟨g, hg, rfl⟩ := mem_map.mp hmem
      have := (h.named.bounds g hg).2
      simp only
      omega
    rw [Audit.rotated, harchive, filter_append, filter_cons_of_pos (by simpa using hroom), filter_nil,
      insertionSort_snoc hlt]
    have := h.rotated
    rw [Audit.rotated] at this
    rw [this, map_append]
    rfl
  active := by rw [hactive]; rfl
  named := h.named.snoc hcur
  terminated := by
    intro raw hraw
    apply h.terminated
    simpa [Layout.raws] using hraw
  fragment := by simp
  reads := by
    rw [← h.reads]
    simp [Layout.raws]
  parses := h.parses
  linked := h.linked

end Rotation

theorem wp_rotate (h : Intact env w.disk lines) (hroom : lines.length < 10 ^ 10) :
    wp (rotate env) (fun _ w' => Intact env w'.disk lines ∧ Extends w w' [])
      (Cut env lines 0 w) w := by
  obtain ⟨x, hfrag, hlies⟩ := h
  unfold rotate
  rw [wp_bind, wp_gets]
  cases hactive : w.disk.active with
  | none => exact ⟨⟨x, hfrag, hlies⟩, .refl w⟩
  | some bytes =>
      have hbytes : bytes = content newline x.cur := by
        have := hlies.active
        rwa [hactive, hfrag, append_nil] at this
      simp only
      by_cases hfull : bytes.length < MAX_BYTES
      · rw [if_pos hfull]
        exact ⟨⟨x, hfrag, hlies⟩, .refl w⟩
      rw [if_neg hfull]
      obtain ⟨raw, rest, hcur⟩ : ∃ raw rest, x.cur = raw :: rest := by
        cases hx : x.cur with
        | nil =>
            rw [hbytes, hx] at hfull
            exact absurd (by decide) hfull
        | cons raw rest => exact ⟨raw, rest, rfl⟩
      obtain ⟨line, p, hfirst, hparse, hseq⟩ := hlies.firstLine hcur
      have hlen := hlies.length_eq
      rw [hcur, length_cons] at hlen
      have hname : 1 + (x.old.flatMap Prod.snd).length < 10 ^ 10 := by omega
      have htext : ∃ text, fromUtf8 bytes = some text := by
        apply Option.isSome_iff_exists.mp
        rw [← decodes_iff, hbytes]
        exact decodes_content fun r hr => hlies.decodes (mem_append_right _ hr)
      obtain ⟨text, htext⟩ := htext
      have hfree : (w.disk.archive.lookup p.seq).isSome = false := by
        rw [Option.isSome_eq_false_iff, Option.isNone_iff_eq_none, lookup_eq_none_iff]
        intro f hf
        rw [hseq]
        exact bne_iff_ne.mpr (hlies.not_mem_archive hname f hf).symm
      rw [htext, hbytes, hfirst]
      simp only [hparse, raiseError, wp_bind, wp_pure, wp_gets, hfree, Bool.false_eq_true, if_false]
      rw [wp_effect]
      refine ⟨fun hleft => Cut.here hleft (hlies.congr rfl rfl) rfl, fun _ => ⟨?_, ?_⟩⟩
      · refine ⟨_, rfl, hlies.rotate (by simp [hcur]) hname ?_ rfl⟩
        rw [← hseq]
        rfl
      · exact .after w rfl (by simp) rfl

/-! ### Lines and anchors -/

theorem tailOf_snoc (lines : List String) (line : String) :
    tailOf env (lines ++ [line]) = ⟨seqOf env line, hashLine env line, prevOf env line⟩ := by
  simp [tailOf]

theorem hex64_tailOf (env : Env R) (lines : List String) : hex64 (tailOf env lines).hash = true := by
  unfold tailOf
  split
  · exact hex64_genesis
  · exact hex64_hashLine _

theorem lastOwn_links (lines : List String) :
    lastOwn (links env) GENESIS lines = (tailOf env lines).hash := by
  unfold lastOwn tailOf
  cases lines.getLast? with
  | none => rfl
  | some l => rfl

/-- The line of a record after the last of `lines`. -/
def nextLine (env : Env R) (lines : List String) (rec' : R) : String :=
  lineText env (lines.length + 1) (tailOf env lines).hash rec'

section Next

variable (hserde : ReadsBack env) (lines : List String) (rec' : R)

include hserde

theorem parseLine_nextLine (hmax : lines.length + 1 ≤ MAX_SEQ) : parseLine env (nextLine env lines rec') =
      .ok ⟨lines.length + 1, (tailOf env lines).hash⟩ :=
  hserde.parseLine rec' (Nat.succ_pos _) hmax (hex64_tailOf env lines)

theorem newline_not_mem_nextLine : newline ∉ bytesOf (nextLine env lines rec') :=
  newline_not_mem_lineText hserde _ rec' (hex64_tailOf env lines)

theorem tailOf_nextLine (hmax : lines.length + 1 ≤ MAX_SEQ) :
    tailOf env (lines ++ [nextLine env lines rec']) =
      ⟨lines.length + 1, hashLine env (nextLine env lines rec'), (tailOf env lines).hash⟩ := by
  simp only [tailOf_snoc, seqOf, prevOf, parseLine_nextLine hserde lines rec' hmax]

end Next

/-- A line written after the last one continues the chain. -/
theorem Lies.write (hserde : ReadsBack env) (h : Lies env d x lines) (rec' : R)
    (hmax : lines.length + 1 ≤ MAX_SEQ) {d' : Dir} (harchive : d'.archive = d.archive)
    (hactive : d'.active = some (content newline (x.cur ++ [bytesOf (nextLine env lines rec')]))) :
    Lies env d' ⟨x.old, x.cur ++ [bytesOf (nextLine env lines rec')], []⟩
      (lines ++ [nextLine env lines rec']) := by
  have hparse := parseLine_nextLine hserde lines rec' hmax
  have hraws : Layout.raws ⟨x.old, x.cur ++ [bytesOf (nextLine env lines rec')], []⟩ =
      x.raws ++ [bytesOf (nextLine env lines rec')] := (append_assoc ..).symm
  constructor
  · rw [harchive]
    exact h.distinct
  · rw [Audit.rotated, harchive]
    exact h.rotated
  · rw [hactive, append_nil]
    rfl
  · exact h.named
  · intro raw hmem
    rw [hraws, mem_append] at hmem
    rcases hmem with hmem | hmem
    · exact h.terminated raw hmem
    · rw [mem_singleton.mp hmem]
      exact newline_not_mem_nextLine hserde lines rec'
  · simp
  · have hraw : fromUtf8 (stripCr (bytesOf (nextLine env lines rec'))) =
        some (nextLine env lines rec') := by
      rw [nextLine, stripCr_lineText, fromUtf8_bytesOf]
    rw [hraws, map_append, h.reads, map_append]
    simp only [map_cons, map_nil, hraw]
  · intro l hl
    rcases mem_append.mp hl with hl | hl
    · exact h.parses l hl
    · rw [mem_singleton.mp hl]
      exact ⟨_, hparse⟩
  · refine h.linked.snoc ?_ ?_ rfl
    · simp only [links, seqOf, hparse]
      omega
    · rw [lastOwn_links]
      simp only [links, prevOf, hparse]

theorem Extends.line (w : World Dir Effect) {text : String} {whole : Dir → Dir}
    (hwhole : (whole w.disk).anchor = w.disk.anchor) :
    Extends w (w.after (.line text) whole) [text] where
  left := by simp [World.after]
  synced := by
    change Audit.synced (w.log ++ [.line text]) = _
    unfold Audit.synced
    rw [filterMap_append]
    rfl
  moved := by
    change Effect.anchor ∈ w.log ++ [.line text] ↔ _
    simp
  anchor := hwhole

theorem wp_writeLineUnanchored (hserde : ReadsBack env) (h : Intact env w.disk lines)
    (hroom : lines.length + 1 < 10 ^ 10) (rec' : R) :
    wp (writeLineUnanchored env (tailOf env lines) rec')
      (fun t w' => ∃ line, t = tailOf env (lines ++ [line]) ∧
        Intact env w'.disk (lines ++ [line]) ∧ Extends w w' [line])
      (Cut env lines 0 w) w := by
  have hmax : lines.length + 1 ≤ MAX_SEQ := by
    simp only [MAX_SEQ]
    omega
  have htail : (tailOf env lines).seq = lines.length := by
    obtain ⟨x, -, hlies⟩ := h
    exact hlies.tailOf_seq
  unfold writeLineUnanchored
  rw [if_neg (by rw [htail]; omega), wp_bind]
  refine wp_mono (wp_rotate h (by omega)) ?_ (fun _ _ hcut => hcut)
  rintro - w₁ ⟨⟨x, hfrag, hlies⟩, hext⟩
  simp only [htail]
  change wp (effect Effect.create _ _ >>= fun _ =>
    effect (Effect.line (nextLine env lines rec')) _ _ >>= _) _ _ _
  have hactive : w₁.disk.active.getD [] = content newline x.cur := by
    rw [hlies.active, hfrag, append_nil]
  rw [wp_bind, wp_effect]
  refine ⟨fun hleft => Cut.after_nil hext (Cut.here hleft (hlies.congr rfl rfl) rfl), fun _ => ?_⟩
  have hcreate : Extends w (w₁.after .create fun d => { d with active := some (d.active.getD []) })
      [] := hext.trans_nil (.after w₁ rfl (by simp) rfl)
  rw [wp_bind, wp_effect]
  constructor
  · -- the write is cut off inside the line
    intro hleft
    have hcut : ∀ n, Lies env { w₁.disk with
        active := some (w₁.disk.active.getD [] ++ (bytesOf (nextLine env lines rec')).take n) }
        { x with frag := (bytesOf (nextLine env lines rec')).take n } lines := by
      intro n
      refine hlies.refrag rfl ?_ ?_
      · rw [← hactive]
        rfl
      · intro hmem
        exact newline_not_mem_nextLine hserde lines rec' (mem_of_mem_take hmem)
    exact Cut.after_nil hcreate (Cut.here hleft (hcut _) rfl)
  · intro _
    rw [wp_pure]
    refine ⟨nextLine env lines rec', ?_, ⟨_, rfl, hlies.write hserde rec' hmax rfl ?_⟩, ?_⟩
    · rw [tailOf_nextLine hserde lines rec' hmax]
      rfl
    · change some (w₁.disk.active.getD [] ++ _ ++ _) = _
      rw [hactive, content_snoc]
      rfl
    · exact hcreate.trans_nil (.line _ rfl)

/-- From `w` to `w'` the anchor was moved. -/
structure Moved (w w' : World Dir Effect) : Prop where
  left : w'.left = none ↔ w.left = none
  synced : synced w'.log = synced w.log
  moved : Effect.anchor ∈ w'.log

theorem wp_writeAnchor (hserde : ReadsBack env) (h : Intact env w.disk lines) (hne : lines ≠ [])
    (hmax : lines.length ≤ MAX_SEQ) : wp (writeAnchor (tailOf env lines).seq (tailOf env lines).hash)
      (fun _ w' => Intact env w'.disk lines ∧ Anchored env w'.disk lines ∧ Moved w w')
      (Cut env lines 0 w) w := by
  obtain ⟨x, hfrag, hlies⟩ := h
  have hpos : 0 < lines.length := length_pos_of_ne_nil hne
  unfold writeAnchor
  rw [hlies.tailOf_seq, wp_bind, wp_effect]
  refine ⟨fun hleft => Cut.here hleft (hlies.congr rfl rfl) rfl, fun _ => ?_⟩
  have hcreate : Extends w (w.after .createTmp fun d => { d with anchorTmp := some [] }) [] :=
    .after w rfl (by simp) rfl
  rw [wp_bind, wp_effect]
  refine ⟨fun hleft => Cut.after_nil hcreate (Cut.here hleft (hlies.congr rfl rfl) rfl), fun _ => ?_⟩
  rw [wp_effect]
  refine ⟨fun hleft => ?_, fun _ => ⟨⟨x, hfrag, hlies.congr rfl rfl⟩, ?_, ?_⟩⟩
  · exact Cut.after_nil (hcreate.trans_nil (.after _ rfl (by simp) rfl))
      (Cut.here hleft (hlies.congr rfl rfl) rfl)
  · have hread := hserde.anchor _ _ hpos hmax (hex64_tailOf env lines)
    simp [Anchored, readAnchor, World.after, fromUtf8_bytesOf, hread, Json.get, lookup_cons,
      chainSeq_num hpos hmax, hex64_tailOf]
  · constructor
    · simp [World.after]
    · simp [World.after, synced]
    · simp [World.after]

end

end Plur1bus.Audit
