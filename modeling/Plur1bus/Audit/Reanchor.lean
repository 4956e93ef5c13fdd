import Plur1bus.Audit.Repair

/-!
What `reanchor` leaves when one of its steps fails. `SetAside` says which old
files stand under their names for `ms`; a rename adds one, a rename back takes
one away, and the new chain's files are the only other change. So a repair that
fails puts every file back, unless the failing step comes after the anchor's
temporary file was created: that file is not among those removed.
-/

namespace Plur1bus.Audit

open Program Lines Prog List Option

/-! ### Reading a changed directory -/

theorem lookup_filter_ne {κ ν : Type} [BEq κ] [LawfulBEq κ] [DecidableEq κ] (l : List (κ × ν))
    (k j : κ) : (l.filter (fun f => !decide (f.1 = k))).lookup j = if j = k then none else l.lookup j := by
  induction l with
  | nil => simp
  | cons f l ih => grind

theorem lookup_snoc {κ ν : Type} [BEq κ] [LawfulBEq κ] [DecidableEq κ] (l : List (κ × ν))
    (k j : κ) (v : ν) : (l.filter (fun f => !decide (f.1 = k)) ++ [(k, v)]).lookup j =
      if j = k then some v else l.lookup j := by
  rw [List.lookup_append, lookup_filter_ne]
  by_cases hj : j = k
  · simp [hj]
  · simp [hj, lookup_cons, beq_false_of_ne hj]

namespace Dir

theorem readOld_dropOld (d : Dir) (f g : OldFile) :
    (d.dropOld f).readOld g = if g = f then none else d.readOld g := by
  rcases f with (n | _) | _ <;> rcases g with (m | _) | _ <;>
    simp [dropOld, readOld, read, lookup_filter_ne]

theorem readOld_putOld (d : Dir) (b : Bytes) (f g : OldFile) :
    (d.putOld b f).readOld g = if g = f then some b else d.readOld g := by
  rcases f with (n | _) | _ <;> rcases g with (m | _) | _ <;>
    simp [putOld, readOld, read, lookup_snoc]

@[simp] theorem aside_dropOld (d : Dir) (f : OldFile) : (d.dropOld f).aside = d.aside := by
  rcases f with (n | _) | _ <;> rfl

@[simp] theorem anchorTmp_dropOld (d : Dir) (f : OldFile) : (d.dropOld f).anchorTmp = d.anchorTmp := by
  rcases f with (n | _) | _ <;> rfl

@[simp] theorem evidence_dropOld (d : Dir) (f : OldFile) : (d.dropOld f).evidence = d.evidence := by
  rcases f with (n | _) | _ <;> rfl

@[simp] theorem anchorTmp_putOld (d : Dir) (b : Bytes) (f : OldFile) :
    (d.putOld b f).anchorTmp = d.anchorTmp := by
  rcases f with (n | _) | _ <;> rfl

@[simp] theorem evidence_putOld (d : Dir) (b : Bytes) (f : OldFile) :
    (d.putOld b f).evidence = d.evidence := by
  rcases f with (n | _) | _ <;> rfl

end Dir

/-! ### What is set aside -/

/-- From `d` to `d'` the files `done` were set aside for `ms`, and nothing else
changed but perhaps the anchor's temporary file. -/
structure SetAside (ms : ℕ) (done : List OldFile) (d d' : Dir) : Prop where
  old : ∀ f, d'.readOld f = if f ∈ done then none else d.readOld f
  aside : ∀ f m, d'.readAside m f = if f ∈ done ∧ m = ms then d.readOld f else d.readAside m f
  evidence : d'.evidence = d.evidence

namespace SetAside

variable {ms : ℕ} {done : List OldFile} {d d' : Dir} {f : OldFile}

theorem refl (ms : ℕ) (d : Dir) : SetAside ms [] d d := ⟨by simp, by simp, rfl⟩

theorem perm {done' : List OldFile} (h : SetAside ms done d d') (hmem : ∀ f, f ∈ done' ↔ f ∈ done) :
    SetAside ms done' d d' :=
  ⟨by simpa only [hmem] using h.old, by simpa only [hmem] using h.aside, h.evidence⟩

variable {b : Bytes}

theorem move (h : SetAside ms done d d') (hf : f ∉ done) (hb : d.readOld f = some b) :
    SetAside ms (f :: done) d (d'.moveAside ms f) := by
  have hread : d'.readOld f = some b := by rw [h.old, if_neg hf, hb]
  unfold Dir.moveAside
  rw [hread]
  refine ⟨fun g => ?_, fun g m => ?_, ?_⟩
  · change (d'.dropOld f).readOld g = _
    rw [Dir.readOld_dropOld, h.old]
    by_cases hg : g = f <;> simp [hg]
  · change (d'.aside.filter (fun a => a.1 ≠ (f, ms)) ++ [((f, ms), b)]).lookup (g, m) = _
    simp only [ne_eq, decide_not]
    have haside := h.aside g m
    unfold Dir.readAside at haside
    rw [lookup_snoc, haside]
    by_cases hg : g = f
    · subst hg
      by_cases hm : m = ms
      · simp [hm, hb]
      · simp [hm, hf]
        rfl
    · simp [hg]
      rfl
  · exact (d'.evidence_dropOld f).trans h.evidence

/-- Back under its name, if no other file stood under the name for `ms`. -/
theorem back (h : SetAside ms (f :: done) d d') (hf : f ∉ done) (hb : d.readOld f = some b)
    (hfree : d.readAside ms f = none) : SetAside ms done d (d'.moveBack ms f) := by
  have hread : d'.readAside ms f = some b := by rw [h.aside, if_pos (by simp), hb]
  unfold Dir.moveBack
  rw [hread]
  refine ⟨fun g => ?_, fun g m => ?_, ?_⟩
  · change (d'.putOld b f).readOld g = _
    rw [Dir.readOld_putOld, h.old]
    by_cases hg : g = f
    · subst hg
      simp [hf, hb]
    · simp [hg]
  · change (d'.aside.filter (fun a => a.1 ≠ (f, ms))).lookup (g, m) = _
    simp only [ne_eq, decide_not]
    have haside := h.aside g m
    unfold Dir.readAside at haside
    rw [lookup_filter_ne, haside]
    by_cases hg : g = f
    · subst hg
      by_cases hm : m = ms
      · subst hm
        simpa [hf] using hfree.symm
      · simp [hm]
        rfl
    · simp [hg]
      rfl
  · exact (d'.evidence_putOld b f).trans h.evidence

end SetAside

/-! ### The files of a directory -/

section Files

variable {d : Dir}

theorem mem_presentFiles_rotated {n : ℕ} :
    OldFile.chain (.rotated n) ∈ asideCandidates d ↔ ∃ b, (n, b) ∈ d.archive ∧ n < 10 ^ 10 := by
  simp [asideCandidates, presentFiles, rotated]

theorem active_mem_asideCandidates :
    OldFile.chain .active ∈ asideCandidates d ↔ d.active.isSome = true := by
  cases h : d.active <;> simp [asideCandidates, presentFiles, h]

theorem anchor_mem_asideCandidates : OldFile.anchor ∈ asideCandidates d ↔ d.anchor.isSome = true := by
  cases h : d.anchor <;> simp [asideCandidates, h]

theorem isSome_lookup_of_mem {l : List (ℕ × Bytes)} {n : ℕ} {b : Bytes} (h : (n, b) ∈ l) :
    ∃ b', l.lookup n = some b' := by
  cases hl : l.lookup n with
  | some b' => exact ⟨b', rfl⟩
  | none =>
      rw [lookup_eq_none_iff] at hl
      simpa using hl _ h

theorem exists_readOld {f : OldFile} (h : f ∈ asideCandidates d) : ∃ b, d.readOld f = some b := by
  rcases f with (n | _) | _
  · obtain ⟨b, hb, -⟩ := mem_presentFiles_rotated.mp h
    exact isSome_lookup_of_mem hb
  · exact isSome_iff_exists.mp (active_mem_asideCandidates.mp h)
  · exact isSome_iff_exists.mp (anchor_mem_asideCandidates.mp h)

theorem nodup_asideCandidates (h : (d.archive.map Prod.fst).Nodup) : (asideCandidates d).Nodup := by
  have hnames : ((rotated d).map Prod.fst).Nodup := by
    refine ((perm_insertionSort _ _).map Prod.fst).nodup_iff.mpr ?_
    exact h.sublist (filter_sublist.map Prod.fst)
  have hrotated : ((rotated d).map (fun f => OldFile.chain (.rotated f.1))).Nodup := by grind
  unfold asideCandidates presentFiles
  rw [map_append, List.map_map, List.map_map, nodup_append, nodup_append]
  refine ⟨⟨hrotated, ?_, ?_⟩, ?_, ?_⟩
  · cases d.active <;> simp
  · rintro a ha b hb rfl
    obtain ⟨f, -, rfl⟩ := mem_map.mp ha
    simp at hb
  · cases d.anchor <;> simp
  · rintro a ha b hb rfl
    obtain ⟨-, -, rfl⟩ := mem_map.mp hb
    simp at ha

/-- With every candidate set aside the chain is empty. -/
theorem SetAside.emptied {ms : ℕ} {d' : Dir} (h : SetAside ms (asideCandidates d) d d') :
    rotated d' = [] ∧ d'.active = none ∧ d'.anchor = none := by
  have hold : ∀ f, (f ∈ asideCandidates d ∨ d.readOld f = none) → d'.readOld f = none := by
    intro f hf
    rw [h.old]
    split
    · rfl
    · rename_i hmem
      exact hf.resolve_left hmem
  refine ⟨?_, ?_, ?_⟩
  · rw [eq_nil_iff_forall_not_mem]
    rintro ⟨n, b⟩ hmem
    rw [rotated, mem_insertionSort, mem_filter] at hmem
    obtain ⟨hmem, hn⟩ := hmem
    have hnone : d'.readOld (.chain (.rotated n)) = none := by
      apply hold
      cases hd : d.readOld (.chain (.rotated n)) with
      | none => exact .inr rfl
      | some b' =>
          refine .inl (mem_presentFiles_rotated.mpr ⟨b', ?_, of_decide_eq_true hn⟩)
          obtain ⟨l₁, l₂, hl, -⟩ := lookup_eq_some_iff.mp hd
          rw [hl]
          simp
    obtain ⟨b', hb'⟩ := isSome_lookup_of_mem hmem
    exact absurd (hb'.symm.trans hnone) (by simp)
  · apply hold (.chain .active)
    rw [active_mem_asideCandidates]
    change _ ∨ d.active = none
    cases d.active <;> simp
  · apply hold .anchor
    rw [anchor_mem_asideCandidates]
    change _ ∨ d.anchor = none
    cases d.anchor <;> simp

end Files

/-- From `w` to `w'` the anchor's temporary file was left alone. -/
structure SameTemp (w w' : World Dir Effect) : Prop where
  file : w'.disk.anchorTmp = w.disk.anchorTmp
  created : Effect.createTmp ∈ w'.log ↔ Effect.createTmp ∈ w.log

namespace SameTemp

variable {w w' w'' : World Dir Effect}

theorem refl (w : World Dir Effect) : SameTemp w w := ⟨rfl, Iff.rfl⟩

theorem trans (h : SameTemp w w') (h' : SameTemp w' w'') : SameTemp w w'' :=
  ⟨h'.file.trans h.file, h'.created.trans h.created⟩

theorem after {e : Effect} {whole : Dir → Dir} (he : e ≠ .createTmp)
    (hwhole : (whole w.disk).anchorTmp = w.disk.anchorTmp) : SameTemp w (w.after e whole) := by
  refine ⟨hwhole, ?_⟩
  change Effect.createTmp ∈ w.log ++ [e] ↔ _
  simp [he.symm]

end SameTemp

theorem Dir.anchorTmp_moveAside (d : Dir) (ms : ℕ) (f : OldFile) :
    (d.moveAside ms f).anchorTmp = d.anchorTmp := by
  unfold Dir.moveAside
  split
  · rfl
  · exact d.anchorTmp_dropOld f

theorem Dir.anchorTmp_moveBack (d : Dir) (ms : ℕ) (f : OldFile) :
    (d.moveBack ms f).anchorTmp = d.anchorTmp := by
  unfold Dir.moveBack
  split
  · rfl
  · exact d.anchorTmp_putOld _ f

/-! ### The renames -/

section Renames

variable {ms : ℕ} {d : Dir}

variable {files : List OldFile}

/-- The renames are all done, or a prefix of them up to the one that failed. -/
theorem wp_setAllAside {done : List OldFile} {w : World Dir Effect} (h : SetAside ms done d w.disk)
    (hnodup : (done ++ files).Nodup) (hold : ∀ f ∈ files, ∃ b, d.readOld f = some b) :
    wp (setAllAside ms done files)
      (fun r w' => w'.torn = w.torn ∧ SameTemp w w' ∧ SetAside ms r.1 d w'.disk ∧
        ((r = (done ++ files, none) ∧ w'.left = w.left.map (· - files.length) ∧
            ∀ n, w.left = some n → files.length ≤ n) ∨
          ∃ moved rest, files = moved ++ rest ∧ rest ≠ [] ∧ r = (done ++ moved, some .io) ∧
            w.left = some moved.length ∧ w'.left = none))
      (fun _ _ => False) w := by
  induction files generalizing done w with
  | nil =>
      rw [append_nil]
      refine ⟨rfl, .refl w, h, .inl ⟨rfl, ?_, fun n _ => Nat.zero_le n⟩⟩
      cases w.left <;> simp
  | cons f files ih =>
      have hf : f ∉ done := fun hmem =>
        (nodup_append.mp hnodup).2.2 f hmem f (mem_cons_self ..) rfl
      obtain ⟨b, hb⟩ := hold f (mem_cons_self ..)
      rw [setAllAside, wp_bind, wp_recover, setOldAside, wp_effect]
      refine ⟨fun hleft => ⟨fun _ => ?_, nofun⟩, fun hleft => ?_⟩
      · exact ⟨rfl, ⟨rfl, Iff.rfl⟩, h,
          .inr ⟨[], f :: files, rfl, by simp, by simp, by simpa using hleft, rfl⟩⟩
      · have hmoved : SetAside ms (done ++ [f]) d (w.disk.moveAside ms f) :=
          (h.move hf hb).perm fun g => by simp [or_comm]
        have htemp : SameTemp w (w.after (.setOldAside f) fun d => d.moveAside ms f) :=
          .after (by simp) (w.disk.anchorTmp_moveAside ms f)
        simp only
        refine wp_mono (@ih (done ++ [f]) (w.after (.setOldAside f) fun d => d.moveAside ms f) hmoved
          (by simpa using hnodup) fun g hg => hold g (mem_cons_of_mem _ hg)) ?_ fun _ _ h => h
        rintro r w' ⟨htorn, htemp', haside, hrest⟩
        refine ⟨htorn, htemp.trans htemp', haside, ?_⟩
        rcases hrest with ⟨rfl, hleft', hle⟩ | ⟨moved, rest, rfl, hne, rfl, hleft', hnone⟩
        · refine .inl ⟨by simp, ?_, fun n hn => ?_⟩
          · rw [hleft']
            simp only [World.after, Option.map_map, length_cons]
            congr 1
            funext n
            simp only [Function.comp]
            omega
          · have := hle (n - 1) (by simp [World.after, hn])
            have hpos : n ≠ 0 := fun h0 => hleft (by rw [hn, h0])
            rw [length_cons]
            omega
        · refine .inr ⟨f :: moved, rest, rfl, hne, by simp, ?_, hnone⟩
          simp only [World.after, map_eq_some_iff] at hleft'
          obtain ⟨n, hn, hlen⟩ := hleft'
          have hpos : n ≠ 0 := fun h0 => hleft (by rw [hn, h0])
          rw [hn, length_cons]
          congr 1
          omega

theorem wp_putBackAll {w : World Dir Effect} (hleft : w.left = none) (h : SetAside ms files d w.disk)
    (hnodup : files.Nodup) (hold : ∀ f ∈ files, ∃ b, d.readOld f = some b)
    (hfree : ∀ f ∈ files, d.readAside ms f = none) : wp (putBackAll ms files)
      (fun _ w' => SetAside ms [] d w'.disk ∧ SameTemp w w') (fun _ _ => False) w := by
  induction files generalizing w with
  | nil => exact ⟨h, .refl w⟩
  | cons f files ih =>
      obtain ⟨b, hb⟩ := hold f (mem_cons_self ..)
      have htemp : SameTemp w (w.after (.putBack f) fun d => d.moveBack ms f) :=
        .after (by simp) (w.disk.anchorTmp_moveBack ms f)
      rw [putBackAll, wp_bind, wp_effect]
      refine ⟨fun hzero => ?_, fun _ => ?_⟩
      · rw [hleft] at hzero
        cases hzero
      · refine wp_mono (@ih (w.after (.putBack f) fun d => d.moveBack ms f) (by simp [World.after, hleft])
          (h.back (nodup_cons.mp hnodup).1 hb (hfree f (mem_cons_self ..)))
          (nodup_cons.mp hnodup).2 (fun g hg => hold g (mem_cons_of_mem _ hg))
          fun g hg => hfree g (mem_cons_of_mem _ hg)) ?_ fun _ _ h => h
        rintro - w' ⟨hback, htemp'⟩
        exact ⟨hback, htemp.trans htemp'⟩

end Renames

/-! ### The new chain -/

section Start

variable {env : Env Fields}

/-- The first line of the new chain. -/
def genesisLine (env : Env Fields) (event : Fields) : String := lineText env 1 GENESIS event

/-- The anchor that follows it. -/
def genesisAnchor (env : Env Fields) (event : Fields) : Bytes :=
  bytesOf (anchorText 1 (hashLine env (genesisLine env event)) ++ "\n")

/-- The anchor's temporary file after step `k` of the new chain failed. The steps
are the active file, its line, the temporary file, its text, its rename and the
flush. -/
structure TempAfter (k : ℕ) (w w' : World Dir Effect) : Prop where
  before : k ≤ 2 → SameTemp w w'
  during : k = 3 ∨ k = 4 → w'.disk.anchorTmp ≠ none ∧ Effect.createTmp ∈ w'.log
  after : k = 5 → w'.disk.anchorTmp = none

/-- Only the active file, the anchor and its temporary file differ. -/
structure SameButNew (d d' : Dir) : Prop where
  archive : d'.archive = d.archive
  aside : d'.aside = d.aside
  evidence : d'.evidence = d.evidence

variable {w : World Dir Effect}

theorem appendLocked_emptied (hrotated : rotated w.disk = []) (hactive : w.disk.active = none)
    (hanchor : w.disk.anchor = none) (event : Fields) :
    appendLocked env [event] w = writeRecs env emptyTail [event] w := by
  have htail : tail env w = (.ok emptyTail, w) := by
    have hfiles : chainFiles w.disk = [.active] := by rw [chainFiles, hrotated]; rfl
    change tailFrom env (chainFiles w.disk).reverse w = _
    rw [hfiles]
    rw [reverse_singleton, tailFrom]
    change Prog.bind (Prog.gets fun w => w.disk.active) _ w = _
    rw [Prog.bind, Prog.gets, hactive]
    rfl
  have hverdict : verdict env w.disk emptyTail (readAnchor env w.disk) = .agree := by
    rw [readAnchor, hanchor]
    rfl
  change Prog.bind (tail env) _ w = _
  rw [Prog.bind, htail]
  change Prog.bind (settle env emptyTail (verdict env w.disk emptyTail (readAnchor env w.disk))) _ w
    = _
  rw [hverdict]
  rfl

theorem wp_writeAnchor_steps (seq : ℕ) (hash : String) : wp (writeAnchor seq hash)
      (fun _ w' => Passed w w' 3 ∧ w'.disk = { w.disk with
        anchor := some (bytesOf (anchorText seq hash ++ "\n")), anchorTmp := none })
      (fun e w' => e = .crash ∧ ∃ k ≤ 2, w.left = some k ∧ SameButNew w.disk w'.disk ∧
        (k = 0 → SameTemp w w') ∧
        (k ≠ 0 → w'.disk.anchorTmp ≠ none ∧ Effect.createTmp ∈ w'.log)) w := by
  unfold writeAnchor
  rw [wp_bind, wp_effect]
  refine ⟨fun hleft => ⟨rfl, 0, by decide, hleft, ⟨rfl, rfl, rfl⟩, fun _ => ⟨rfl, Iff.rfl⟩, nofun⟩,
    fun hleft => ?_⟩
  have hone := Passed.after (w := w) Effect.createTmp (fun d => { d with anchorTmp := some [] }) hleft
  rw [wp_bind, wp_effect]
  refine ⟨fun hleft => ⟨rfl, 1, by decide, hone.left_eq hleft, ⟨rfl, rfl, rfl⟩, nofun, fun _ => ?_⟩,
    fun hleft => ?_⟩
  · simp [World.after]
  have htwo := hone.trans (Passed.after Effect.anchorTmp (fun d => { d with
    anchorTmp := some (bytesOf (anchorText seq hash ++ "\n")) }) hleft)
  rw [wp_effect]
  refine ⟨fun hleft => ⟨rfl, 2, by decide, htwo.left_eq hleft, ⟨rfl, rfl, rfl⟩, nofun, fun _ => ?_⟩,
    fun hleft => ?_⟩
  · simp [World.after]
  · exact ⟨htwo.trans (.after _ _ hleft), rfl⟩

theorem wp_firstLine (hactive : w.disk.active = none) (event : Fields) :
    wp (writeLineUnanchored env emptyTail event)
      (fun t w' => t = ⟨1, hashLine env (genesisLine env event), GENESIS⟩ ∧ Passed w w' 2 ∧ SameTemp w w' ∧
        w'.disk = { w.disk with active := some (bytesOf (genesisLine env event) ++ [newline]) })
      (fun e w' => e = .crash ∧ ∃ k ≤ 1, w.left = some k ∧ SameButNew w.disk w'.disk ∧
        SameTemp w w') w := by
  have hrotate : rotate env w = (pure () : Op Unit) w := by
    rw [rotate]
    change Prog.bind (Prog.gets fun w => w.disk.active) _ w = _
    rw [Prog.bind, Prog.gets, hactive]
  unfold writeLineUnanchored
  rw [if_neg (by decide), wp_bind, wp_congr hrotate, wp_pure]
  simp only
  rw [wp_bind, wp_effect]
  refine ⟨fun hleft => ⟨rfl, 0, by decide, hleft, ⟨rfl, rfl, rfl⟩, rfl, Iff.rfl⟩, fun hleft => ?_⟩
  have hone := Passed.after (w := w) Effect.create
    (fun d => { d with active := some (d.active.getD []) }) hleft
  have htemp : SameTemp w (w.after .create fun d => { d with active := some (d.active.getD []) }) :=
    .after (by simp) rfl
  rw [wp_bind, wp_effect]
  refine ⟨fun hleft => ⟨rfl, 1, by decide, hone.left_eq hleft, ⟨rfl, rfl, rfl⟩, rfl, htemp.created⟩,
    fun hleft => ?_⟩
  rw [wp_pure]
  refine ⟨rfl, hone.trans (.after _ _ hleft), htemp.trans (.after (by simp) rfl), ?_⟩
  simp only [World.after, hactive, getD_none, getD_some, nil_append]
  rfl

theorem wp_startChain (hrotated : rotated w.disk = []) (hactive : w.disk.active = none)
    (hanchor : w.disk.anchor = none) (event : Fields) : wp (startChain env event)
      (fun _ w' => Passed w w' 6 ∧ SameButNew w.disk w'.disk ∧
        w'.disk.active = some (bytesOf (genesisLine env event) ++ [newline]) ∧
        w'.disk.anchor = some (genesisAnchor env event))
      (fun e w' => e = .crash ∧ ∃ k ≤ 5, w.left = some k ∧ SameButNew w.disk w'.disk ∧
        TempAfter k w w') w := by
  unfold startChain
  rw [wp_bind, wp_congr (appendLocked_emptied hrotated hactive hanchor event)]
  unfold writeRecs
  rw [wp_bind, writeBatch, wp_bind, wp_attempt]
  refine wp_mono (wp_firstLine hactive event) ?_ ?_
  · rintro t w₁ ⟨rfl, htwo, htemp, hdisk⟩
    have hsame₁ : SameButNew w.disk w₁.disk := by
      rw [hdisk]
      exact ⟨rfl, rfl, rfl⟩
    change wp (writeAnchor 1 (hashLine env (genesisLine env event)) >>= fun _ => raiseError (.ok ()))
      _ _ w₁
    rw [wp_bind]
    refine wp_mono (wp_writeAnchor_steps 1 _) ?_ ?_
    · rintro - w₂ ⟨hthree, hdisk₂⟩
      have hfive := htwo.trans hthree
      have hsame₂ : SameButNew w.disk w₂.disk := by
        rw [hdisk₂]
        exact ⟨hsame₁.archive, hsame₁.aside, hsame₁.evidence⟩
      change wp (effect Effect.syncDirectory _ _) _ _ w₂
      rw [wp_effect]
      refine ⟨fun hleft => ⟨rfl, 5, by decide, hfive.left_eq hleft, hsame₂, by simp, by simp, ?_⟩,
        fun hleft => ⟨hfive.trans (.after _ _ hleft), hsame₂, ?_⟩⟩
      · intro _
        rw [hdisk₂]
      · change w₂.disk.active = _ ∧ w₂.disk.anchor = _
        rw [hdisk₂, hdisk]
        exact ⟨rfl, rfl⟩
    · rintro e w₂ ⟨rfl, k, hk, hleft, hsame, hzero, hpos⟩
      refine ⟨rfl, 2 + k, by omega, htwo.left_eq hleft,
        ⟨hsame.archive.trans hsame₁.archive, hsame.aside.trans hsame₁.aside,
          hsame.evidence.trans hsame₁.evidence⟩, ?_, ?_, ?_⟩
      · exact fun hle => htemp.trans (hzero (by omega))
      · exact fun hle => hpos (by omega)
      · omega
  · rintro e w₁ ⟨rfl, k, hk, hleft, hsame, htemp⟩
    refine ⟨fun _ => ⟨rfl, k, by omega, hleft, hsame, fun _ => htemp, ?_, ?_⟩, nofun⟩
    · omega
    · omega

end Start

/-! ### All or nothing -/

section Reanchor

variable {env : Env Fields} {ms : ℕ} {d : Dir}

/-- Removing the new chain's files leaves the old ones set aside. -/
theorem SetAside.removeNew {d₁ d₂ : Dir} (h : SetAside ms (asideCandidates d) d d₁)
    (hsame : SameButNew d₁ d₂) :
    SetAside ms (asideCandidates d) d ((d₂.dropOld (.chain .active)).dropOld .anchor) := by
  obtain ⟨-, hactive, hanchor⟩ := h.emptied
  refine ⟨fun f => ?_, fun f m => ?_, ?_⟩
  · rw [← h.old, Dir.readOld_dropOld, Dir.readOld_dropOld]
    rcases f with (n | _) | _
    · change d₂.archive.lookup n = d₁.archive.lookup n
      rw [hsame.archive]
    · simp only [reduceCtorEq, if_false, if_true]
      exact hactive.symm
    · rw [if_pos rfl]
      exact hanchor.symm
  · rw [← h.aside]
    change (Dir.aside _).lookup (f, m) = d₁.aside.lookup (f, m)
    rw [Dir.aside_dropOld, Dir.aside_dropOld, hsame.aside]
  · rw [Dir.evidence_dropOld, Dir.evidence_dropOld, hsame.evidence, h.evidence]

/-- What a repair leaves that failed at step `n`, and one that did not fail. -/
def Outcome (env : Env Fields) (ms : ℕ) (d : Dir) (event : Fields) (w : World Dir Effect) :
    Except Failure Unit → World Dir Effect → Prop
  | .ok _, w' => (∀ n, w.left = some n → (asideCandidates d).length + 6 ≤ n) ∧
      ∃ d₁, SetAside ms (asideCandidates d) d d₁ ∧ SameButNew d₁ w'.disk ∧
        w'.disk.active = some (bytesOf (genesisLine env event) ++ [newline]) ∧
        w'.disk.anchor = some (genesisAnchor env event)
  | .error _, w' => ∃ n, w.left = some n ∧ n < (asideCandidates d).length + 6 ∧
      SetAside ms [] d w'.disk ∧ TempAfter (n - (asideCandidates d).length) w w'

theorem wp_replaceChain {w : World Dir Effect} (hw : w.disk = d)
    (hnames : (d.archive.map Prod.fst).Nodup)
    (hfree : ∀ f ∈ asideCandidates d, d.readAside ms f = none) (event : Fields) :
    wp (replaceChain env ms (asideCandidates d) event) (Outcome env ms d event w)
      (fun _ _ => False) w := by
  have hnodup := nodup_asideCandidates hnames
  have hstart : SetAside ms [] d w.disk := hw ▸ .refl ms d
  unfold replaceChain
  rw [wp_bind]
  refine wp_mono (wp_setAllAside hstart hnodup fun f hf => exists_readOld hf) ?_ fun _ _ h => h
  rintro r w₁ ⟨htorn, htemp, haside, ⟨rfl, hleft, hle⟩ | ⟨moved, rest, hfiles, hrest, rfl, hleft, hnone⟩⟩
  · -- every rename done: the new chain starts
    rw [nil_append] at haside
    have hpassed : Passed w w₁ (asideCandidates d).length := by
      refine ⟨hleft, fun i hi hw => ?_, htorn⟩
      have := hle i hw
      omega
    obtain ⟨hrotated, hactive, hanchor⟩ := haside.emptied
    simp only [wp_bind, wp_recover]
    refine wp_mono (wp_startChain hrotated hactive hanchor event) ?_ ?_
    · rintro - w₂ ⟨hsix, hsame, hnew, hnewAnchor⟩
      refine ⟨fun n hn => ?_, w₁.disk, haside, hsame, hnew, hnewAnchor⟩
      by_contra hlt
      exact (hpassed.trans hsix).whole n (by omega) hn
    · rintro e w₂ ⟨rfl, k, hk, hleft₂, hsame, htemp₂⟩
      refine ⟨fun _ => ?_, fun _ h => by cases h⟩
      rw [nil_append, decide_eq_true rfl]
      simp only [rollBack, removeFile, if_true, wp_bind, wp_effect]
      refine ⟨fun h => (by cases h), fun _ => ⟨fun h => (by cases h), fun _ => ?_⟩⟩
      have hremoved := haside.removeNew hsame
      refine wp_mono (wp_putBackAll (d := d) rfl (hremoved.perm fun f => mem_reverse)
        (nodup_reverse.mpr hnodup) (fun f hf => exists_readOld (mem_reverse.mp hf))
        fun f hf => hfree f (mem_reverse.mp hf)) ?_ fun _ _ h => h
      rintro - w₃ ⟨hback, htemp₃⟩
      have hrolled : SameTemp w₂ w₃ := by
        refine ⟨htemp₃.file, htemp₃.created.trans ?_⟩
        simp [World.after]
      refine ⟨_, hpassed.left_eq hleft₂, by omega, hback, ?_⟩
      rw [Nat.add_sub_cancel_left]
      refine ⟨fun hle => htemp.trans ((htemp₂.before hle).trans hrolled), fun hle => ?_,
        fun heq => hrolled.file.trans (htemp₂.after heq)⟩
      rw [hrolled.file, hrolled.created]
      exact htemp₂.during hle
  · -- a rename failed: those before it are undone
    simp only [nil_append] at haside ⊢
    have hlen : (asideCandidates d).length = moved.length + rest.length := by
      rw [hfiles, length_append]
    have hpos : 0 < rest.length := length_pos_of_ne_nil hrest
    have hsub : ∀ f ∈ moved, f ∈ asideCandidates d := by
      intro f hf
      rw [hfiles]
      exact mem_append_left _ hf
    have hmoved : moved.Nodup := by
      rw [hfiles] at hnodup
      exact (nodup_append.mp hnodup).1
    rw [wp_bind, wp_pure, wp_bind, decide_eq_false (by omega)]
    simp only [rollBack, Bool.false_eq_true, if_false, wp_bind, wp_pure]
    refine wp_mono (wp_putBackAll (d := d) hnone (haside.perm fun f => mem_reverse)
      (nodup_reverse.mpr hmoved)
      (fun f hf => exists_readOld (hsub f (mem_reverse.mp hf)))
      fun f hf => hfree f (hsub f (mem_reverse.mp hf))) ?_ fun _ _ h => h
    rintro - w₂ ⟨hback, htemp₂⟩
    exact ⟨_, hleft, by omega, hback, fun _ => htemp.trans htemp₂, by omega, by omega⟩

/-- The repair happened: every old file stands under its name for `ms`, and the
chain is one line, the event that names them, with its anchor. -/
structure Replaced (env : Env Fields) (r : Request) (d : Dir) (done : Reanchored) (d' : Dir) : Prop where
  aside : ∀ f ∈ asideCandidates d, d'.readAside r.ms f = d.readOld f
  named : ∃ event, done.event = some event ∧ ((Json.obj event).get "detail").bind (·.get "aside") =
      some (.arr ((asideCandidates d).map fun f => .str (asideName r.ms f))) ∧
    presentFiles d' = [(.active, bytesOf (genesisLine env event) ++ [newline])] ∧
    d'.anchor = some (genesisAnchor env event)

/-- The repair did not happen: every file is what it was, and a temporary file of
the anchor is none this run created. -/
structure Untouched (d : Dir) (w' : World Dir Effect) : Prop where
  old : ∀ f, w'.disk.readOld f = d.readOld f
  aside : ∀ m f, w'.disk.readAside m f = d.readAside m f
  evidence : w'.disk.evidence = d.evidence
  temp : w'.disk.anchorTmp = none ∨ (w'.disk.anchorTmp = d.anchorTmp ∧ Effect.createTmp ∉ w'.log)

def AllOrNothing (env : Env Fields) (r : Request) (d : Dir) :
    Except (Stop Failure) (Except ReanchorError Reanchored) × World Dir Effect → Prop
  | (.ok (.ok done), w') => Replaced env r d done w'.disk
  | (.ok (.error _), w') => Untouched d w'
  | (.error _, _) => False

/-- The repair starts, and the step that fails is the text of the anchor's
temporary file or its rename. -/
def FailsInTemp (env : Env Fields) (r : Request) (d : Dir) (fault : Option ℕ) : Prop :=
  (inspect env d).disagreement ≠ none ∧ (∀ f ∈ asideCandidates d, d.readAside r.ms f = none) ∧
    (fault = some ((asideCandidates d).length + 3) ∨ fault = some ((asideCandidates d).length + 4))

theorem untouched_refl (d : Dir) (fault : Option ℕ) (torn : ℕ) : Untouched d ⟨d, fault, torn, []⟩ :=
  ⟨fun _ => rfl, fun _ _ => rfl, rfl, .inr ⟨rfl, by simp⟩⟩

theorem SetAside.replaced {d₁ d' : Dir} {r : Request} {done : Reanchored} {event : Fields}
    (h : SetAside r.ms (asideCandidates d) d d₁) (hsame : SameButNew d₁ d')
    (hactive : d'.active = some (bytesOf (genesisLine env event) ++ [newline]))
    (hanchor : d'.anchor = some (genesisAnchor env event)) (hevent : done.event = some event)
    (hnamed : ((Json.obj event).get "detail").bind (·.get "aside") =
      some (.arr ((asideCandidates d).map fun f => .str (asideName r.ms f)))) :
    Replaced env r d done d' := by
  refine ⟨fun f hf => ?_, event, hevent, hnamed, ?_, hanchor⟩
  · change d'.aside.lookup (f, r.ms) = _
    rw [hsame.aside]
    change d₁.readAside r.ms f = _
    rw [h.aside, if_pos ⟨hf, rfl⟩]
  · have hrotated : rotated d' = [] := by
      rw [rotated, hsame.archive]
      exact h.emptied.1
    rw [presentFiles, hrotated, hactive]
    rfl

/-- A failed repair is undone but for the anchor's temporary file. -/
theorem untouched_iff {w w' : World Dir Effect} {n : ℕ} (hw : w.disk = d) (hlog : w.log = [])
    (hn : n < (asideCandidates d).length + 6) (h : SetAside ms [] d w'.disk)
    (htemp : TempAfter (n - (asideCandidates d).length) w w') :
    Untouched d w' ↔ ¬(n = (asideCandidates d).length + 3 ∨ n = (asideCandidates d).length + 4) := by
  constructor
  · rintro huntouched hstep
    obtain ⟨hleft, hcreated⟩ := htemp.during (by omega)
    rcases huntouched.temp with hnone | ⟨-, hnot⟩
    · exact hleft hnone
    · exact hnot hcreated
  · intro hstep
    refine ⟨by simpa using h.old, fun m f => by simpa using h.aside f m, h.evidence, ?_⟩
    by_cases hlast : n - (asideCandidates d).length = 5
    · exact .inl (htemp.after hlast)
    · have hsame := htemp.before (by omega)
      refine .inr ⟨hsame.file.trans (by rw [hw]), ?_⟩
      rw [hsame.created, hlog]
      simp

theorem reanchor_eq (r : Request) (w : World Dir Effect) (hw : w.disk = d) : reanchor env r false w =
      match (inspect env d).disagreement with
      | none => (.ok (.error (.nothingToRepair (inspect env d).healsItself)), w)
      | some why =>
        match (asideCandidates d).find? (fun file => (d.readAside r.ms file).isSome) with
        | some file =>
          (.ok (.error (.io (invalid "aside-exists" (asideName r.ms file ++ " already exists")))), w)
        | none =>
          let aside := (asideCandidates d).map (asideName r.ms)
          let event := reanchoredEvent r (inspect env d) why aside
          match replaceChain env r.ms (asideCandidates d) event w with
          | (.ok (.ok _), w') =>
            (.ok (.ok ⟨inspect env d, false, suffixAt r.ms, aside, some event⟩), w')
          | (.ok (.error e), w') => (.ok (.error (.io e)), w')
          | (.error e, w') => (.error e, w') := by
  subst hw
  unfold reanchor
  simp only [bind, Prog.bind, Prog.gets, Bool.false_eq_true, if_false]
  cases (inspect env w.disk).disagreement with
  | none => rfl
  | some why =>
      simp only
      cases (asideCandidates w.disk).find? (fun file => (w.disk.readAside r.ms file).isSome) with
      | some file => rfl
      | none =>
          simp only
          unfold Prog.bind
          rcases replaceChain env r.ms _ _ w with ⟨_ | _ | _, w'⟩ <;> rfl

/-- One step of a repair may fail: the repair happened whole, or not at all,
unless that step is the text of the anchor's temporary file or its rename. -/
theorem reanchor_all_or_nothing_iff (env : Env Fields) (r : Request) (d : Dir)
    (hnames : (d.archive.map Prod.fst).Nodup) (fault : Option ℕ) (torn : ℕ) :
    AllOrNothing env r d (reanchor env r false ⟨d, fault, torn, []⟩) ↔ ¬FailsInTemp env r d fault := by
  rw [reanchor_eq r ⟨d, fault, torn, []⟩ rfl]
  unfold FailsInTemp
  cases hwhy : (inspect env d).disagreement with
  | none => exact iff_of_true (untouched_refl d fault torn) fun h => h.1 rfl
  | some why =>
      cases hfind : (asideCandidates d).find? (fun file => (d.readAside r.ms file).isSome) with
      | some file =>
          have hmem := mem_of_find?_eq_some hfind
          have hsome := List.find?_some hfind
          refine iff_of_true (untouched_refl d fault torn) fun h => ?_
          rw [h.2.1 file hmem] at hsome
          cases hsome
      | none =>
          have hfree : ∀ f ∈ asideCandidates d, d.readAside r.ms f = none := by
            intro f hf
            simpa using List.find?_eq_none.mp hfind f hf
          simp only
          generalize hevent : reanchoredEvent r (inspect env d) why _ = event
          have hspec := @wp_replaceChain env r.ms d ⟨d, fault, torn, []⟩ rfl hnames hfree event
          rcases hrun : replaceChain env r.ms (asideCandidates d) event ⟨d, fault, torn, []⟩ with
            ⟨_ | _ | _, w'⟩
          · exact (hspec.error hrun).elim
          · obtain ⟨n, hn, hlt, haside, htemp⟩ := hspec.ok hrun
            simp only at hn
            subst hn
            refine (untouched_iff (d := d) (w := ⟨d, some n, torn, []⟩) rfl rfl hlt haside
              htemp).trans (not_congr ?_)
            simp only [ne_eq, reduceCtorEq, not_false_eq_true, true_and, Option.some.injEq,
              and_iff_right hfree]
          · obtain ⟨hfault, d₁, haside, hsame, hactive, hanchor⟩ := hspec.ok hrun
            refine iff_of_true (haside.replaced hsame hactive hanchor rfl ?_) ?_
            · rw [← hevent]
              simp [reanchoredEvent, Json.get, lookup_cons]
            · rintro ⟨-, -, hstep | hstep⟩
              · have := hfault _ hstep
                omega
              · have := hfault _ hstep
                omega

end Reanchor

/-! ### A chain whose only line is no chain line -/

def damagedDir : Dir where
  active := some (bytesOf "x" ++ [newline])

def repairRequest : Request where
  user := "u"
  host := "h"
  ms := 7
  reason := "disk failure"
  dirText := "/d"

/-- The event of its repair, as printed. -/
def repairEventText : String :=
  "\x7b\"action\":\"audit.chain.reanchored\",\"actor\":\x7b\"host\":\"h\",\"user\":\"u" ++
    "\"\x7d,\"at\":7,\"detail\":\x7b\"aside\":[\"audit-chain.jsonl.pre-reanchor-7\"],\"as" ++
    "ideDir\":\"/d\",\"asideSuffix\":\"pre-reanchor-7\",\"disagreement\":\"tail-malformed" ++
    "\",\"firstBreak\":\x7b\"code\":\"line-malformed\",\"file\":\"audit-chain.jsonl\",\"l" ++
    "ine\":1\x7d,\"lastValid\":null,\"lines\":1,\"previousAnchor\":\x7b\"status\":\"missi" ++
    "ng\"\x7d,\"previousEnd\":null,\"reason\":\"disk failure\",\"validLines\":0\x7d,\"tar" ++
    "get\":\"audit-chain\"\x7d"

/-- The digests of the damaged line and of the line that replaces it. -/
def repairEnv : Env Fields where
  sha256 b :=
    if b.length = 1 then 0x2d711642b726b04401627ca9fbac32f5c8530fb1903cc4db02258717921a4881#256
    else 0x7cc9856fe5c2538b3d744f70abc59ca35950f29a7d023df0a9958fe23bd3646e#256
  fromStr _ := none
  render _ := repairEventText
  anchorAdvancedEvent _ _ := []

/-- The line of the new chain cannot be written. -/
theorem reanchor_failing_at_the_line : AllOrNothing repairEnv repairRequest damagedDir
      (reanchor repairEnv repairRequest false ⟨damagedDir, some 2, 0, []⟩) := by
  refine (reanchor_all_or_nothing_iff repairEnv repairRequest damagedDir (by decide) (some 2) 0).mpr
    ?_
  rintro ⟨-, -, hstep | hstep⟩
  · exact absurd hstep (by decide)
  · exact absurd hstep (by decide)

/-- The new anchor cannot be renamed: the old file is back, and the temporary file
of the new anchor stays beside it. -/
theorem reanchor_failing_at_the_anchor_leaves_its_temporary_file :
    ¬AllOrNothing repairEnv repairRequest damagedDir
      (reanchor repairEnv repairRequest false ⟨damagedDir, some 5, 0, []⟩) := by
  have hrun : (match reanchor repairEnv repairRequest false ⟨damagedDir, some 5, 0, []⟩ with
      | (.ok (.error (.io .io)), w') =>
        decide (w'.disk.anchorTmp ≠ none ∧ w'.disk.anchorTmp ≠ damagedDir.anchorTmp)
      | _ => false) = true := by decide
  intro h
  split at hrun
  · rename_i w' heq
    rw [heq] at h
    have hleft := of_decide_eq_true hrun
    rcases h.temp with hnone | ⟨hsame, -⟩
    · exact hleft.1 hnone
    · exact hleft.2 hsame
  · cases hrun

end Plur1bus.Audit
