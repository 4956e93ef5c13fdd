import Plur1bus.Ext.Zip

/-!
The names of an archive. Inserting them one after the other succeeds exactly when
they are apart: a condition on the names that does not depend on their order.
-/

namespace Plur1bus.Ext

open Program List

/-! ### Directories of a name -/

variable {name : List Char}

theorem mem_dirPrefixes {d : List Char} : d ∈ dirPrefixes name ↔ ∃ rest, name = d ++ '/' :: rest := by
  induction name generalizing d with
  | nil => simp [dirPrefixes]
  | cons c name ih =>
    have hdeeper : d ∈ (dirPrefixes name).map (c :: ·) ↔ ∃ d' rest, d = c :: d' ∧ name = d' ++ '/' :: rest := by
      grind
    have hcons : (∃ rest, c :: name = d ++ '/' :: rest) ↔
        (d = [] ∧ c = '/') ∨ ∃ d' rest, d = c :: d' ∧ name = d' ++ '/' :: rest := by
      cases d with
      | nil => simp
      | cons x d' => grind
    rw [hcons]
    unfold dirPrefixes
    dsimp only
    split
    next hc => rw [mem_cons, hdeeper]; simp [hc]
    next hc => rw [hdeeper]; simp [hc]

/-! ### Names that are apart -/

/-- No two names fold equal, no name folds equal to a directory, and directories that fold equal are
spelled the same. -/
structure Apart (fold : List Char → List Char) (names : List (List Char)) : Prop where
  keys : (names.map fold).Nodup
  files : ∀ a ∈ names, ∀ b ∈ names, ∀ d ∈ dirPrefixes b, fold a ≠ fold d
  dirs : ∀ a ∈ names, ∀ b ∈ names, ∀ d ∈ dirPrefixes a, ∀ d' ∈ dirPrefixes b, fold d = fold d' → d = d'

section

variable {fold : List Char → List Char} {names : List (List Char)}

theorem Apart.nil : Apart fold [] := ⟨nodup_nil, fun _ h => (by cases h), fun _ h => (by cases h)⟩

theorem Apart.perm {names' : List (List Char)} (h : Apart fold names) (hp : names.Perm names') : Apart fold names' where
  keys := (hp.map fold).nodup_iff.mp h.keys
  files := fun a ha b hb => h.files a (hp.mem_iff.mpr ha) b (hp.mem_iff.mpr hb)
  dirs := fun a ha b hb => h.dirs a (hp.mem_iff.mpr ha) b (hp.mem_iff.mpr hb)

/-- The table holds the spelling of each of these directories, and no other. -/
def Spells (fold : List Char → List Char) (f : Folded) (ds : List (List Char)) : Prop :=
  ∀ key d, f.dirs.lookup key = some d ↔ d ∈ ds ∧ fold d = key

/-- The table of these names. -/
structure Represents (fold : List Char → List Char) (f : Folded) (names : List (List Char)) : Prop where
  files : ∀ key, key ∈ f.files ↔ ∃ a ∈ names, fold a = key
  dirs : Spells fold f (names.flatMap dirPrefixes)

theorem Represents.nil : Represents fold {} [] where
  files := fun key => by simp
  dirs := fun key d => by simp

variable {f f' : Folded} {ds : List (List Char)}

theorem Spells.congr {ds' : List (List Char)} (h : Spells fold f ds) (hf : f'.dirs = f.dirs)
    (hds : ∀ d, d ∈ ds' ↔ d ∈ ds) : Spells fold f' ds' := by
  intro key d
  rw [hf, hds d]
  exact h key d

theorem Spells.unique (h : Spells fold f ds) {d d' : List Char} (hd : d ∈ ds) (hd' : d' ∈ ds)
    (heq : fold d = fold d') : d = d' := by
  have hlook := (h (fold d') d).mpr ⟨hd, heq⟩
  have hlook' := (h (fold d') d').mpr ⟨hd', rfl⟩
  exact Option.some.inj (hlook.symm.trans hlook')

theorem Spells.cons {f : Folded} {ds : List (List Char)} (h : Spells fold f ds) {d : List Char}
    (hnone : f.dirs.lookup (fold d) = none) :
    Spells fold { f with dirs := (fold d, d) :: f.dirs } (d :: ds) := by
  grind [Spells]

/-- A directory that has its spelling already. -/
theorem Spells.again (h : Spells fold f ds) {d : List Char} (hsome : f.dirs.lookup (fold d) = some d) :
    Spells fold f (d :: ds) := by
  have hd : d ∈ ds := ((h (fold d) d).mp hsome).1
  refine h.congr rfl fun e => ?_
  rw [mem_cons]
  constructor
  · rintro (rfl | he)
    · exact hd
    · exact he
  · exact Or.inr

variable {raw : Bytes} {dirs : List (List Char)}

theorem insertDirs_spells (hf : Spells fold f ds) (h : f.insertDirs fold raw dirs = .ok f') :
    (∀ d ∈ dirs, fold d ∉ f.files) ∧ f'.files = f.files ∧ Spells fold f' (dirs ++ ds) := by
  induction dirs generalizing f ds with
  | nil =>
    cases h
    exact ⟨fun _ hd => (by cases hd), rfl, hf⟩
  | cons d dirs ih =>
    unfold Folded.insertDirs at h
    dsimp only at h
    split at h
    · cases h
    next hfree =>
      have hperm : ∀ e, e ∈ d :: dirs ++ ds ↔ e ∈ dirs ++ d :: ds := by
        intro e
        simp only [cons_append, mem_cons, mem_append]
        tauto
      split at h
      next first hfirst =>
        split at h
        · cases h
        next heq =>
          have heq : first = d := not_not.mp heq
          subst heq
          obtain ⟨hdirs, hfiles, hspells⟩ := ih (hf.again hfirst) h
          refine ⟨?_, hfiles, hspells.congr rfl hperm⟩
          rw [forall_mem_cons]
          exact ⟨hfree, hdirs⟩
      next hnone =>
        obtain ⟨hdirs, hfiles, hspells⟩ := ih (hf.cons hnone) h
        refine ⟨?_, hfiles, hspells.congr rfl hperm⟩
        rw [forall_mem_cons]
        exact ⟨hfree, hdirs⟩

theorem insertDirs_total (hf : Spells fold f ds) (hfree : ∀ d ∈ dirs, fold d ∉ f.files)
    (hinj : ∀ d ∈ dirs ++ ds, ∀ d' ∈ dirs ++ ds, fold d = fold d' → d = d') :
    ∃ f', f.insertDirs fold raw dirs = .ok f' := by
  induction dirs generalizing f ds with
  | nil => exact ⟨f, rfl⟩
  | cons d dirs ih =>
    rw [forall_mem_cons] at hfree
    have hsub : ∀ e ∈ dirs ++ d :: ds, e ∈ d :: dirs ++ ds := by
      intro e he
      simp only [cons_append, mem_cons, mem_append] at he ⊢
      tauto
    have hinj' : ∀ e ∈ dirs ++ d :: ds, ∀ e' ∈ dirs ++ d :: ds, fold e = fold e' → e = e' :=
      fun e he e' he' => hinj e (hsub e he) e' (hsub e' he')
    unfold Folded.insertDirs
    dsimp only
    rw [if_neg hfree.1]
    split
    next first hfirst =>
      have hmem := (hf (fold d) first).mp hfirst
      have heq : first = d := by grind
      subst heq
      rw [if_neg (not_not.mpr rfl)]
      exact ih (hf.again hfirst) hfree.2 hinj'
    next hnone => exact ih (hf.cons hnone) hfree.2 hinj'

variable {name : List Char}

theorem flatMap_cons_mem {d : List Char} :
    d ∈ (name :: names).flatMap dirPrefixes ↔ d ∈ dirPrefixes name ++ names.flatMap dirPrefixes := by
  rw [flatMap_cons]

/-- The table after one more name. -/
theorem insert_represents (hf : Represents fold f names) (ha : Apart fold names)
    (h : f.insert fold raw name = .ok f') :
    Represents fold f' (name :: names) ∧ Apart fold (name :: names) := by
  unfold Folded.insert at h
  dsimp only at h
  split at h
  · cases h
  next hnew =>
    rw [not_or] at hnew
    obtain ⟨hnodir, hnofile⟩ := hnew
    have hspells : Spells fold { f with files := fold name :: f.files } (names.flatMap dirPrefixes) :=
      hf.dirs.congr rfl fun _ => Iff.rfl
    obtain ⟨hfree, hfiles, hdirs⟩ := insertDirs_spells hspells h
    -- Neither is the name one of the directories so far.
    have hnodir : ∀ d ∈ names.flatMap dirPrefixes, fold d ≠ fold name := by
      intro d hd heq
      apply hnodir
      rw [(hf.dirs (fold name) d).mpr ⟨hd, heq⟩]
      rfl
    have hnofile : ∀ a ∈ names, fold a ≠ fold name := fun a ha heq => hnofile ((hf.files _).mpr ⟨a, ha, heq⟩)
    have hfree : ∀ d ∈ dirPrefixes name, fold name ≠ fold d ∧ ∀ a ∈ names, fold a ≠ fold d := by
      intro d hd
      have := hfree d hd
      rw [mem_cons, not_or] at this
      exact ⟨fun heq => this.1 heq.symm, fun a ha heq => this.2 ((hf.files _).mpr ⟨a, ha, heq⟩)⟩
    have hdirs : Spells fold f' ((name :: names).flatMap dirPrefixes) := hdirs
    refine ⟨⟨?_, hdirs⟩, ⟨?_, ?_, ?_⟩⟩
    · intro key
      rw [hfiles, mem_cons, hf.files]
      simp only [mem_cons, exists_eq_or_imp]
      tauto
    · rw [map_cons, nodup_cons]
      refine ⟨?_, ha.keys⟩
      rw [mem_map]
      rintro ⟨a, ha, heq⟩
      exact hnofile a ha heq
    · intro a hmem b hb d hd
      rcases mem_cons.mp hmem with rfl | hold
      · grind
      · rcases mem_cons.mp hb with rfl | hb
        · exact (hfree d hd).2 a hold
        · exact ha.files a hold b hb d hd
    · intro a ha b hb d hd d' hd' heq
      exact hdirs.unique (mem_flatMap.mpr ⟨a, ha, hd⟩) (mem_flatMap.mpr ⟨b, hb, hd'⟩) heq

theorem insert_total (raw : Bytes) (hf : Represents fold f names) (ha : Apart fold (name :: names)) :
    ∃ f', f.insert fold raw name = .ok f' := by
  have hkeys := ha.keys
  rw [map_cons, nodup_cons] at hkeys
  have hnofile : fold name ∉ f.files := by
    rw [hf.files]
    rintro ⟨a, hmem, heq⟩
    exact hkeys.1 (mem_map.mpr ⟨a, hmem, heq⟩)
  have hnodir : ¬ (f.dirs.lookup (fold name)).isSome = true := by
    intro hsome
    obtain ⟨d, hd⟩ := Option.isSome_iff_exists.mp hsome
    obtain ⟨hmem, heq⟩ := (hf.dirs _ _).mp hd
    obtain ⟨b, hb, hd⟩ := mem_flatMap.mp hmem
    exact ha.files name mem_cons_self b (mem_cons_of_mem _ hb) d hd heq.symm
  unfold Folded.insert
  dsimp only
  rw [if_neg (not_or.mpr ⟨hnodir, hnofile⟩)]
  have hspells : Spells fold { f with files := fold name :: f.files } (names.flatMap dirPrefixes) :=
    hf.dirs.congr rfl fun _ => Iff.rfl
  refine insertDirs_total hspells ?_ ?_
  · intro d hd hmem
    dsimp only at hmem
    rcases mem_cons.mp hmem with heq | hmem
    · exact ha.files name mem_cons_self name mem_cons_self d hd heq.symm
    · obtain ⟨a, hmem, heq⟩ := (hf.files _).mp hmem
      exact ha.files a (mem_cons_of_mem _ hmem) name mem_cons_self d hd heq
  · intro d hd d' hd' heq
    rw [← flatMap_cons_mem, mem_flatMap] at hd hd'
    obtain ⟨a, hmem, hd⟩ := hd
    obtain ⟨b, hb, hd'⟩ := hd'
    exact ha.dirs a hmem b hb d hd d' hd' heq

end

/-! ### One name -/

variable {raw : Bytes}

theorem bytes_of_fromUtf8 (h : fromUtf8 raw = some name) : Utf8.bytes name = raw := by
  unfold fromUtf8 at h
  obtain ⟨cs, hcs, rfl⟩ := Option.map_eq_some_iff.mp h
  have hsome : raw.toByteArray.utf8Decode?.isSome := by rw [hcs]; rfl
  have henc := ByteArray.utf8Encode_get_utf8Decode? (h := hsome)
  have hget : raw.toByteArray.utf8Decode?.get hsome = cs := Option.get_of_eq_some hsome hcs
  rw [hget] at henc
  have := congrArg (fun b => b.data.toList) henc
  simpa [List.utf8Encode, Utf8.bytes] using this

/-- What no name of an audited archive has. -/
structure SafeName (name : List Char) : Prop where
  segments : ∀ segment ∈ name.splitOn '/', segment ≠ [] ∧ segment ≠ ['.'] ∧ segment ≠ ['.', '.']
  backslash : '\\' ∉ name
  relative : name.head? ≠ some '/'

theorem checkSegments_ok {segments : List (List Char)} {u : Unit}
    (h : checkSegments raw segments = .ok u) :
    ∀ segment ∈ segments, segment ≠ [] ∧ segment ≠ ['.'] ∧ segment ≠ ['.', '.'] := by
  induction segments with
  | nil => exact fun _ hmem => (by cases hmem)
  | cons segment segments ih =>
    simp only [checkSegments, checkSegment, bind_ok, ensure_ok, exists_const] at h
    rw [forall_mem_cons]
    exact ⟨⟨h.1.1, h.1.2.1⟩, ih h.2⟩

theorem checkName_ok {isNormalized : List Char → Bool} {limits : Limits}
    (h : checkName isNormalized limits raw = .ok name) : Utf8.bytes name = raw ∧ SafeName name := by
  unfold checkName at h
  split at h
  · cases h
  next name' hname =>
    simp only [bind_ok, ensure_ok, exists_const, pure, Except.pure, Except.ok.injEq] at h
    obtain ⟨-, -, -, hhead, hback, -, -, -, -, -, -, u, hsegs, rfl⟩ := h
    exact ⟨bytes_of_fromUtf8 hname, checkSegments_ok hsegs, hback, hhead⟩

end Plur1bus.Ext
