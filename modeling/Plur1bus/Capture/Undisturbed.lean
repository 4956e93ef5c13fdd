import Mathlib.Data.List.Nodup
import Plur1bus.Capture.Kept

/-!
Runs that lose no line. A step that leaves the core where it is and only lets the
files grow keeps every line, and so do the steps of the core, one after another:
what a file holds is stored until the core has read it to its end, then held until
what is kept of it is appended. Only a completed write and the append of the kept
lines can lose a line, and `Undisturbed` says when they do not.
-/

namespace Plur1bus.Capture

open Program List Function
open Utf8 (bytes lossy)

namespace World

variable {w w' : World} {i : ℕ} {l : List UInt8} {env : Env}

/-- The write goes to the end of a line of a file that will be read, and the kept lines
are appended at the end of a line. -/
def Undisturbed (w : World) : Event → Prop
  | .write cli => ∀ i line gluing, w.calls cli = .looked i line gluing →
      w.Reachable i ∧ ¬w.Ended i ∧ (AtLineStart (w.content i) ∨ gluing = true)
  | .appendKept => ∀ i, w.jsonl = some i → AtLineStart (w.content i)
  | _ => True

/-! ### Files -/

theorem Stored.mono (h : w.Stored l)
    (hreach : ∀ i, w.Reachable i → ¬w.Ended i → w'.Reachable i ∧ ¬w'.Ended i)
    (hgrow : ∀ i, w.content i <+: w'.content i) : w'.Stored l := by
  obtain ⟨i, hi, hended, hline⟩ := h
  obtain ⟨hi', hended'⟩ := hreach i hi hended
  exact ⟨i, hi', hended', hline.of_prefix (hgrow i)⟩

theorem Held.mono (h : w.Held l) (hwork : w'.work? = w.work?)
    (hgrow : ∀ i, w.content i <+: w'.content i) : w'.Held l := by
  obtain ⟨k, hk, hstage, hline, hkept⟩ := h
  exact ⟨k, hwork.trans hk, hstage, hline.of_prefix (hgrow _), hkept⟩

variable {k : Work}

theorem Tracks.mono (h : w.Tracks k) (hhandled : w'.handled = w.handled)
    (hgrow : w.content k.inode <+: w'.content k.inode) : w'.Tracks k := by
  obtain ⟨before, unread, hcontent, hpos, hwhole, hline, hbefore⟩ := h
  obtain ⟨more, hmore⟩ := hgrow
  refine ⟨before, unread ++ more, ?_, hpos, hwhole, hline, ?_⟩
  · rw [← hmore, hcontent, append_assoc]
  · rw [hhandled]
    exact hbefore

/-- A step that leaves the core where it is. -/
theorem Inv.mono (h : w.Inv) (hok : w'.Ok) (hwork : w'.work? = w.work?)
    (hjsonl : ∀ i, w.jsonl = some i → w'.jsonl = some i) (hreplaying : w'.replaying = w.replaying)
    (hhandled : w'.handled = w.handled) (hgrow : ∀ i, w.content i <+: w'.content i)
    (happended : ∀ l ∈ w'.appended, l ∈ w.appended ∨ w'.Stored l.raw) : w'.Inv where
  ok := hok
  named := by
    rw [hwork, hreplaying]
    exact h.named
  tracks k hk hstage := (h.tracks k (hwork ▸ hk) hstage).mono hhandled (hgrow _)
  secure := by
    intro l hl
    obtain hl | hl := happended l hl
    · rw [hhandled]
      obtain hl | hl | hl := h.secure l hl
      · exact .inl hl
      · refine .inr (.inl (hl.mono ?_ hgrow))
        intro i hi hended
        constructor
        · obtain hi | ⟨n, hn⟩ := hi
          · exact .inl (hjsonl i hi)
          · exact .inr ⟨n, hreplaying ▸ hn⟩
        · rintro ⟨k, hk, hstage⟩
          exact hended ⟨k, hwork ▸ hk, hstage⟩
      · exact .inr (.inr (hl.mono hwork hgrow))
    · exact .inr (.inl hl)

theorem Ok.openJsonl (h : w.Ok) : w.openJsonl.2.Ok := by
  unfold World.openJsonl
  split
  · exact h
  next hnone =>
    refine ⟨h.names, ?_, ?_, ?_, ?_, ?_⟩
    · intro f hf heq
      have hlt := h.replaying f hf
      have hinode : w.fresh = f.2 := Option.some.inj heq
      omega
    · rintro i ⟨⟩
      exact Nat.lt_succ_self _
    · intro f hf
      have := h.replaying f hf
      show f.2 < w.fresh + 1
      omega
    · intro cli i hi
      have := h.handles cli i hi
      show i < w.fresh + 1
      omega
    · intro i hi
      exact h.fresh i (by change w.fresh + 1 ≤ i at hi; omega)

theorem openJsonl_jsonl : w.openJsonl.2.jsonl = some w.openJsonl.1 := by
  unfold World.openJsonl
  split
  next heq => exact heq
  · rfl

theorem openJsonl_jsonl_of_some (h : w.jsonl = some i) : w.openJsonl.2.jsonl = some i := by
  simp only [World.openJsonl, h]

@[simp] theorem openJsonl_content : w.openJsonl.2.content = w.content := by
  unfold World.openJsonl
  split <;> rfl

@[simp] theorem openJsonl_core : w.openJsonl.2.core = w.core := by
  unfold World.openJsonl
  split <;> rfl

@[simp] theorem openJsonl_replaying : w.openJsonl.2.replaying = w.replaying := by
  unfold World.openJsonl
  split <;> rfl

@[simp] theorem openJsonl_handled : w.openJsonl.2.handled = w.handled := by
  unfold World.openJsonl
  split <;> rfl

@[simp] theorem openJsonl_appended : w.openJsonl.2.appended = w.appended := by
  unfold World.openJsonl
  split <;> rfl

theorem Inv.openJsonl (h : w.Inv) : w.openJsonl.2.Inv := by
  refine h.mono h.ok.openJsonl ?_ (fun i => openJsonl_jsonl_of_some) openJsonl_replaying
    openJsonl_handled ?_ ?_
  · simp [work?]
  · intro i
    rewrite [openJsonl_content]
    exact prefix_rfl
  · intro l hl
    rw [openJsonl_appended] at hl
    exact .inl hl

/-- The journal file is empty when it is created. -/
theorem Ok.openJsonl_start (h : w.Ok) (hstart : ∀ i, w.jsonl = some i → AtLineStart (w.content i)) :
    AtLineStart (w.content w.openJsonl.1) := by
  unfold World.openJsonl
  split
  next heq => exact hstart _ heq
  · exact .inl (h.fresh _ (Nat.le_refl _))

/-- Bytes are appended to a file that exists. -/
theorem Ok.append (h : w.Ok) (hi : i < w.fresh) (b : List UInt8) :
    (w.setContent i (w.content i ++ b)).Ok := by
  refine ⟨h.names, h.apart, h.jsonl, h.replaying, h.handles, ?_⟩
  intro j hj
  have hne : j ≠ i := by
    rintro rfl
    change w.fresh ≤ j at hj
    omega
  show Function.update w.content i _ j = []
  rw [update_of_ne hne]
  exact h.fresh j hj

theorem append_grows (b : List UInt8) (j : ℕ) :
    w.content j <+: (w.setContent i (w.content i ++ b)).content j := by
  show _ <+: Function.update w.content i _ j
  by_cases hj : j = i
  · subst hj
    rw [update_self]
    exact prefix_append _ _
  · rewrite [update_of_ne hj]
    exact prefix_rfl

theorem Inv.append (h : w.Inv) (hi : i < w.fresh) (b : List UInt8) :
    (w.setContent i (w.content i ++ b)).Inv :=
  h.mono (h.ok.append hi b) rfl (fun _ => id) rfl rfl (append_grows b) (fun _ => .inl)

/-! ### The appenders -/

theorem Inv.setCall (h : w.Inv) (cli : ℕ) {c : Call} (hc : ∀ i, c.inode? = some i → i < w.fresh) :
    (w.setCall cli c).Inv := by
  have hok : (w.setCall cli c).Ok := by
    refine ⟨h.ok.names, h.ok.apart, h.ok.jsonl, h.ok.replaying, ?_, h.ok.fresh⟩
    intro cli' i hi
    by_cases hcli : cli' = cli
    · subst hcli
      change (Function.update w.calls cli' c cli').inode? = some i at hi
      rw [update_self] at hi
      exact hc i hi
    · change (Function.update w.calls cli c cli').inode? = some i at hi
      rw [update_of_ne hcli] at hi
      exact h.ok.handles cli' i hi
  exact h.mono hok rfl (fun _ => id) rfl rfl (fun _ => prefix_rfl) (fun _ => .inl)

theorem Inv.act_openFile (h : w.Inv) (cli : ℕ) (line : JournalLine) :
    (act env w (.openFile cli line)).Inv := by
  simp only [act]
  split
  · refine h.openJsonl.setCall cli ?_
    rintro i ⟨⟩
    exact h.openJsonl.ok.jsonl _ openJsonl_jsonl
  · exact h

theorem Inv.act_look (h : w.Inv) (cli : ℕ) : (act env w (.look cli)).Inv := by
  simp only [act]
  split
  next i line hcall =>
    refine h.setCall cli ?_
    rintro j ⟨⟩
    exact h.ok.handles cli i (by rw [hcall]; rfl)
  · exact h

theorem Inv.act_write (h : w.Inv) (cli : ℕ) (hc : w.Undisturbed (.write cli)) :
    (act env w (.write cli)).Inv := by
  simp only [act]
  split
  next i line gluing hcall =>
    obtain ⟨hreach, hended, hstart⟩ := hc i line gluing hcall
    have hi : i < w.fresh := h.ok.handles cli i (by rw [hcall]; rfl)
    have hwritten := (h.append hi (payload gluing line)).setCall cli (c := .idle) nofun
    refine hwritten.mono ?_ rfl (fun _ => id) rfl rfl (fun _ => prefix_rfl) ?_
    · exact ⟨hwritten.ok.names, hwritten.ok.apart, hwritten.ok.jsonl, hwritten.ok.replaying,
        hwritten.ok.handles, hwritten.ok.fresh⟩
    · intro l hl
      obtain hl | hl := mem_append.mp hl
      · exact .inl hl
      · obtain rfl := mem_singleton.mp hl
        refine .inr ⟨i, hreach, hended, ?_⟩
        show HasLine (Function.update w.content i _ i) l.raw
        rw [update_self]
        exact hasLine_payload l hstart
  · exact h

theorem Inv.act_writeCut (h : w.Inv) (cli k : ℕ) : (act env w (.writeCut cli k)).Inv := by
  simp only [act]
  split
  next i line gluing hcall =>
    have hi : i < w.fresh := h.ok.handles cli i (by rw [hcall]; rfl)
    exact (h.append hi _).setCall cli nofun
  · exact h.setCall cli nofun

/-! ### The core -/

variable {core : Option (ℕ × Activity)}

/-- What the core held of a file it leaves is still in the file. -/
theorem Inv.leave (h : w.Inv) (hcore : ({ w with core := core } : World).work? = none) :
    ({ w with core := core } : World).Inv where
  ok := ⟨h.ok.names, h.ok.apart, h.ok.jsonl, h.ok.replaying, h.ok.handles, h.ok.fresh⟩
  named k hk := absurd (hcore.symm.trans hk) nofun
  tracks k hk := absurd (hcore.symm.trans hk) nofun
  secure := by
    have hended : ∀ i, ¬({ w with core := core } : World).Ended i := by
      rintro i ⟨k, hk, -⟩
      exact absurd (hcore.symm.trans hk) nofun
    intro l hl
    obtain hl | ⟨i, hi, -, hline⟩ | ⟨k, hk, -, hline, -⟩ := h.secure l hl
    · exact .inl hl
    · exact .inr (.inl ⟨i, hi, hended i, hline⟩)
    · exact .inr (.inl ⟨k.inode, .inr ⟨k.name, h.named k hk⟩, hended _, hline⟩)

variable {pid : ℕ} {todo : Option (List ℕ)}

/-- A file is begun. -/
theorem Inv.begin (h : w.Inv) {name : ℕ} (hfree : w.work? = none) (hnamed : (name, i) ∈ w.replaying) :
    ({ w with core := some (pid, .work todo { name := name, inode := i }) } : World).Inv where
  ok := ⟨h.ok.names, h.ok.apart, h.ok.jsonl, h.ok.replaying, h.ok.handles, h.ok.fresh⟩
  named := by
    rintro _ ⟨⟩
    exact hnamed
  tracks := by
    rintro _ ⟨⟩ -
    exact ⟨[], w.content i, rfl, rfl, nofun, nofun, nofun⟩
  secure := by
    intro l hl
    obtain hl | ⟨j, hj, -, hline⟩ | ⟨k, hk, -⟩ := h.secure l hl
    · exact .inl hl
    · refine .inr (.inl ⟨j, hj, ?_, hline⟩)
      rintro ⟨_, ⟨⟩, hstage, -⟩
      exact hstage rfl
    · exact absurd (hfree.symm.trans hk) nofun

/-- The core goes on with its file, and keeps what it has kept. -/
theorem Inv.goesOn (h : w.Inv) {pid' : ℕ} {todo' : Option (List ℕ)} {k' : Work}
    (hcore : w.core = some (pid, .work todo k)) (hname : k'.name = k.name) (hinode : k'.inode = k.inode)
    (hstage : k'.stage = k.stage) (hkept : k.kept ⊆ k'.kept)
    (htracks : k.stage = .reading → w.Tracks k') :
    ({ w with core := some (pid', .work todo' k') } : World).Inv := by
  have hwork : w.work? = some k := by
    unfold work?
    rw [hcore]
  constructor
  case ok => exact ⟨h.ok.names, h.ok.apart, h.ok.jsonl, h.ok.replaying, h.ok.handles, h.ok.fresh⟩
  case named =>
    rintro _ ⟨⟩
    rw [hname, hinode]
    exact h.named k hwork
  case tracks =>
    rintro _ ⟨⟩ hreading
    exact htracks (hstage ▸ hreading)
  case secure =>
    intro l hl
    obtain hl | ⟨i, hi, hended, hline⟩ | ⟨k₁, hk₁, hended, hline, hmem⟩ := h.secure l hl
    · exact .inl hl
    · refine .inr (.inl ⟨i, hi, ?_, hline⟩)
      rintro ⟨_, ⟨⟩, hreading, heq⟩
      exact hended ⟨k, hwork, hstage ▸ hreading, hinode ▸ heq⟩
    · obtain rfl : k = k₁ := Option.some.inj (hwork.symm.trans hk₁)
      refine .inr (.inr ⟨k', rfl, hstage.trans hended, ?_, hkept hmem⟩)
      rw [hinode]
      exact hline

theorem Inv.act_startPass (h : w.Inv) : (act env w .startPass).Inv := by
  simp only [act]
  split
  · exact h.leave rfl
  · exact h

/-- The journal file gets its new name. -/
theorem Inv.renamed (h : w.Inv) (hjsonl : w.jsonl = some i) (hpid : pid ∉ w.replaying.map Prod.fst)
    (hfree : w.work? = none) :
    ({ w with jsonl := none, replaying := w.replaying ++ [(pid, i)] } : World).Inv where
  ok := by
    refine ⟨?_, nofun, nofun, ?_, h.ok.handles, h.ok.fresh⟩
    · show (List.map Prod.fst (w.replaying ++ [(pid, i)])).Nodup
      rw [map_append, nodup_append]
      refine ⟨h.ok.names, pairwise_singleton _ _, ?_⟩
      rintro n hn m hm rfl
      obtain rfl := mem_singleton.mp hm
      exact hpid hn
    · intro f hf
      obtain hf | hf := mem_append.mp hf
      · exact h.ok.replaying f hf
      · obtain rfl := mem_singleton.mp hf
        exact h.ok.jsonl i hjsonl
  named k hk := absurd (hfree.symm.trans hk) nofun
  tracks k hk := absurd (hfree.symm.trans hk) nofun
  secure := by
    intro l hl
    obtain hl | ⟨j, hj, hended, hline⟩ | ⟨k, hk, -⟩ := h.secure l hl
    · exact .inl hl
    · refine .inr (.inl ⟨j, .inr ?_, hended, hline⟩)
      obtain hj | ⟨n, hn⟩ := hj
      · simp_all
      · exact ⟨n, mem_append_left _ hn⟩
    · exact absurd (hfree.symm.trans hk) nofun

theorem Inv.act_nextFile (h : w.Inv) : (act env w .nextFile).Inv := by
  simp only [act]
  split
  next pid name todo hcore =>
    have hfree : w.work? = none := by simp only [work?, hcore]
    split
    next i hi =>
      obtain ⟨xs, ys, heq, -⟩ := lookup_eq_some_iff.mp hi
      exact h.begin hfree (by rw [heq]; simp)
    · exact h.leave rfl
  next => exact h.leave rfl
  next pid hcore =>
    have hfree : w.work? = none := by simp only [work?, hcore]
    split
    · exact h.leave rfl
    next i hi =>
      split
      · exact h.leave rfl
      next hpid =>
        exact (h.renamed hi hpid hfree).begin hfree
          (mem_append_right _ (mem_singleton_self _))
  · exact h

/-- A chunk is taken apart into the lines it ends and the beginning of the next. -/
theorem Tracks.read (h : w.Tracks k) (hpending : k.pending = []) (n : ℕ) :
    let chunk := ((w.content k.inode).drop k.pos).take n
    let pieces := (k.line ++ chunk).splitOn NL
    w.Tracks { k with
      pos := k.pos + chunk.length, line := pieces.getLastD [], pending := pieces.dropLast } := by
  obtain ⟨before, unread, hcontent, hpos, hwhole, hline, hbefore⟩ := h
  rw [hpending, append_nil] at hcontent hpos hwhole
  have hunread : (w.content k.inode).drop k.pos = unread := by
    rw [hcontent, hpos, drop_left]
  rw [hunread]
  obtain ⟨ls, frag, hsplit, hls, hfrag⟩ := Lines.exists_content NL (k.line ++ unread.take n)
  simp only [hsplit, Lines.splitOn_content_append hls hfrag, dropLast_concat]
  rw [getLastD_concat]
  have htaken : Lines.content NL (before ++ ls) ++ frag =
      (Lines.content NL before ++ k.line) ++ unread.take n := by
    rw [Lines.content_append, append_assoc, ← hsplit, append_assoc]
  refine ⟨before, unread.drop n, ?_, ?_, ?_, hfrag, hbefore⟩
  · show w.content k.inode = _
    rw [htaken, append_assoc, take_append_drop, hcontent]
  · show k.pos + _ = _
    rw [htaken, length_append, hpos]
  · grind

theorem Inv.act_read (h : w.Inv) (n : ℕ) : (act env w (.read n)).Inv := by
  simp only [act]
  split
  next pid todo k hcore =>
    split
    next hif =>
      refine h.goesOn hcore rfl rfl rfl (List.Subset.refl _) ?_
      intro hstage
      have hwork : w.work? = some k := by simp only [work?, hcore]
      exact (h.tracks k hwork hstage).read hif.2.1 n
    · exact h
  · exact h

variable {line : JournalLine}

/-- A complete line of a file that is read to its end has been handled, or is kept. -/
theorem Tracks.settled (h : w.Tracks k) (hpending : k.pending = [])
    (hend : (w.content k.inode).drop k.pos = []) (hline : HasLine (w.content k.inode) line.raw) :
    line.raw ∈ w.handled ∨ line.raw ∈ k.kept := by
  obtain ⟨before, unread, hcontent, hpos, hwhole, hopen, hbefore⟩ := h
  rw [hpending, append_nil] at hcontent hpos hwhole
  have hunread : unread = [] := by
    rw [hcontent, hpos, drop_left] at hend
    exact hend
  rw [hunread, append_nil] at hcontent
  rw [hcontent] at hline
  have hmem := hline.mem hwhole hopen line.raw_oneLine
  obtain hblank | hhandled | hkept | hkept := hbefore _ hmem
  · rw [line.raw_notBlank] at hblank
    cases hblank
  · exact .inl hhandled
  · exact .inr hkept
  · rw [line.lossy_raw] at hkept
    exact .inr hkept

theorem Inv.act_endOfFile (h : w.Inv) : (act env w .endOfFile).Inv := by
  simp only [act]
  split
  next pid todo k hcore =>
    split
    next hif =>
      obtain ⟨hstage, hpending, hend⟩ := hif
      have hwork : w.work? = some k := by simp only [work?, hcore]
      constructor
      case ok => exact ⟨h.ok.names, h.ok.apart, h.ok.jsonl, h.ok.replaying, h.ok.handles, h.ok.fresh⟩
      case named =>
        rintro _ ⟨⟩
        exact h.named k hwork
      case tracks =>
        rintro _ ⟨⟩ hreading
        cases hreading
      case secure =>
        intro l hl
        obtain hl | ⟨i, hi, -, hline⟩ | ⟨k', hk', hended, -⟩ := h.secure l hl
        · exact .inl hl
        · by_cases hinode : k.inode = i
          · subst hinode
            obtain hl | hl := (h.tracks k hwork hstage).settled hpending hend hline
            · exact .inl hl
            · exact .inr (.inr ⟨_, rfl, rfl, hline, hl⟩)
          · refine .inr (.inl ⟨i, hi, ?_, hline⟩)
            rintro ⟨_, ⟨⟩, -, heq⟩
            exact hinode heq
        · obtain rfl : k = k' := Option.some.inj (hwork.symm.trans hk')
          rw [hstage] at hended
          cases hended
    · exact h
  · exact h

variable {raw : List UInt8} {pending : List (List UInt8)}

/-- The next line goes, and what becomes of it is one of the things it can. -/
theorem Tracks.next (h : w.Tracks k) {kept : List (List UInt8)} (hpending : k.pending = raw :: pending)
    (hkept : k.kept ⊆ kept)
    (hraw : isBlank raw = true ∨ raw ∈ w.handled ∨ raw ∈ kept ∨ bytes (lossy raw) ∈ kept) :
    w.Tracks { k with pending := pending, kept := kept } := by
  obtain ⟨before, unread, hcontent, hpos, hwhole, hline, hbefore⟩ := h
  have hshift : before ++ k.pending = (before ++ [raw]) ++ pending := by
    rw [hpending, append_assoc, singleton_append]
  rw [hshift] at hcontent hpos hwhole
  refine ⟨before ++ [raw], unread, hcontent, hpos, hwhole, hline, ?_⟩
  intro x hx
  obtain hx | hx := mem_append.mp hx
  · grind
  · obtain rfl := mem_singleton.mp hx
    exact hraw

theorem Inv.handle (h : w.Inv) (raw : List UInt8) :
    ({ w with handled := w.handled ++ [raw] } : World).Inv where
  ok := ⟨h.ok.names, h.ok.apart, h.ok.jsonl, h.ok.replaying, h.ok.handles, h.ok.fresh⟩
  named := h.named
  tracks := by
    intro k hk hstage
    obtain ⟨before, unread, hcontent, hpos, hwhole, hline, hbefore⟩ := h.tracks k hk hstage
    refine ⟨before, unread, hcontent, hpos, hwhole, hline, ?_⟩
    intro x hx
    obtain hx | hx | hx := hbefore x hx
    · exact .inl hx
    · exact .inr (.inl (mem_append_left _ hx))
    · exact .inr (.inr hx)
  secure := by
    intro l hl
    obtain hl | hl := h.secure l hl
    · exact .inl (mem_append_left _ hl)
    · exact .inr hl

/-- The next line goes, and nothing is kept of it. -/
theorem Inv.done (h : w.Inv) (hcore : w.core = some (pid, .work todo k))
    (hpending : k.pending = raw :: pending) (hraw : isBlank raw = true ∨ raw ∈ w.handled) :
    ({ w with core := some (pid, .work todo { k with pending := pending }) } : World).Inv := by
  refine h.goesOn hcore rfl rfl rfl (List.Subset.refl _) ?_
  intro hstage
  have hwork : w.work? = some k := by simp only [work?, hcore]
  exact (h.tracks k hwork hstage).next hpending (List.Subset.refl _) (hraw.imp_right .inl)

/-- The next line goes, and it is kept. -/
theorem Inv.keep (h : w.Inv) {text : List UInt8} (hcore : w.core = some (pid, .work todo k))
    (hpending : k.pending = raw :: pending) (htext : text = raw ∨ text = bytes (lossy raw)) :
    ({ w with core := some (pid, .work todo { k with pending := pending, kept := k.kept ++ [text] }) }
      : World).Inv := by
  have hmem : text ∈ k.kept ++ [text] := mem_append_right _ (mem_singleton_self _)
  refine h.goesOn hcore rfl rfl rfl (subset_append_left _ _) ?_
  intro hstage
  have hwork : w.work? = some k := by simp only [work?, hcore]
  refine (h.tracks k hwork hstage).next hpending (subset_append_left _ _) ?_
  obtain rfl | rfl := htext
  · exact .inr (.inr (.inl hmem))
  · exact .inr (.inr (.inr hmem))

theorem Inv.act_line (h : w.Inv) (outcome : Outcome) : (act env w (.line outcome)).Inv := by
  simp only [act]
  split
  next pid todo k hcore =>
    split
    · exact h
    next raw pending hpending =>
      split_ifs with hblank hrange hhandled
      · exact h.done hcore hpending (.inl hblank)
      · exact h.keep hcore hpending (.inl rfl)
      · exact (h.handle raw).done hcore hpending
          (.inr (mem_append_right _ (mem_singleton_self _)))
      · exact h.keep hcore hpending (.inr rfl)
  · exact h

/-- The kept lines are in the journal file. -/
theorem Inv.appended (h : w.Inv) (hcore : w.core = some (pid, .work todo k)) (hstage : k.stage = .ended)
    (hstored : ∀ l ∈ k.kept, w.Stored l) :
    ({ w with core := some (pid, .work todo { k with stage := .appended }) } : World).Inv := by
  have hwork : w.work? = some k := by simp only [work?, hcore]
  have hsame : ∀ i, ({ w with core := some (pid, .work todo { k with stage := .appended }) } : World).Ended i →
      w.Ended i := by
    rintro i ⟨_, ⟨⟩, -, hinode⟩
    exact ⟨k, hwork, by rw [hstage]; decide, hinode⟩
  constructor
  case ok => exact ⟨h.ok.names, h.ok.apart, h.ok.jsonl, h.ok.replaying, h.ok.handles, h.ok.fresh⟩
  case named =>
    rintro _ ⟨⟩
    exact h.named k hwork
  case tracks =>
    rintro _ ⟨⟩ hreading
    cases hreading
  case secure =>
    have hkeeps : ∀ l, w.Stored l →
        ({ w with core := some (pid, .work todo { k with stage := .appended }) } : World).Stored l := by
      rintro l ⟨i, hi, hended, hline⟩
      exact ⟨i, hi, fun hi => hended (hsame i hi), hline⟩
    intro l hl
    obtain hl | hl | ⟨k', hk', -, -, hkept⟩ := h.secure l hl
    · exact .inl hl
    · exact .inr (.inl (hkeeps _ hl))
    · simp_all

theorem openJsonl_withCore (core : Option (ℕ × Activity)) : ({ w with core := core } : World).openJsonl =
      (w.openJsonl.1, { w.openJsonl.2 with core := core }) := by
  cases hjsonl : w.jsonl with
  | none => simp only [World.openJsonl, hjsonl]
  | some i => simp only [World.openJsonl, hjsonl]

theorem Inv.act_appendKept (h : w.Inv) (hc : w.Undisturbed .appendKept) : (act env w .appendKept).Inv := by
  simp only [act]
  split
  next pid todo k hcore =>
    split
    next hif =>
      have hwork : w.work? = some k := by simp only [work?, hcore]
      split
      next hkept =>
        refine h.appended hcore hif.1 ?_
        rw [hkept]
        nofun
      · rw [openJsonl_withCore]
        have hopen := h.openJsonl
        have hlt := hopen.ok.jsonl _ openJsonl_jsonl
        have hfile := hopen.append hlt (k.kept.flatMap (· ++ [NL]))
        refine hfile.appended (openJsonl_core.trans hcore) hif.1 ?_
        intro l hl
        refine ⟨w.openJsonl.1, .inl openJsonl_jsonl, ?_, ?_⟩
        · -- The file the core has read has a name of its own.
          rintro ⟨k', hk', -, hinode⟩
          have hwork' : w.openJsonl.2.work? = some k := by
            unfold work?
            rw [openJsonl_core, hcore]
          obtain rfl : k = k' := Option.some.inj (hwork'.symm.trans hk')
          have hnamed := hopen.named k hwork'
          exact hopen.ok.apart _ hnamed (openJsonl_jsonl.trans (congrArg some hinode.symm))
        · show HasLine (Function.update w.openJsonl.2.content w.openJsonl.1 _ w.openJsonl.1) l
          rw [update_self, openJsonl_content]
          exact hasLine_content (h.ok.openJsonl_start hc) hl
    · exact h
  · exact h

theorem Inv.act_appendKeptCut (h : w.Inv) (n : ℕ) : (act env w (.appendKeptCut n)).Inv := by
  simp only [act]
  split
  next pid todo k hcore =>
    split
    · have hjsonl := h.openJsonl.ok.jsonl _ openJsonl_jsonl
      have happend := h.openJsonl.append hjsonl ((k.kept.flatMap (· ++ [NL])).take n)
      exact happend.leave rfl
    · exact h
  · exact h

theorem Inv.act_giveUp (h : w.Inv) : (act env w .giveUp).Inv := by
  simp only [act]
  split
  next pid todo k hcore =>
    refine h.leave ?_
    cases todo with
    | none => rfl
    | some todo => rfl
  · exact h

/-- The names being different, the removal of one leaves the other files. -/
theorem Inv.removed (h : w.Inv) (hwork : w.work? = some k) (hstage : k.stage = .appended)
    (hgone : ({ w with core := core } : World).work? = none) :
    ({ w with replaying := w.replaying.filter fun f => f.1 ≠ k.name, core := core } : World).Inv where
  ok := by
    refine ⟨h.ok.names.sublist (filter_sublist.map _), ?_, h.ok.jsonl, ?_, h.ok.handles, h.ok.fresh⟩
    · intro f hf
      exact h.ok.apart f (mem_filter.mp hf).1
    · intro f hf
      exact h.ok.replaying f (mem_filter.mp hf).1
  named k' hk' := absurd (hgone.symm.trans hk') nofun
  tracks k' hk' := absurd (hgone.symm.trans hk') nofun
  secure := by
    intro l hl
    obtain hl | ⟨i, hi, hended, hline⟩ | ⟨k', hk', hstage', -⟩ := h.secure l hl
    · exact .inl hl
    · refine .inr (.inl ⟨i, ?_, ?_, hline⟩)
      · obtain hi | ⟨n, hn⟩ := hi
        · exact .inl hi
        · refine .inr ⟨n, mem_filter.mpr ⟨hn, decide_eq_true ?_⟩⟩
          intro hname
          have heq := inj_on_of_nodup_map h.ok.names hn (h.named k hwork) hname
          have hinode : i = k.inode := congrArg Prod.snd heq
          exact hended ⟨k, hwork, by rw [hstage]; decide, hinode.symm⟩
      · rintro ⟨k', hk', -⟩
        exact absurd (hgone.symm.trans hk') nofun
    · simp_all

theorem Inv.act_remove (h : w.Inv) : (act env w .remove).Inv := by
  simp only [act]
  split
  next pid todo k hcore =>
    split
    next hstage =>
      have hwork : w.work? = some k := by simp only [work?, hcore]
      refine h.removed hwork hstage ?_
      cases todo with
      | none => rfl
      | some todo => rfl
    · exact h
  · exact h

/-! ### Runs -/

theorem Inv.act (h : w.Inv) (e : Event) (hc : w.Undisturbed e) : (act env w e).Inv := by
  cases e with
  | openFile cli line => exact h.act_openFile cli line
  | look cli => exact h.act_look cli
  | write cli => exact h.act_write cli hc
  | writeCut cli k => exact h.act_writeCut cli k
  | start pid =>
    simp only [World.act]
    split
    · exact h.leave rfl
    · exact h
  | crash => exact h.leave rfl
  | startPass => exact h.act_startPass
  | nextFile => exact h.act_nextFile
  | read n => exact h.act_read n
  | endOfFile => exact h.act_endOfFile
  | line outcome => exact h.act_line outcome
  | appendKept => exact h.act_appendKept hc
  | appendKeptCut k => exact h.act_appendKeptCut k
  | remove => exact h.act_remove
  | giveUp => exact h.act_giveUp

/-- In every run whose writes go to the end of a line of a file that will be read, and
whose kept lines are appended at the end of a line, no line is lost at any time. -/
theorem kept_of_undisturbed (env : Env) (es : List Event)
    (h : Along (World.act env) Undisturbed empty es) :
    Throughout (World.act env) Kept empty es :=
  (h.throughout (fun _ e hinv hc => hinv.act e hc) inv_empty).mono fun _ hinv => hinv.kept

/-- A line of the agent `bernd`. -/
def journaled : JournalLine where
  text := ["\x7b\"v\":1,", "\"id\":\"00000001-1111-", "4111-8111-111111111111\",", "\"at\":1,",
    "\"agentId\":\"bernd\",", "\"caller\":\x7b\"channel\":\"cli\",", "\"accountId\":\"h\",",
    "\"userId\":\"u\"\x7d,", "\"messages\":[\x7b\"role\":\"user\",", "\"content\":\"x\"\x7d]\x7d"].flatMap String.toList
  object := rfl
  oneLine := by decide

def capturing : Env := ⟨fun _ => true, 8 * 1024 * 1024⟩

/-- One line is appended, and a pass that is aborted keeps it. -/
def abortedPass : List Event :=
  [.openFile 0 journaled, .look 0, .write 0, .start 1, .startPass, .nextFile, .nextFile, .read 65536,
    .line .aborted, .endOfFile]

theorem jsonl_abortedPass : (abortedPass.foldl (World.act capturing) empty).jsonl = none := by
  decide +kernel

theorem kept_of_undisturbed_abortedPass :
    Throughout (World.act capturing) Kept empty (abortedPass ++ [.appendKept, .remove]) := by
  refine kept_of_undisturbed capturing _ (Along.append.mpr ⟨?_, ?_⟩)
  · refine ⟨trivial, trivial, ?_, trivial, trivial, trivial, trivial, trivial, trivial, trivial, trivial⟩
    intro i line gluing hcall
    cases hcall
    refine ⟨.inl rfl, ?_, .inl (.inl rfl)⟩
    rintro ⟨k, hk, -⟩
    cases hk
  · refine ⟨?_, trivial, trivial⟩
    intro i hi
    rw [jsonl_abortedPass] at hi
    cases hi

/-- A line behind a byte of another is not a line of its own. -/
theorem not_kept_of_glued {x : UInt8} (hx : NL ≠ x) (hline : line ∈ w.appended)
    (hhandled : w.handled = []) (hreplaying : w.replaying = []) (hjsonl : w.jsonl = some i)
    (hcontent : w.content i = Lines.content NL [x :: line.raw]) : ¬w.Kept := by
  intro h
  obtain hl | ⟨j, hj | ⟨n, hn⟩, hown⟩ := h line hline
  · rw [hhandled] at hl
    cases hl
  · obtain rfl : i = j := Option.some.inj (hjsonl.symm.trans hj)
    have hwhole : ∀ l ∈ [x :: line.raw], NL ∉ l := by
      intro l hl
      rw [mem_singleton.mp hl, mem_cons, not_or]
      exact ⟨hx, line.raw_oneLine⟩
    rw [hcontent, ← append_nil (Lines.content _ _)] at hown
    have hmem := hown.mem hwhole not_mem_nil line.raw_oneLine
    exact cons_ne_self _ _ (mem_singleton.mp hmem).symm
  · rw [hreplaying] at hn
    cases hn

/-- The pass that keeps its line, with another process cut off in the new file. -/
def tornPass : List Event :=
  abortedPass ++ [.openFile 1 journaled, .look 1, .writeCut 1 1, .appendKept, .remove]

theorem tornPass_final : let w := tornPass.foldl (World.act capturing) empty
    journaled ∈ w.appended ∧ w.handled = [] ∧ w.replaying = [] ∧ w.jsonl = some 1 ∧
      w.content 1 = Lines.content NL [0x7B :: journaled.raw] := by
  decide +kernel

/-- A process has the file open when the core renames it, and writes when the core has
come to its end: the line is removed with the file. And a kept line becomes the end of
what another process was cut off in. -/
theorem lost_behind_rename_or_fragment : ¬Throughout (World.act capturing) Kept empty
        [.openFile 0 journaled, .start 1, .startPass, .nextFile, .nextFile, .endOfFile, .appendKept,
          .remove, .look 0, .write 0] ∧
      ¬Throughout (World.act capturing) Kept empty tornPass := by
  constructor
  · intro h
    obtain hl | ⟨i, hi | ⟨n, hn⟩, -⟩ := h.last journaled mem_cons_self
    · cases hl
    · cases hi
    · cases hn
  · intro h
    obtain ⟨hline, hhandled, hreplaying, hjsonl, hcontent⟩ := tornPass_final
    exact not_kept_of_glued (by decide) hline hhandled hreplaying hjsonl hcontent h.last

end World

end Plur1bus.Capture
