import Plur1bus.Audit.Writing

/-!
A crash during an append, and the next append. A writer that is cut off leaves
the lines it had fsynced and an anchor that is still before all of them, or
after all of them; the next writer heals the anchor when it trails by at most
one line and refuses otherwise.
-/

namespace Plur1bus.Audit

open Program Lines Prog List

variable {R : Type} {env : Env R}

/-! ### A whole append -/

variable {w : World Dir Effect} {lines : List String}

theorem wp_writeBatch (hserde : ReadsBack env) (h : Intact env w.disk lines) (recs : List R)
    (wrote : Bool) (hroom : lines.length + recs.length < 10 ^ 10) :
    wp (writeBatch env (tailOf env lines) wrote recs)
      (fun out w' => ∃ more, more.length = recs.length ∧ out.tail = tailOf env (lines ++ more) ∧
        out.outcome = .ok () ∧ out.wrote = (wrote || !recs.isEmpty) ∧
        Intact env w'.disk (lines ++ more) ∧ Extends w w' more)
      (Cut env lines recs.length w) w := by
  induction recs generalizing w lines wrote with
  | nil => exact ⟨[], rfl, by rw [append_nil], rfl, by simp, by rwa [append_nil], .refl w⟩
  | cons rec' recs ih =>
      rw [length_cons] at hroom
      rw [writeBatch, wp_bind, wp_attempt]
      refine wp_mono (wp_writeLineUnanchored hserde h (by omega) rec') ?_ ?_
      · rintro t w₁ ⟨line, rfl, hintact, hext⟩
        have hlen : (lines ++ [line]).length + recs.length < 10 ^ 10 := by
          rw [length_append, length_singleton]
          omega
        refine wp_mono (ih hintact true hlen) ?_ fun _ _ hcut =>
          (Cut.after hext hcut).mono (by simp only [length_cons, length_nil]; omega)
        rintro out w₂ ⟨more, hmore, htail, houtcome, hwrote, hintact₂, hext₂⟩
        rw [append_assoc] at htail hintact₂
        exact ⟨line :: more, by rw [length_cons, hmore, length_cons], htail, houtcome,
          by rw [hwrote]; simp, hintact₂, hext.trans hext₂⟩
      · intro e w₁ hcut
        refine ⟨fun he => he ▸ hcut.mono (Nat.zero_le _), fun e' he => ?_⟩
        rw [hcut.1] at he
        cases he

/-- What the records of an append leave: their lines, and the anchor at the
last of them. -/
structure Appended (env : Env R) (lines : List String) (w w' : World Dir Effect)
    (more : List String) : Prop where
  intact : Intact env w'.disk (lines ++ more)
  anchored : Anchored env w'.disk (lines ++ more)
  left : w'.left = none ↔ w.left = none
  synced : synced w'.log = synced w.log ++ more
  moved : Effect.anchor ∈ w'.log

variable {recs : List R}

theorem wp_writeRecs (hserde : ReadsBack env) (h : Intact env w.disk lines) (hrecs : recs ≠ [])
    (hroom : lines.length + recs.length < 10 ^ 10) : wp (writeRecs env (tailOf env lines) recs)
      (fun _ w' => ∃ more, more.length = recs.length ∧ Appended env lines w w' more)
      (Cut env lines recs.length w) w := by
  unfold writeRecs
  rw [wp_bind]
  refine wp_mono (wp_writeBatch hserde h recs false hroom) ?_ fun _ _ hcut => hcut
  rintro out w₁ ⟨more, hmore, htail, houtcome, hwrote, hintact, hext⟩
  have hne : lines ++ more ≠ [] := by
    intro hnil
    rw [(append_eq_nil_iff.mp hnil).2] at hmore
    exact hrecs (length_eq_zero_iff.mp hmore.symm)
  have hmax : (lines ++ more).length ≤ MAX_SEQ := by
    rw [length_append, hmore]
    simp only [MAX_SEQ]
    omega
  have hwrote : out.wrote = true := by
    rw [hwrote]
    cases recs with
    | nil => exact absurd rfl hrecs
    | cons => rfl
  rw [wp_bind, if_pos hwrote, htail, houtcome]
  refine wp_mono (wp_writeAnchor hserde hintact hne hmax) ?_
    fun _ _ hcut => (Cut.after hext hcut).mono (by omega)
  rintro - w₂ ⟨hintact₂, hanchored, hmoved⟩
  exact ⟨more, hmore, hintact₂, hanchored, hmoved.left.trans hext.left,
    hmoved.synced.trans hext.synced, hmoved.moved⟩

/-! ### The verdict -/

variable {d d' : Dir}

theorem readAnchor_congr (h : d'.anchor = d.anchor) : readAnchor env d' = readAnchor env d := by
  unfold readAnchor
  rw [h]

theorem Anchored.congr (h : Anchored env d lines) (hanchor : d'.anchor = d.anchor) :
    Anchored env d' lines :=
  (readAnchor_congr hanchor).trans h

variable {x : Layout} {base : List String}

/-- The line after the last of `base` names its digest. -/
theorem Lies.prev_eq {line : String} (h : Lies env d x (base ++ [line])) :
    (tailOf env (base ++ [line])).prev = (tailOf env base).hash := by
  have hlink := ((linked_append base [line]).mp h.linked).2.2.1
  rw [lastOwn_links] at hlink
  rw [tailOf_snoc]
  exact hlink

/-- What a writer makes of an anchor that trails the chain by `beyond`. -/
def trailing : List String → Verdict
  | [] => .agree
  | [_] => .advance
  | _ => .refuse .tailMismatch

variable {beyond : List String}

theorem verdict_eq_trailing (h : Lies env d x (base ++ beyond)) (hne : base ≠ [])
    (hanchored : Anchored env d base) :
    verdict env d (tailOf env (base ++ beyond)) (readAnchor env d) = trailing beyond := by
  have hseq := h.tailOf_seq
  rw [length_append] at hseq
  rw [hanchored]
  match beyond with
  | [] =>
      rw [append_nil, length_nil, Nat.add_zero] at hseq
      rw [append_nil]
      simp [verdict, judge, trailing, hseq]
  | [line] =>
      have hprev := h.prev_eq
      have hjudge : judge (tailOf env (base ++ [line])) (.at base.length (tailOf env base).hash) =
          .advance := by
        simp [judge, hseq, hprev]
      have hbefore : lineBeforeTailHashes env d (tailOf env (base ++ [line])).prev = true := by
        obtain ⟨init, b, hb⟩ : ∃ init b, base = init ++ [b] := by
          rcases eq_nil_or_concat base with hnil | ⟨init, b, hb⟩
          · exact absurd hnil hne
          · exact ⟨init, b, by rw [hb, concat_eq_append]⟩
        rw [hprev, lineBeforeTailHashes, h.chainLines, hb, tailOf_snoc]
        simp [hashLine]
      simp only [verdict, hjudge, hbefore, if_true, trailing]
  | l :: l' :: rest =>
      simp only [length_cons] at hseq
      have hjudge : judge (tailOf env (base ++ l :: l' :: rest))
          (.at base.length (tailOf env base).hash) = .refuse .tailMismatch := by
        simp only [judge, hseq]
        rw [if_neg (by omega), if_neg (by omega), if_neg (by omega)]
      simp only [verdict, hjudge, trailing]

/-- The verdict of a writer that comes to the directory. -/
def judged (env : Env R) : Op Verdict := do
  let t ← tail env
  Prog.gets (fun w => verdict env w.disk t (readAnchor env w.disk))

theorem wp_judged (h : Lies env w.disk x (base ++ beyond)) (hne : base ≠ [])
    (hanchored : Anchored env w.disk base) :
    wp (judged env) (fun v w' => v = trailing beyond ∧ Extends w w' [])
      (Cut env (base ++ beyond) 0 w) w := by
  unfold judged
  rw [wp_bind]
  refine wp_mono (wp_tail h) ?_ fun _ _ hcut => hcut
  rintro t w' ⟨rfl, ⟨y, -, hlies⟩, hext⟩
  exact ⟨verdict_eq_trailing hlies hne (hanchored.congr hext.anchor), hext⟩

/-- A writer that agrees with a chain of at least one line found its anchor at
the last one. -/
theorem anchored_of_agree (h : Intact env d lines) (hne : lines ≠ [])
    (hagree : (judged env { disk := d }).1 = .ok .agree) : Anchored env d lines := by
  obtain ⟨x, -, hlies⟩ := h
  have hpos : 0 < lines.length := length_pos_of_ne_nil hne
  have hwp : wp (judged env) (fun v _ => v = .agree → Anchored env d lines)
      (Cut env lines 0 { disk := d }) { disk := d } := by
    unfold judged
    rw [wp_bind]
    refine wp_mono (wp_tail hlies) ?_ fun _ _ hcut => hcut
    rintro t w' ⟨rfl, ⟨y, -, hlies'⟩, hext⟩ hverdict
    have hseq := hlies'.tailOf_seq
    refine Anchored.congr ?_ hext.anchor.symm
    change verdict env w'.disk (tailOf env lines) (readAnchor env w'.disk) = .agree at hverdict
    unfold verdict at hverdict
    split at hverdict
    · split at hverdict <;> cases hverdict
    · cases hanchor : readAnchor env w'.disk with
      | invalid =>
          rw [hanchor] at hverdict
          cases hverdict
      | absent =>
          rw [hanchor] at hverdict
          simp only [judge, hseq] at hverdict
          rw [if_neg (by omega)] at hverdict
          cases hverdict
      | «at» seq hash =>
          rw [hanchor] at hverdict
          simp only [judge] at hverdict
          split at hverdict
          · cases hverdict
          · split at hverdict
            · rename_i heq
              rw [Anchored, hanchor, heq.1, heq.2, hseq]
            · split at hverdict <;> cases hverdict
  cases hrun : judged env { disk := d } with
  | mk r w' =>
      rw [hrun] at hagree
      simp only at hagree
      subst hagree
      exact hwp.ok hrun rfl

/-! ### A crash and the next append -/

/-- Where a writer of at most `k` lines that found the anchored chain `lines`
stops, or is stopped: the fsynced lines are in the chain, and the anchor is
before or after all of them. -/
def Reached (env : Env R) (lines : List String) (k : ℕ) (w : World Dir Effect) : Prop :=
  (synced w.log).length ≤ k ∧ (∃ x, Lies env w.disk x (lines ++ synced w.log)) ∧
    Anchored env w.disk (if Effect.anchor ∈ w.log then lines ++ synced w.log else lines)

theorem reached_of_cut {k : ℕ} {left : Option ℕ} {torn : ℕ} {e : Stop Failure}
    (hanchored : Anchored env d lines)
    (h : Cut env lines k { disk := d, left := left, torn := torn } e w) : Reached env lines k w := by
  obtain ⟨-, -, x, more, hk, hlies, hext⟩ := h
  have hsynced : synced w.log = more := hext.synced
  have hstill : Effect.anchor ∉ w.log := by
    rw [hext.moved]
    simp
  rw [Reached, hsynced, if_neg hstill]
  exact ⟨hk, ⟨x, hlies⟩, hanchored.congr hext.anchor⟩

theorem reached_appendBatch (hserde : ReadsBack env) (h : Intact env d lines) (hne : lines ≠ [])
    (hanchored : Anchored env d lines) (recs : List R) (hroom : lines.length + recs.length < 10 ^ 10)
    (left : Option ℕ) (torn : ℕ) : Reached env lines recs.length
      (appendBatch env recs { disk := d, left := left, torn := torn }).2 := by
  obtain ⟨x, hfrag, hlies⟩ := h
  refine wp_snd.mp ?_
  rw [appendBatch]
  by_cases hrecs : recs = []
  · rw [if_pos (by simp [hrecs])]
    exact ⟨Nat.zero_le _, ⟨x, by simpa [synced] using hlies⟩, by simpa using hanchored⟩
  rw [if_neg (by simpa using hrecs), appendLocked, wp_bind]
  refine wp_mono (wp_tail hlies) ?_
    fun _ _ hcut => reached_of_cut hanchored (hcut.mono (Nat.zero_le _))
  rintro t w₁ ⟨rfl, hintact, hext⟩
  rw [wp_bind, wp_gets]
  have hagree : verdict env w₁.disk (tailOf env lines) (readAnchor env w₁.disk) = .agree := by
    obtain ⟨y, -, hy⟩ := hintact
    have := verdict_eq_trailing (by rwa [append_nil] : Lies env w₁.disk y (lines ++ [])) hne
      (hanchored.congr hext.anchor)
    rwa [append_nil] at this
  rw [hagree, wp_bind, settle, wp_pure]
  refine wp_mono (wp_writeRecs hserde hintact hrecs hroom) ?_
    fun _ _ hcut => reached_of_cut hanchored (Cut.after_nil hext hcut)
  rintro - w₂ ⟨more, hmore, happ⟩
  have hsynced : synced w₂.log = more := by
    rw [happ.synced, hext.synced]
    rfl
  obtain ⟨y, -, hy⟩ := happ.intact
  rw [Reached, hsynced, if_pos happ.moved]
  exact ⟨hmore.le, ⟨y, hy⟩, happ.anchored⟩

theorem wp_settle_advance (hserde : ReadsBack env) (h : Intact env w.disk lines) (hne : lines ≠ [])
    (hroom : lines.length + 1 < 10 ^ 10) : wp (settle env (tailOf env lines) .advance)
      (fun t w' => ∃ line, t = tailOf env (lines ++ [line]) ∧
        Intact env w'.disk (lines ++ [line]) ∧ (w'.left = none ↔ w.left = none))
      (fun _ _ => w.left ≠ none) w := by
  have hmax : lines.length + 1 ≤ MAX_SEQ := by
    simp only [MAX_SEQ]
    omega
  rw [settle, wp_bind]
  refine wp_mono (wp_writeAnchor hserde h hne (by omega)) ?_ fun _ _ hcut => hcut.2.1
  rintro - w₁ ⟨hintact, -, hmoved⟩
  rw [writeLine, wp_bind]
  refine wp_mono (wp_writeLineUnanchored hserde hintact hroom _) ?_
    fun _ _ hcut => mt hmoved.left.mpr hcut.2.1
  rintro t w₂ ⟨line, rfl, hintact₂, hext⟩
  rw [wp_bind]
  refine wp_mono (wp_writeAnchor hserde hintact₂ (by simp) (by simpa using hmax)) ?_
    fun _ _ hcut => mt (hext.left.trans hmoved.left).mpr hcut.2.1
  rintro - w₃ ⟨hintact₃, -, hmoved₃⟩
  exact ⟨line, rfl, hintact₃, hmoved₃.left.trans (hext.left.trans hmoved.left)⟩

/-- An anchor that trails by at most one line is healed. -/
theorem wp_appendBatch_of_trailing (hserde : ReadsBack env) (h : Lies env w.disk x (base ++ beyond))
    (hne : base ≠ []) (hanchored : Anchored env w.disk base) (hbeyond : beyond.length ≤ 1)
    (hrecs : recs ≠ []) (hroom : (base ++ beyond).length + 1 + recs.length < 10 ^ 10) :
    wp (appendBatch env recs)
      (fun _ w' => ∃ more, Intact env w'.disk (base ++ beyond ++ more) ∧
        Anchored env w'.disk (base ++ beyond ++ more))
      (fun _ _ => w.left ≠ none) w := by
  rw [appendBatch, if_neg (by simpa using hrecs), appendLocked, wp_bind]
  refine wp_mono (wp_tail h) ?_ fun _ _ hcut => hcut.2.1
  rintro t w₁ ⟨rfl, hintact, hext⟩
  rw [wp_bind, wp_gets]
  have hverdict : verdict env w₁.disk (tailOf env (base ++ beyond)) (readAnchor env w₁.disk) =
      trailing beyond := by
    obtain ⟨y, -, hy⟩ := hintact
    exact verdict_eq_trailing hy hne (hanchored.congr hext.anchor)
  rw [hverdict, wp_bind]
  match beyond with
  | [] =>
      rw [trailing, settle, wp_pure]
      refine wp_mono (wp_writeRecs hserde hintact hrecs (by omega)) ?_
        fun _ _ hcut => mt hext.left.mpr hcut.2.1
      rintro - w₂ ⟨more, -, happ⟩
      exact ⟨more, happ.intact, happ.anchored⟩
  | [line] =>
      rw [trailing]
      refine wp_mono (wp_settle_advance hserde hintact (by simp) (by omega)) ?_
        fun _ _ hleft => mt hext.left.mpr hleft
      rintro t w₂ ⟨note, rfl, hintact₂, hleft⟩
      have hlen : (base ++ [line] ++ [note]).length + recs.length < 10 ^ 10 := by
        rw [length_append, length_singleton]
        exact hroom
      refine wp_mono (wp_writeRecs hserde hintact₂ hrecs hlen) ?_
        fun _ _ hcut => mt (hleft.trans hext.left).mpr hcut.2.1
      rintro - w₃ ⟨more, -, happ⟩
      refine ⟨note :: more, ?_, ?_⟩
      · have := happ.intact
        rwa [append_assoc] at this
      · have := happ.anchored
        rwa [append_assoc] at this
  | l :: l' :: rest => simp at hbeyond

/-- An anchor that trails by two lines or more is refused. -/
theorem wp_appendBatch_of_lost (h : Lies env w.disk x (base ++ beyond)) (hne : base ≠ [])
    (hanchored : Anchored env w.disk base) (hbeyond : ¬beyond.length ≤ 1) (hrecs : recs ≠ []) :
    wp (appendBatch env recs) (fun _ _ => False) (fun _ _ => True) w := by
  rw [appendBatch, if_neg (by simpa using hrecs), appendLocked, wp_bind]
  refine wp_mono (wp_tail h) ?_ fun _ _ _ => trivial
  rintro t w₁ ⟨rfl, ⟨y, -, hy⟩, hext⟩
  rw [wp_bind, wp_gets, verdict_eq_trailing hy hne (hanchored.congr hext.anchor), wp_bind]
  match beyond with
  | [] => simp at hbeyond
  | [line] => simp at hbeyond
  | l :: l' :: rest => exact trivial

/-- The next append on what a crash left is taken: its verdict is to agree or
to advance, every line fsynced before is still in the chain, and the chain is
whole and anchored at its last line afterwards. -/
structure Recovers (env : Env R) (lines : List String) (w : World Dir Effect) (recs : List R) : Prop where
  verdict : ∃ v, (judged env { disk := w.disk }).1 = .ok v ∧ (v = .agree ∨ v = .advance)
  appended : ∃ w' more, appendBatch env recs { disk := w.disk } = (.ok (), w') ∧
    Intact env w'.disk (lines ++ synced w.log ++ more) ∧
    Anchored env w'.disk (lines ++ synced w.log ++ more)

theorem recovers_iff_trailing (hserde : ReadsBack env) (hlines : base ++ beyond = lines ++ synced w.log)
    (h : Lies env w.disk x (base ++ beyond)) (hne : base ≠ []) (hanchored : Anchored env w.disk base)
    (hrecs : recs ≠ []) (hroom : (base ++ beyond).length + 1 + recs.length < 10 ^ 10) :
    Recovers env lines w recs ↔ beyond.length ≤ 1 := by
  constructor
  · intro hrec
    obtain ⟨w', more, hrun, -, -⟩ := hrec.appended
    by_contra hbeyond
    have hlost : wp (appendBatch env recs) (fun _ _ => False) (fun _ _ => True)
        { disk := w.disk } :=
      wp_appendBatch_of_lost (w := { disk := w.disk }) h hne hanchored hbeyond hrecs
    exact hlost.ok hrun
  · intro hbeyond
    constructor
    · have hjudged : wp (judged env) (fun v _ => v = trailing beyond) (fun _ _ => False)
          { disk := w.disk } := by
        refine wp_mono (wp_judged (w := { disk := w.disk }) h hne hanchored) (fun _ _ hv => hv.1) fun _ _ hcut => ?_
        exact hcut.2.1 rfl
      unfold wp at hjudged
      rcases hrun : judged env { disk := w.disk } with ⟨_ | v, w'⟩ <;> rw [hrun] at hjudged
      · exact hjudged.elim
      · refine ⟨v, rfl, ?_⟩
        rw [hjudged]
        match beyond with
        | [] => exact .inl rfl
        | [line] => exact .inr rfl
        | l :: l' :: rest => simp at hbeyond
    · have happend : wp (appendBatch env recs)
          (fun _ w' => ∃ more, Intact env w'.disk (base ++ beyond ++ more) ∧
            Anchored env w'.disk (base ++ beyond ++ more))
          (fun _ _ => False) { disk := w.disk } := by
        refine wp_mono (wp_appendBatch_of_trailing (w := { disk := w.disk }) hserde h hne hanchored
          hbeyond hrecs hroom) (fun _ _ hdone => hdone) fun _ _ hleft => ?_
        exact hleft rfl
      unfold wp at happend
      rcases hrun : appendBatch env recs { disk := w.disk } with ⟨_ | ⟨⟩, w'⟩ <;>
        rw [hrun] at happend
      · exact happend.elim
      · simp_all

/-- A batch on an intact chain that its writer agrees with, cut off after any
effect or inside any write: the next append recovers exactly when at most one
line of the batch had been fsynced, or the anchor had already been renamed. -/
theorem recovers_iff_at_most_one_line (hserde : ReadsBack env) (d : Dir) (lines : List String)
    (hintact : Intact env d lines) (hne : lines ≠ [])
    (hagree : (judged env { disk := d }).1 = .ok .agree) (batch next : List R) (hnext : next ≠ [])
    (hroom : lines.length + batch.length + 1 + next.length < 10 ^ 10) (left torn : ℕ)
    (w : World Dir Effect)
    (hw : w = (appendBatch env batch { disk := d, left := some left, torn := torn }).2) :
    Recovers env lines w next ↔ (synced w.log).length ≤ 1 ∨ Effect.anchor ∈ w.log := by
  obtain ⟨hk, ⟨x, hlies⟩, hanch⟩ : Reached env lines batch.length w := by
    rw [hw]
    exact reached_appendBatch hserde hintact hne (anchored_of_agree hintact hne hagree) batch
      (by omega) (some left) torn
  have hlen : (lines ++ synced w.log).length + 1 + next.length < 10 ^ 10 := by
    rw [length_append]
    omega
  by_cases hmoved : Effect.anchor ∈ w.log
  · rw [if_pos hmoved] at hanch
    have hnil : Lies env w.disk x (lines ++ synced w.log ++ []) := by rwa [append_nil]
    have hroom' : (lines ++ synced w.log ++ []).length + 1 + next.length < 10 ^ 10 := by
      rwa [append_nil]
    have := recovers_iff_trailing hserde (append_nil _) hnil (by simp [hne]) hanch hnext hroom'
    simp [this, hmoved]
  · rw [if_neg hmoved] at hanch
    have := recovers_iff_trailing hserde rfl hlies hne hanch hnext hlen
    simp [this, hmoved]

/-! ### A sample chain

One event is on the chain, and the same event is appended again. The digests
are those of the lines that occur. -/

inductive SampleRecord
  | event
  /-- The anchor was moved from the first line to the second. -/
  | advanced
  deriving DecidableEq, Repr

def SampleRecord.text : SampleRecord → String
  | .event => "\x7b\"action\":\"test\",\"at\":1\x7d"
  | .advanced =>
    "\x7b\"action\":\"audit.chain.anchor-advanced\",\"actor\":\x7b\"host\":\"h\",\"user\":\"u\"\x7d," ++
      "\"at\":2,\"detail\":\x7b\"fromSeq\":1,\"toSeq\":2,\"writer\":\"cli\"\x7d,\"target\":\"audit-chain.anchor\"\x7d"

def SampleRecord.fields : SampleRecord → List (String × Json)
  | .event => [("action", .str "test"), ("at", .num 1)]
  | .advanced =>
    [("action", .str "audit.chain.anchor-advanced"),
      ("actor", .obj [("host", .str "h"), ("user", .str "u")]), ("at", .num 2),
      ("detail", .obj [("fromSeq", .num 1), ("toSeq", .num 2), ("writer", .str "cli")]),
      ("target", .str "audit-chain.anchor")]

/-- What follows a given beginning. -/
def expect (p : String) (cs : List Char) : Option (List Char) :=
  if p.toList.isPrefixOf cs then some (cs.drop p.toList.length) else none

def readNat (cs : List Char) : ℕ := Nat.ofDigitChars 10 (cs.takeWhile Char.isDigit) 0

def afterNat (cs : List Char) : List Char := cs.dropWhile Char.isDigit

def readRecord (cs : List Char) : Option SampleRecord :=
  if cs = SampleRecord.event.text.toList ++ ['\x7d'] then some .event
  else if cs = SampleRecord.advanced.text.toList ++ ['\x7d'] then some .advanced
  else none

/-- A line of the sample chain. -/
def readLine (cs : List Char) : Option Json := do
  let cs ← expect "\x7b\"seq\":" cs
  let rest ← expect ",\"prev\":\"" (afterNat cs)
  let tail ← expect "\",\"rec\":" (rest.drop 64)
  let rec' ← readRecord tail
  pure (.obj [("seq", .num (readNat cs)), ("prev", .str (String.ofList (rest.take 64))),
    ("rec", .obj rec'.fields)])

def readAnchorText (cs : List Char) : Option Json := do
  let hash ← expect "\x7b\"hash\":\"" cs
  let seq ← expect "\",\"seq\":" (hash.drop 64)
  let _ ← expect ",\"v\":1\x7d\n" (afterNat seq)
  pure (.obj [("hash", .str (String.ofList (hash.take 64))), ("seq", .num (readNat seq)), ("v", .num 1)])

/-- The line's number is its eighth byte. -/
def sampleDigest (b : Bytes) : BitVec 256 :=
  match (b[7]? : Option UInt8) with
  | some 49 => 0x3f6781cbac09461d05c31f78641cfef7d4b49c1d1b97836bdceaa8bc827dea8c#256
  | some 50 => 0xa0cc164dd29af4f63cdebd823a76e59e2a29986c60a8b0d5d776e3b128dc20af#256
  | some 51 => 0x726d68ed5feb8f23dcd95542fb6fa958bbd879e2e2265dd2d605b03f50f004de#256
  | _ => 0x135373ede8c20431b446cfaad86809e702ba67adefe583039f35e5ca30030e64#256

def sampleEnv : Env SampleRecord where
  sha256 := sampleDigest
  fromStr s := (readLine s.toList).or (readAnchorText s.toList)
  render := SampleRecord.text
  anchorAdvancedEvent _ _ := .advanced

theorem expect_append (p : String) (cs : List Char) : expect p (p.toList ++ cs) = some cs := by
  simp [expect]

theorem readNat_append (n : ℕ) (cs : List Char) (hcs : ∀ c ∈ cs.head?, c.isDigit = false) :
    readNat ((toString n).toList ++ cs) = n ∧ afterNat ((toString n).toList ++ cs) = cs := by
  have hdigits : ∀ a ∈ (toString n).toList, a.isDigit = true := by
    intro a ha
    rw [Nat.toString_eq_repr, Nat.toList_repr] at ha
    exact Nat.isDigit_of_mem_toDigits (by decide) (by decide) ha
  have htake : cs.takeWhile Char.isDigit = [] ∧ cs.dropWhile Char.isDigit = cs := by
    cases cs with
    | nil => exact ⟨rfl, rfl⟩
    | cons c cs => simp [hcs c rfl]
  constructor
  · rw [readNat, takeWhile_append_of_pos hdigits, htake.1, append_nil,
      Nat.toString_eq_repr, Nat.toList_repr, Nat.ofDigitChars_ten_toDigits]
  · rw [afterNat, dropWhile_append_of_pos hdigits, htake.2]

theorem readRecord_text (rec' : SampleRecord) : readRecord (rec'.text.toList ++ ['\x7d']) = some rec' := by
  cases rec' <;> decide +kernel

theorem length_of_hex64 {s : String} (h : hex64 s = true) : s.toList.length = 64 := by
  simp only [hex64, Bool.and_eq_true, decide_eq_true_eq] at h
  exact h.1

theorem readLine_lineText (seq : ℕ) {prev : String} (rec' : SampleRecord)
    (hprev : hex64 prev = true) :
    readLine (lineText sampleEnv seq prev rec').toList =
      some (.obj [("seq", .num seq), ("prev", .str prev), ("rec", .obj rec'.fields)]) := by
  have hlen := length_of_hex64 hprev
  have htext : (lineText sampleEnv seq prev rec').toList =
      "\x7b\"seq\":".toList ++ ((toString seq).toList ++ (",\"prev\":\"".toList ++ (prev.toList ++
          ("\",\"rec\":".toList ++ (rec'.text.toList ++ ['\x7d']))))) := by
    simp [lineText, sampleEnv]
  obtain ⟨hnat, hafter⟩ := readNat_append seq (",\"prev\":\"".toList ++ (prev.toList ++
    ("\",\"rec\":".toList ++ (rec'.text.toList ++ ['\x7d'])))) (by simp)
  simp only [readLine, htext, expect_append, hnat, hafter, drop_left' hlen,
    take_left' hlen, readRecord_text, bind, Option.bind_some, String.ofList_toList, pure]

theorem toList_anchorText (seq : ℕ) (hash : String) : (anchorText seq hash ++ "\n").toList =
      "\x7b\"hash\":\"".toList ++ (hash.toList ++
        ("\",\"seq\":".toList ++ ((toString seq).toList ++ (",\"v\":1\x7d\n".toList ++ [])))) := by
  simp [anchorText]

theorem readAnchorText_anchorText (seq : ℕ) {hash : String} (hhash : hex64 hash = true) :
    readAnchorText (anchorText seq hash ++ "\n").toList =
      some (.obj [("hash", .str hash), ("seq", .num seq), ("v", .num 1)]) := by
  have hlen := length_of_hex64 hhash
  obtain ⟨hnat, hafter⟩ := readNat_append seq (",\"v\":1\x7d\n".toList ++ []) (by simp)
  simp only [readAnchorText, toList_anchorText, expect_append, hnat, hafter, drop_left' hlen,
    take_left' hlen, bind, Option.bind_some, String.ofList_toList, pure]

theorem fromStr_sampleEnv (s : String) :
    sampleEnv.fromStr s = (readLine s.toList).or (readAnchorText s.toList) := rfl

theorem readsBack_sampleEnv : ReadsBack sampleEnv := by
  constructor
  · intro seq prev rec' _ _ hprev
    refine ⟨rec'.fields, ?_⟩
    rw [fromStr_sampleEnv, readLine_lineText seq rec' hprev, Option.some_or]
  · intro seq hash _ _ hhash
    have hnone : readLine (anchorText seq hash ++ "\n").toList = none := by
      rw [toList_anchorText]
      rfl
    rw [fromStr_sampleEnv, hnone, Option.none_or, readAnchorText_anchorText seq hhash]
  · intro rec'
    cases rec' <;> decide +kernel

def sampleLine : String := lineText sampleEnv 1 GENESIS .event

/-- The chain of one line, anchored. -/
def sampleDir : Dir where
  active := some (bytesOf sampleLine ++ [newline])
  anchor := some (bytesOf (anchorText 1 (hashLine sampleEnv sampleLine) ++ "\n"))

theorem intact_sampleDir : Intact sampleEnv sampleDir [sampleLine] := by
  have hparse : parseLine sampleEnv sampleLine = .ok ⟨1, GENESIS⟩ :=
    readsBack_sampleEnv.parseLine .event (by decide) (by decide) hex64_genesis
  have hnl : newline ∉ bytesOf sampleLine :=
    newline_not_mem_lineText readsBack_sampleEnv 1 .event hex64_genesis
  refine ⟨⟨[], [bytesOf sampleLine], []⟩, rfl, ?_⟩
  constructor
  · exact nodup_nil
  · rfl
  · simp [sampleDir, content]
  · trivial
  · intro raw hraw
    rw [mem_singleton.mp hraw]
    exact hnl
  · simp
  · have hread : fromUtf8 (stripCr (bytesOf sampleLine)) = some sampleLine := by
      rw [sampleLine, stripCr_lineText, fromUtf8_bytesOf]
    simp [Layout.raws, hread]
  · intro l hl
    rw [mem_singleton.mp hl]
    exact ⟨_, hparse⟩
  · exact ⟨by simp [links, seqOf, hparse], by simp [links, prevOf, hparse], rfl, trivial⟩

theorem agree_sampleDir : (judged sampleEnv { disk := sampleDir }).1 = .ok .agree := by
  decide +kernel

/-- Two events are appended, and the machine stops after `left` effects. -/
def sampleCrash (left : ℕ) : World Dir Effect :=
  (appendBatch sampleEnv [.event, .event] { disk := sampleDir, left := some left, torn := 5 }).2

/-- The machine stops inside the second line. -/
theorem recovers_iff_at_most_one_line_torn : (synced (sampleCrash 3).log).length = 1 ∧
      Recovers sampleEnv [sampleLine] (sampleCrash 3) [.event] := by
  have hone : (synced (sampleCrash 3).log).length = 1 := by decide +kernel
  exact ⟨hone, (recovers_iff_at_most_one_line readsBack_sampleEnv sampleDir [sampleLine]
    intact_sampleDir (by decide) agree_sampleDir [.event, .event] [.event] (by decide) (by decide)
    3 5 (sampleCrash 3) rfl).mpr (.inl hone.le)⟩

/-- The machine stops between the second line and the anchor: no writer appends
any more. -/
theorem two_lines_before_the_anchor_not_recovered : Intact sampleEnv sampleDir [sampleLine] ∧
      (judged sampleEnv { disk := sampleDir }).1 = .ok .agree ∧
      ¬Recovers sampleEnv [sampleLine] (sampleCrash 4) [.event] := by
  refine ⟨intact_sampleDir, agree_sampleDir, ?_⟩
  have hlog : (synced (sampleCrash 4).log).length = 2 ∧ Effect.anchor ∉ (sampleCrash 4).log := by
    decide +kernel
  obtain ⟨-, ⟨x, hlies⟩, hanchored⟩ : Reached sampleEnv [sampleLine] 2 (sampleCrash 4) :=
    reached_appendBatch readsBack_sampleEnv intact_sampleDir (by decide)
      (anchored_of_agree intact_sampleDir (by decide) agree_sampleDir) [.event, .event]
      (by decide) (some 4) 5
  rw [if_neg hlog.2] at hanchored
  have hroom : ([sampleLine] ++ synced (sampleCrash 4).log).length + 1 +
      [SampleRecord.event].length < 10 ^ 10 := by
    rw [length_append, hlog.1]
    decide
  rw [recovers_iff_trailing readsBack_sampleEnv rfl hlies (by decide) hanchored (by decide) hroom, hlog.1]
  decide

end Plur1bus.Audit
