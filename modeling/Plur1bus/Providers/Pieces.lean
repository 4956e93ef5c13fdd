import Plur1bus.Program.Fold
import Plur1bus.Providers.Accumulate

/-!
What a chunk of a stream says. A chunk decodes to pieces: a part of each text, and for each
tool call it names a part of its arguments. A push that is accepted is a chunk that decodes
followed by the pieces being taken in, and a piece is taken in if it fits what is known: an
id or a name that was given does not change, the arguments stay in their bound, and nothing
but a repeated reason follows the reason to finish.
-/

namespace Plur1bus.Providers

open Program Value List Option

/-- A part of a tool call. -/
structure CallPiece where
  index : ℕ
  id : Option Units := none
  name : Option Units := none
  args : Option Units := none
  deriving DecidableEq, Repr

/-- A part of the choice. -/
structure Piece where
  content : Units := []
  reasoning : Units := []
  refusal : Units := []
  calls : List CallPiece := []
  finish : Option Units := none
  deriving DecidableEq, Repr

/-- What a chunk carries. -/
structure ChunkPiece where
  metadata : ResponseMeta := {}
  pieces : List Piece := []
  usage : Option Usage := none
  deriving DecidableEq, Repr

/-! ### Decoding -/

def decodeId (v : Option Body) : Option (Option Units) :=
  match given v with
  | none => some none
  | some (.str id) => if id = [] then none else some (some id)
  | some _ => none

def decodeName (v : Option Body) : Option (Option Units) :=
  match given v with
  | none => some none
  | some (.str name) => some (nonEmpty name)
  | some _ => none

def decodeArgs (v : Option Body) : Option (Option Units) :=
  match given v with
  | none => some none
  | some (.str args) => some (some args)
  | some _ => none

def decodeFunction (v : Option Body) : Option (Option Units × Option Units) :=
  match given v with
  | none => some (none, none)
  | some fn =>
    match fn.record with
    | none => none
    | some fields =>
      match decodeName (fields.lookup "name"), decodeArgs (fields.lookup "arguments") with
      | some name, some args => some (name, args)
      | _, _ => none

def decodeIndex (v : Option Body) : Option ℕ :=
  match v with
  | some (.num n) => (n.safeFrom 0).filter fun k => k ≤ 1023
  | _ => none

def decodeCall (tc : Body) : Option CallPiece :=
  match tc.record with
  | none => none
  | some fields =>
    match decodeIndex (fields.lookup "index"), decodeId (fields.lookup "id"),
      decodeFunction (fields.lookup "function") with
    | some index, some id, some (name, args) => some ⟨index, id, name, args⟩
    | _, _, _ => none

def decodeText (v : Option Body) : Option Units :=
  match given v with
  | none => some []
  | some (.str s) => some s
  | some _ => none

def decodeCalls (v : Option Body) : Option (List CallPiece) :=
  match given v with
  | none => some []
  | some (.arr tcs) => decodeAll decodeCall tcs
  | some _ => none

def decodeDelta (d : Fields) : Option Piece :=
  match decodeText (d.lookup "role"), decodeText (d.lookup "content"), decodeText (d.lookup "refusal"),
    decodeText (orElse (d.lookup "reasoning_content") (d.lookup "reasoning")),
    decodeCalls (d.lookup "tool_calls") with
  | some _, some content, some refusal, some reasoning, some calls =>
    some { content, reasoning, refusal, calls }
  | _, _, _, _, _ => none

def decodeChoiceDelta (v : Option Body) : Option Piece :=
  match given v with
  | none => some {}
  | some delta => delta.record.bind decodeDelta

def decodeChoice (c : Body) : Option Piece :=
  match c.record with
  | none => none
  | some fields =>
    if firstChoice (fields.lookup "index") then
      match decodeChoiceDelta (fields.lookup "delta"), decodeArgs (fields.lookup "finish_reason") with
      | some piece, some finish => some { piece with finish }
      | _, _ => none
    else none

def decodeUsage (v : Option Body) : Option (Option Usage) :=
  match bodyUsage v with
  | .ok u => some u
  | .error _ => none

def decodeChunk (chunk : Body) : Option ChunkPiece :=
  match chunk.record with
  | none => none
  | some fields =>
    if given (fields.lookup "error") = none ∧
        ¬(array (fields.lookup "choices") = none ∧ (fields.lookup "usage").bind record = none) then
      match decodeAll decodeChoice ((array (fields.lookup "choices")).getD []),
        decodeUsage (fields.lookup "usage") with
      | some pieces, some usage => some ⟨readMeta fields {}, pieces, usage⟩
      | _, _ => none
    else none

/-! ### Taking in -/

/-- A call with what a piece adds to it. -/
def RawCall.merge (c : RawCall) (p : CallPiece) : RawCall :=
  { c with id := p.id.or c.id, name := p.name.or c.name, args := c.args ++ p.args.getD [] }

/-- What was given does not change. -/
def Keeps (known new : Option Units) : Prop := ∀ x, new = some x → known = none ∨ known = some x

/-- The arguments stay in their bound. -/
def Fitting (maxArgs : ℕ) (known : Units) (new : Option Units) : Prop :=
  ∀ x, new = some x → known.length + x.length ≤ maxArgs

namespace ChatAccumulator

def write (acc : ChatAccumulator) (c : RawCall) : ChatAccumulator := { acc with calls := setCall c acc.calls }

/-- The piece does not contradict what is known of its call. -/
structure Fits (maxArgs : ℕ) (acc : ChatAccumulator) (p : CallPiece) : Prop where
  id : Keeps (acc.callAt p.index).id p.id
  name : Keeps (acc.callAt p.index).name p.name
  args : Fitting maxArgs (acc.callAt p.index).args p.args

def addCall (acc : ChatAccumulator) (p : CallPiece) : ChatAccumulator :=
  acc.write ((acc.callAt p.index).merge p)

/-- A call is announced once, and what is added to its arguments is passed on. -/
def callEvents (acc : ChatAccumulator) (p : CallPiece) : List ChatEvent :=
  let call := (acc.callAt p.index).merge p
  (if p.index ∈ acc.calls.map RawCall.index then [] else [.toolCallStart p.index call.id call.name]) ++
    if p.args.getD [] = [] then [] else [.toolCallDelta p.index (p.args.getD [])]

def addTexts (acc : ChatAccumulator) (p : Piece) : ChatAccumulator := { acc with
    text := acc.text ++ p.content
    reasoning := acc.reasoning ++ p.reasoning
    refusal := acc.refusal ++ p.refusal }

def addFinish (acc : ChatAccumulator) (finish : Option Units) : ChatAccumulator :=
  { acc with raw := acc.raw.or finish }

def finishEvents (acc : ChatAccumulator) (finish : Option Units) : List ChatEvent :=
  match acc.raw, finish with
  | none, some fr => [.finish (normaliseFinish fr) fr]
  | _, _ => []

end ChatAccumulator

def Piece.isEmpty (p : Piece) : Prop := p.content = [] ∧ p.refusal = [] ∧ p.reasoning = [] ∧ p.calls = []

def Piece.textEvents (p : Piece) : List ChatEvent :=
  (if p.content = [] then [] else [.textDelta p.content]) ++
    if p.reasoning = [] then [] else [.reasoningDelta p.reasoning]

/-- A piece of a call is taken in. -/
structure CallStep (maxArgs : ℕ) (acc : ChatAccumulator) (p : CallPiece) (events : List ChatEvent)
    (acc' : ChatAccumulator) : Prop where
  fits : acc.Fits maxArgs p
  events_eq : events = acc.callEvents p
  after : acc' = acc.addCall p

/-- A piece of the choice is taken in: its texts, its calls, and last its reason to finish. -/
def PieceStep (maxArgs : ℕ) (acc : ChatAccumulator) (p : Piece) (events : List ChatEvent)
    (acc' : ChatAccumulator) : Prop :=
  ∃ calls mid, (acc.raw ≠ none → p.isEmpty) ∧ Keeps acc.raw p.finish ∧
    Steps (CallStep maxArgs) (acc.addTexts p) p.calls calls mid ∧
    events = p.textEvents ++ calls.flatten ++ mid.finishEvents p.finish ∧ acc' = mid.addFinish p.finish

def ResponseMeta.or (m m' : ResponseMeta) : ResponseMeta :=
  ⟨m.id.or m'.id, m.model.or m'.model, m.systemFingerprint.or m'.systemFingerprint⟩

/-- A chunk is taken in. -/
def ChunkStep (maxArgs : ℕ) (acc : ChatAccumulator) (c : ChunkPiece) (events : List ChatEvent)
    (acc' : ChatAccumulator) : Prop :=
  ∃ pieces mid, Steps (PieceStep maxArgs) { acc with metadata := acc.metadata.or c.metadata } c.pieces pieces mid ∧
    events = pieces.flatten ∧ acc' = { mid with usage := c.usage.or mid.usage }

/-! ### Calls by index -/

section CallAt

variable {acc : ChatAccumulator} {c c' : RawCall} {calls : List RawCall} {i : ℕ}

@[simp] theorem callAt_index (acc : ChatAccumulator) (i : ℕ) : (acc.callAt i).index = i := by
  unfold ChatAccumulator.callAt
  cases h : acc.calls.find? fun c => c.index = i with
  | none => rfl
  | some c => simpa using List.find?_some h

theorem map_index_setCall (c : RawCall) (calls : List RawCall) : (setCall c calls).map RawCall.index =
      if c.index ∈ calls.map RawCall.index then calls.map RawCall.index
      else calls.map RawCall.index ++ [c.index] := by
  unfold setCall
  split
  · rw [List.map_map]
    refine map_congr_left fun c' _ => ?_
    show (if c'.index = c.index then c else c').index = c'.index
    split
    next heq => exact heq.symm
    next => rfl
  · rw [map_append, map_singleton]

theorem find?_replace (c : RawCall) (calls : List RawCall) (i : ℕ) :
    (calls.map fun c' => if c'.index = c.index then c else c').find? (fun c => c.index = i) =
      if c.index = i then (if i ∈ calls.map RawCall.index then some c else none)
      else calls.find? fun c => c.index = i := by
  induction calls with
  | nil => simp
  | cons d calls ih => grind

theorem find?_setCall (c : RawCall) (calls : List RawCall) (i : ℕ) :
    (setCall c calls).find? (fun c => c.index = i) =
      if c.index = i then some c else calls.find? fun c => c.index = i := by
  unfold setCall
  by_cases hmem : c.index ∈ calls.map RawCall.index
  · rw [if_pos hmem, find?_replace]
    by_cases hi : c.index = i
    · rw [if_pos hi, if_pos hi, if_pos (hi ▸ hmem)]
    · rw [if_neg hi, if_neg hi]
  · grind

theorem callAt_write_self (acc : ChatAccumulator) (c : RawCall) : (acc.write c).callAt c.index = c := by
  unfold ChatAccumulator.callAt ChatAccumulator.write
  rw [find?_setCall, if_pos rfl]
  rfl

theorem callAt_write_ne (acc : ChatAccumulator) (h : c.index ≠ i) : (acc.write c).callAt i = acc.callAt i := by
  unfold ChatAccumulator.callAt ChatAccumulator.write
  rw [find?_setCall, if_neg h]

/-- The last of two writes to an index counts. -/
theorem write_write (acc : ChatAccumulator) (h : c'.index = c.index) : (acc.write c).write c' = acc.write c' := by
  have hset : setCall c' (setCall c acc.calls) = setCall c' acc.calls := by
    have hknown : c'.index ∈ (setCall c acc.calls).map RawCall.index := by
      rw [map_index_setCall, h]
      split
      next hmem => exact hmem
      next => exact mem_append_right _ (mem_singleton.mpr rfl)
    rw [setCall, if_pos hknown]
    by_cases hmem : c.index ∈ acc.calls.map RawCall.index
    · rw [setCall, setCall, if_pos hmem, if_pos (h ▸ hmem), List.map_map]
      refine map_congr_left fun d _ => ?_
      show (if (if d.index = c.index then c else d).index = c'.index then c' else _) = _
      by_cases hd : d.index = c.index
      · rw [if_pos hd, if_pos h.symm, if_pos (hd.trans h.symm)]
      · rw [if_neg hd]
    · rw [setCall, setCall, if_neg hmem, if_neg (h ▸ hmem), map_append, map_singleton, if_pos h.symm]
      congr 1
      refine (map_congr_left fun d hd => ?_).trans (map_id _)
      refine if_neg fun heq => hmem ?_
      rw [← h, ← heq]
      exact mem_map.mpr ⟨d, hd, rfl⟩
  unfold ChatAccumulator.write
  rw [hset]

end CallAt

/-! ### A push that is accepted -/

@[simp] theorem fail_eq_ok {α : Type} {message : String} {acc acc' : ChatAccumulator} {a : α} :
    (fail message : Step α) acc = (.ok a, acc') ↔ False := by
  constructor
  · intro h
    cases h
  · exact False.elim

section Notes

variable {maxArgs i : ℕ} {v : Option Body} {acc acc' : ChatAccumulator} {c : RawCall} {u : Unit} {args : Units}

theorem recordOr_eq_ok {b : Body} {message : String} {fields : Fields} :
    recordOr b message acc = (.ok fields, acc') ↔ b.record = some fields ∧ acc = acc' := by
  unfold recordOr
  cases b.record with
  | none => simp
  | some fs => simp

theorem keeps_or {known new : Option Units} : Keeps known new ↔
    ∀ x, new = some x → ¬(known ≠ none ∧ known ≠ some x) := by
  unfold Keeps
  refine forall_congr' fun x => imp_congr_right fun _ => ?_
  rw [not_and_or, not_not, not_not]

theorem keeps_none (known : Option Units) : Keeps known none := fun x hx => (by cases hx)

theorem writeCall_eq_ok (c c' : RawCall) (hc : c'.index = c.index) :
    writeCall c' (acc.write c) = (.ok u, acc') ↔ acc' = acc.write c' := by
  have hwrite : (acc.write c).write c' = acc.write c' := write_write acc hc
  constructor
  · intro h
    exact (Prog.modify_eq_ok.mp h).symm.trans hwrite
  · rintro rfl
    exact Prog.modify_eq_ok.mpr hwrite

theorem noteId_eq_ok (hi : c.index = i) : noteId i v (acc.write c) = (.ok u, acc') ↔
    ∃ id, decodeId v = some id ∧ Keeps c.id id ∧ acc' = acc.write { c with id := id.or c.id } := by
  subst hi
  unfold noteId decodeId
  cases given v with
  | none =>
    constructor
    · intro h
      obtain ⟨-, rfl⟩ := Prog.pure_eq_ok.mp h
      exact ⟨none, rfl, keeps_none _, rfl⟩
    · rintro ⟨id, hid, -, rfl⟩
      cases hid
      exact Prog.pure_eq_ok.mpr ⟨rfl, rfl⟩
  | some b =>
    cases b with
    | str id =>
      simp only [Prog.bind_eq_ok, Prog.gets_eq_ok]
      by_cases hid : id = []
      · simp [hid]
      by_cases hk : c.id ≠ none ∧ c.id ≠ some id
      · simp [hid, hk, keeps_or, callAt_write_self]
      · simp only [hid, if_false, Option.some.injEq]
        constructor
        · rintro ⟨call, _, ⟨rfl, rfl⟩, h⟩
          rw [callAt_write_self, if_neg hk] at h
          refine ⟨_, rfl, keeps_or.mpr fun x hx => ?_, (writeCall_eq_ok c _ (by rfl)).mp h⟩
          cases hx
          exact hk
        · rintro ⟨_, rfl, -, rfl⟩
          refine ⟨_, _, ⟨rfl, rfl⟩, ?_⟩
          rw [callAt_write_self, if_neg hk]
          exact (writeCall_eq_ok c _ (by rfl)).mpr rfl
    | null | bool _ | num _ | arr _ | obj _ => simp

theorem noteName_eq_ok (hi : c.index = i) : noteName i v (acc.write c) = (.ok u, acc') ↔
    ∃ name, decodeName v = some name ∧ Keeps c.name name ∧ acc' = acc.write { c with name := name.or c.name } := by
  subst hi
  unfold noteName decodeName nonEmpty
  cases given v with
  | none =>
    constructor
    · intro h
      obtain ⟨-, rfl⟩ := Prog.pure_eq_ok.mp h
      exact ⟨none, rfl, keeps_none _, rfl⟩
    · rintro ⟨name, hname, -, rfl⟩
      cases hname
      exact Prog.pure_eq_ok.mpr ⟨rfl, rfl⟩
  | some b =>
    cases b with
    | str name =>
      simp only [Prog.bind_eq_ok, Prog.gets_eq_ok, Option.some.injEq]
      by_cases hname : name = []
      · simp only [hname, if_true]
        constructor
        · rintro ⟨call, _, ⟨rfl, rfl⟩, h⟩
          obtain ⟨-, rfl⟩ := Prog.pure_eq_ok.mp h
          exact ⟨none, rfl, keeps_none _, rfl⟩
        · rintro ⟨_, rfl, -, rfl⟩
          exact ⟨_, _, ⟨rfl, rfl⟩, Prog.pure_eq_ok.mpr ⟨rfl, rfl⟩⟩
      by_cases hk : c.name ≠ none ∧ c.name ≠ some name
      · simp [hname, hk, keeps_or, callAt_write_self]
      · simp only [hname, if_false]
        constructor
        · rintro ⟨call, _, ⟨rfl, rfl⟩, h⟩
          rw [callAt_write_self, if_neg hk] at h
          refine ⟨_, rfl, keeps_or.mpr fun x hx => ?_, (writeCall_eq_ok c _ (by rfl)).mp h⟩
          cases hx
          exact hk
        · rintro ⟨_, rfl, -, rfl⟩
          refine ⟨_, _, ⟨rfl, rfl⟩, ?_⟩
          rw [callAt_write_self, if_neg hk]
          exact (writeCall_eq_ok c _ (by rfl)).mpr rfl
    | null | bool _ | num _ | arr _ | obj _ => simp

theorem noteArgs_eq_ok (hi : c.index = i) : noteArgs maxArgs i v (acc.write c) = (.ok args, acc') ↔
    ∃ new, decodeArgs v = some new ∧ Fitting maxArgs c.args new ∧ args = new.getD [] ∧
      acc' = acc.write { c with args := c.args ++ new.getD [] } := by
  subst hi
  unfold noteArgs decodeArgs
  cases given v with
  | none =>
    constructor
    · intro h
      obtain ⟨rfl, rfl⟩ := Prog.pure_eq_ok.mp h
      refine ⟨none, rfl, fun x hx => (by cases hx), rfl, ?_⟩
      rw [getD_none, append_nil]
    · simp_all
  | some b =>
    cases b with
    | str new =>
      simp only [Prog.bind_eq_ok, Prog.gets_eq_ok, Option.some.injEq]
      by_cases hlen : c.args.length + new.length > maxArgs
      · constructor
        · rintro ⟨call, _, ⟨rfl, rfl⟩, h⟩
          rw [callAt_write_self, if_pos hlen] at h
          exact (fail_eq_ok.mp h).elim
        · rintro ⟨_, rfl, hfits, -⟩
          have hle := hfits new rfl
          omega
      · constructor
        · rintro ⟨call, _, ⟨rfl, rfl⟩, h⟩
          rw [callAt_write_self, if_neg hlen] at h
          obtain ⟨_, _, hwrite, h⟩ := Prog.bind_eq_ok.mp h
          obtain ⟨rfl, rfl⟩ := Prog.pure_eq_ok.mp h
          refine ⟨_, rfl, fun x hx => ?_, rfl, (writeCall_eq_ok c _ (by rfl)).mp hwrite⟩
          cases hx
          omega
        · rintro ⟨_, rfl, -, rfl, rfl⟩
          refine ⟨_, _, ⟨rfl, rfl⟩, ?_⟩
          rw [callAt_write_self, if_neg hlen]
          exact Prog.bind_eq_ok.mpr ⟨(), _, (writeCall_eq_ok c _ (by rfl)).mpr rfl, Prog.pure_eq_ok.mpr ⟨rfl, rfl⟩⟩
    | null | bool _ | num _ | arr _ | obj _ => simp

theorem noteFunction_eq_ok (hi : c.index = i) : noteFunction maxArgs i v (acc.write c) = (.ok args, acc') ↔
    ∃ name new, decodeFunction v = some (name, new) ∧ Keeps c.name name ∧ Fitting maxArgs c.args new ∧
      args = new.getD [] ∧ acc' = acc.write { c with name := name.or c.name, args := c.args ++ new.getD [] } := by
  unfold noteFunction decodeFunction
  cases given v with
  | none =>
    constructor
    · intro h
      obtain ⟨rfl, rfl⟩ := Prog.pure_eq_ok.mp h
      refine ⟨none, none, rfl, keeps_none _, fun x hx => (by cases hx), rfl, ?_⟩
      rw [getD_none, append_nil, none_or]
    · rintro ⟨name, new, hnew, -, -, rfl, rfl⟩
      cases hnew
      refine Prog.pure_eq_ok.mpr ⟨rfl, ?_⟩
      rw [getD_none, append_nil, none_or]
  | some fn =>
    simp only [Prog.bind_eq_ok, recordOr_eq_ok]
    cases fn.record with
    | none => simp
    | some fields =>
      constructor
      · rintro ⟨_, _, ⟨hfields, rfl⟩, _, mid, hname, hargs⟩
        cases hfields
        obtain ⟨name, hdname, hkname, rfl⟩ := (noteName_eq_ok hi).mp hname
        obtain ⟨new, hdargs, hfits, rfl, rfl⟩ := (noteArgs_eq_ok (by exact hi)).mp hargs
        refine ⟨name, new, ?_, hkname, hfits, rfl, rfl⟩
        dsimp only
        rw [hdname, hdargs]
      · rintro ⟨name, new, hdecode, hkname, hfits, rfl, rfl⟩
        dsimp only at hdecode
        split at hdecode
        next name' new' hdname hdargs =>
          cases hdecode
          exact ⟨fields, _, ⟨rfl, rfl⟩, (), _, (noteName_eq_ok hi).mpr ⟨name, hdname, hkname, rfl⟩,
            (noteArgs_eq_ok (by exact hi)).mpr ⟨new, hdargs, hfits, rfl, rfl⟩⟩
        next => cases hdecode

end Notes

/-! ### What a whole chunk does -/

section Chunks

variable {maxArgs : ℕ} {acc acc' : ChatAccumulator} {events : List ChatEvent}

variable {v : Option Body}

theorem readIndex_eq_ok {i : ℕ} :
    readIndex v acc = (.ok i, acc') ↔ decodeIndex v = some i ∧ acc = acc' := by
  unfold readIndex decodeIndex
  cases v with
  | none => simp
  | some b =>
    cases b with
    | num n =>
      dsimp only
      cases n.safeFrom 0 with
      | none => simp
      | some k =>
        rw [filter_some]
        by_cases hk : k > 1023
        · have hle : ¬k ≤ 1023 := Nat.not_le.mpr hk
          simp [hk, hle]
        · have hle : k ≤ 1023 := Nat.le_of_not_gt hk
          simp [hk, hle]
    | null | bool _ | str _ | arr _ | obj _ => simp

theorem callAt_addCall (acc : ChatAccumulator) (p : CallPiece) :
    (acc.addCall p).callAt p.index = (acc.callAt p.index).merge p := by
  have hself := callAt_write_self acc ((acc.callAt p.index).merge p)
  rw [show ((acc.callAt p.index).merge p).index = p.index from callAt_index acc p.index] at hself
  exact hself

/-- A delta of a tool call is accepted when it decodes and fits. -/
theorem toolCall_eq_ok {tc : Body} : toolCall maxArgs tc acc = (.ok events, acc') ↔
    ∃ p, decodeCall tc = some p ∧ CallStep maxArgs acc p events acc' := by
  unfold toolCall decodeCall
  simp only [Prog.bind_eq_ok, recordOr_eq_ok]
  cases tc.record with
  | none => simp
  | some fields =>
    dsimp only
    constructor
    · rintro ⟨_, _, ⟨hfields, rfl⟩, i, _, hindex, known, _, hknown, call, _, hcall, _, s₁, hwrite, _, s₂, hid,
        args, s₃, hfn, call', _, hcall', hevents⟩
      cases hfields
      obtain ⟨hdindex, rfl⟩ := readIndex_eq_ok.mp hindex
      obtain ⟨rfl, rfl⟩ := Prog.gets_eq_ok.mp hknown
      obtain ⟨rfl, rfl⟩ := Prog.gets_eq_ok.mp hcall
      obtain rfl := Prog.modify_eq_ok.mp hwrite
      have hi : (acc.callAt i).index = i := callAt_index acc i
      obtain ⟨id, hdid, hkid, rfl⟩ := (noteId_eq_ok hi).mp hid
      obtain ⟨name, new, hdfn, hkname, hfits, rfl, rfl⟩ := (noteFunction_eq_ok (by exact hi)).mp hfn
      obtain ⟨rfl, rfl⟩ := Prog.gets_eq_ok.mp hcall'
      obtain ⟨rfl, rfl⟩ := Prog.pure_eq_ok.mp hevents
      refine ⟨⟨i, id, name, new⟩, ?_, ⟨hkid, hkname, hfits⟩, ?_, rfl⟩
      · rw [hdindex, hdid, hdfn]
      · have hafter := callAt_addCall acc ⟨i, id, name, new⟩
        unfold ChatAccumulator.callEvents
        rw [← hafter]
        simp [ChatAccumulator.addCall, RawCall.merge]
    · rintro ⟨p, hdecode, ⟨⟨hkid, hkname, hfits⟩, rfl, rfl⟩⟩
      split at hdecode
      next i id name new hdindex hdid hdfn =>
        cases hdecode
        have hi : (acc.callAt i).index = i := callAt_index acc i
        refine ⟨fields, acc, ⟨rfl, rfl⟩, i, acc, readIndex_eq_ok.mpr ⟨hdindex, rfl⟩, _, acc,
          Prog.gets_eq_ok.mpr ⟨rfl, rfl⟩, _, acc, Prog.gets_eq_ok.mpr ⟨rfl, rfl⟩, (), _,
          Prog.modify_eq_ok.mpr rfl, (), _, (noteId_eq_ok hi).mpr ⟨id, hdid, hkid, rfl⟩, _, _,
          (noteFunction_eq_ok (by exact hi)).mpr ⟨name, new, hdfn, hkname, hfits, rfl, rfl⟩, _, _,
          Prog.gets_eq_ok.mpr ⟨rfl, rfl⟩, Prog.pure_eq_ok.mpr ⟨?_, rfl⟩⟩
        have hafter := callAt_addCall acc ⟨i, id, name, new⟩
        unfold ChatAccumulator.callEvents
        rw [← hafter]
        simp [ChatAccumulator.addCall, RawCall.merge]
      next => cases hdecode

theorem toolCalls_eq_ok : toolCalls maxArgs v acc = (.ok events, acc') ↔
    ∃ ps calls, decodeCalls v = some ps ∧ Steps (CallStep maxArgs) acc ps calls acc' ∧ events = calls.flatten := by
  have hstep : ∀ s tc b t, toolCall maxArgs tc s = (.ok b, t) ↔
      ∃ p, decodeCall tc = some p ∧ CallStep maxArgs s p b t := fun _ _ _ _ => toolCall_eq_ok
  unfold toolCalls decodeCalls
  cases given v with
  | none =>
    constructor
    · intro h
      obtain ⟨rfl, rfl⟩ := Prog.pure_eq_ok.mp h
      exact ⟨[], [], rfl, .nil acc, rfl⟩
    · rintro ⟨ps, calls, hps, hsteps, rfl⟩
      cases hps
      cases hsteps
      exact Prog.pure_eq_ok.mpr ⟨rfl, rfl⟩
  | some b =>
    cases b with
    | arr tcs =>
      simp only [Prog.bind_eq_ok, Prog.traverse_eq_ok]
      constructor
      · rintro ⟨calls, mid, hsteps, h⟩
        obtain ⟨rfl, rfl⟩ := Prog.pure_eq_ok.mp h
        obtain ⟨ps, hps, hsteps⟩ := (Steps.decoded hstep).mp hsteps
        exact ⟨ps, calls, hps, hsteps, rfl⟩
      · rintro ⟨ps, calls, hps, hsteps, rfl⟩
        exact ⟨calls, acc', (Steps.decoded hstep).mpr ⟨ps, hps, hsteps⟩, Prog.pure_eq_ok.mpr ⟨rfl, rfl⟩⟩
    | null | bool _ | num _ | str _ | obj _ => simp

theorem stringOr_eq_ok {message : String} {s : Units} :
    stringOr v message acc = (.ok s, acc') ↔ decodeText v = some s ∧ acc = acc' := by
  unfold stringOr decodeText
  cases given v with
  | none => simp
  | some b => cases b <;> simp

variable {ps : List CallPiece}

/-- Tool calls are given in an array, or not at all. -/
theorem decodeCalls_eq_nil (h : decodeCalls v = some ps) : ps = [] ↔ (array v).getD [] = [] := by
  unfold decodeCalls at h
  cases v with
  | none =>
    cases h
    simp [array]
  | some b =>
    cases b with
    | null =>
      cases h
      simp [array]
    | arr tcs =>
      have hall : decodeAll decodeCall tcs = some ps := h
      cases tcs with
      | nil =>
        cases hall
        simp [array]
      | cons tc tcs =>
        obtain ⟨p, ps', -, -, rfl⟩ := decodeAll_cons.mp hall
        simp [array]
    | bool _ => cases h
    | num _ => cases h
    | str _ => cases h
    | obj _ => cases h

theorem foldDelta_eq_ok {d : Fields} : foldDelta maxArgs d acc = (.ok events, acc') ↔
    ∃ p calls, decodeDelta d = some p ∧ (acc.raw ≠ none → p.isEmpty) ∧
      Steps (CallStep maxArgs) (acc.addTexts p) p.calls calls acc' ∧ events = p.textEvents ++ calls.flatten := by
  unfold foldDelta decodeDelta
  simp only [Prog.bind_eq_ok, stringOr_eq_ok]
  constructor
  · rintro ⟨_, _, ⟨hrole, rfl⟩, content, _, ⟨hcontent, rfl⟩, refusal, _, ⟨hrefusal, rfl⟩, reasoning, _,
      ⟨hreasoning, rfl⟩, _, _, hraw, h⟩
    obtain ⟨rfl, rfl⟩ := Prog.gets_eq_ok.mp hraw
    split at h
    · exact (fail_eq_ok.mp h).elim
    next hany =>
      obtain ⟨texts, s₁, htexts, h⟩ := Prog.bind_eq_ok.mp h
      obtain ⟨calls, s₂, hcalls, h⟩ := Prog.bind_eq_ok.mp h
      obtain ⟨rfl, rfl⟩ := Prog.pure_eq_ok.mp h
      obtain ⟨_, _, hmodify, htexts⟩ := Prog.bind_eq_ok.mp htexts
      obtain rfl := Prog.modify_eq_ok.mp hmodify
      obtain ⟨rfl, rfl⟩ := Prog.pure_eq_ok.mp htexts
      obtain ⟨ps, events, hps, hsteps, rfl⟩ := toolCalls_eq_ok.mp hcalls
      refine ⟨{ content, reasoning, refusal, calls := ps }, events, ?_, fun hfinished => ?_, hsteps, rfl⟩
      · rw [hrole, hcontent, hrefusal, hreasoning, hps]
      · have hnone : ¬(content ≠ [] ∨ refusal ≠ [] ∨ reasoning ≠ [] ∨
            (array (d.lookup "tool_calls")).getD [] ≠ []) := fun hsome => hany ⟨hsome, hfinished⟩
        simp only [not_or, not_not] at hnone
        exact ⟨hnone.1, hnone.2.1, hnone.2.2.1, (decodeCalls_eq_nil hps).mpr hnone.2.2.2⟩
  · rintro ⟨p, calls, hdecode, hempty, hsteps, rfl⟩
    split at hdecode
    next role content refusal reasoning ps hrole hcontent hrefusal hreasoning hps =>
      cases hdecode
      refine ⟨role, acc, ⟨hrole, rfl⟩, content, acc, ⟨hcontent, rfl⟩, refusal, acc, ⟨hrefusal, rfl⟩, reasoning, acc,
        ⟨hreasoning, rfl⟩, acc.raw, acc, Prog.gets_eq_ok.mpr ⟨rfl, rfl⟩, ?_⟩
      rw [if_neg]
      · refine Prog.bind_eq_ok.mpr ⟨_, _, Prog.bind_eq_ok.mpr ⟨(), _, Prog.modify_eq_ok.mpr rfl,
          Prog.pure_eq_ok.mpr ⟨rfl, rfl⟩⟩, ?_⟩
        refine Prog.bind_eq_ok.mpr ⟨_, _, toolCalls_eq_ok.mpr ⟨ps, calls, hps, hsteps, rfl⟩, ?_⟩
        exact Prog.pure_eq_ok.mpr ⟨rfl, rfl⟩
      · rintro ⟨hsome, hfinished⟩
        obtain ⟨h1, h2, h3, h4⟩ := hempty hfinished
        have h5 := (decodeCalls_eq_nil hps).mp h4
        simp only [h5] at hsome
        simp_all
    next => cases hdecode

/-- The reason to finish does not change. -/
theorem addFinish_of_raw {raw : Units} (h : acc.raw = some raw) (fr : Option Units) : acc.addFinish fr = acc := by
  unfold ChatAccumulator.addFinish
  rw [h, some_or, ← h]

theorem noteFinish_eq_ok : noteFinish v acc = (.ok events, acc') ↔
    ∃ fr, decodeArgs v = some fr ∧ Keeps acc.raw fr ∧ events = acc.finishEvents fr ∧ acc' = acc.addFinish fr := by
  unfold noteFinish decodeArgs
  cases given v with
  | none =>
    constructor
    · intro h
      obtain ⟨rfl, rfl⟩ := Prog.pure_eq_ok.mp h
      refine ⟨none, rfl, keeps_none _, ?_, ?_⟩
      · cases hraw : acc.raw <;> simp [ChatAccumulator.finishEvents, hraw]
      · simp [ChatAccumulator.addFinish]
    · rintro ⟨fr, hfr, -, rfl, rfl⟩
      cases hfr
      refine Prog.pure_eq_ok.mpr ⟨?_, ?_⟩
      · cases hraw : acc.raw <;> simp [ChatAccumulator.finishEvents, hraw]
      · simp [ChatAccumulator.addFinish]
  | some b =>
    cases b with
    | str fr =>
      simp only [Prog.bind_eq_ok, Prog.gets_eq_ok, Option.some.injEq]
      cases hraw : acc.raw with
      | none =>
        constructor
        · rintro ⟨raw, _, ⟨rfl, rfl⟩, h⟩
          obtain ⟨_, _, hmodify, h⟩ := Prog.bind_eq_ok.mp h
          obtain rfl := Prog.modify_eq_ok.mp hmodify
          obtain ⟨rfl, rfl⟩ := Prog.pure_eq_ok.mp h
          refine ⟨some fr, rfl, fun _ _ => .inl rfl, ?_, ?_⟩
          · simp [ChatAccumulator.finishEvents, hraw]
          · simp [ChatAccumulator.addFinish, hraw]
        · rintro ⟨_, rfl, -, rfl, rfl⟩
          refine ⟨none, acc, ⟨rfl, rfl⟩, ?_⟩
          refine Prog.bind_eq_ok.mpr ⟨(), _, Prog.modify_eq_ok.mpr rfl, Prog.pure_eq_ok.mpr ⟨?_, ?_⟩⟩
          · simp [ChatAccumulator.finishEvents, hraw]
          · simp [ChatAccumulator.addFinish, hraw]
      | some raw =>
        constructor
        · rintro ⟨_, _, ⟨rfl, rfl⟩, h⟩
          dsimp only at h
          split at h
          · exact (fail_eq_ok.mp h).elim
          next hsame =>
            obtain ⟨rfl, rfl⟩ := Prog.pure_eq_ok.mp h
            refine ⟨some fr, rfl, fun x hx => .inr ?_, ?_, ?_⟩
            · rw [not_not.mp hsame]
              exact hx
            · simp [ChatAccumulator.finishEvents, hraw]
            · exact (addFinish_of_raw hraw _).symm
        · rintro ⟨_, rfl, hkeeps, rfl, rfl⟩
          refine ⟨some raw, acc, ⟨rfl, rfl⟩, ?_⟩
          have hsame : raw = fr := by
            obtain hno | hsome := hkeeps fr rfl
            · cases hno
            · exact Option.some.inj hsome
          dsimp only
          rw [if_neg (not_not.mpr hsame)]
          refine Prog.pure_eq_ok.mpr ⟨?_, (addFinish_of_raw hraw _).symm⟩
          simp [ChatAccumulator.finishEvents, hraw]
    | null | bool _ | num _ | arr _ | obj _ => simp

theorem CallStep.raw {p : CallPiece} (h : CallStep maxArgs acc p events acc') : acc'.raw = acc.raw := by
  rw [h.after]
  rfl

theorem raw_of_steps {calls : List (List ChatEvent)} (h : Steps (CallStep maxArgs) acc ps calls acc') :
    acc'.raw = acc.raw := by
  induction h with
  | nil s => rfl
  | cons hstep _ ih => exact ih.trans hstep.raw

theorem choiceDelta_eq_ok : choiceDelta maxArgs v acc = (.ok events, acc') ↔
    ∃ p calls, decodeChoiceDelta v = some p ∧ (acc.raw ≠ none → p.isEmpty) ∧
      Steps (CallStep maxArgs) (acc.addTexts p) p.calls calls acc' ∧ events = p.textEvents ++ calls.flatten := by
  unfold choiceDelta decodeChoiceDelta
  cases given v with
  | none =>
    have hsame : acc.addTexts {} = acc := by simp [ChatAccumulator.addTexts]
    constructor
    · intro h
      obtain ⟨rfl, rfl⟩ := Prog.pure_eq_ok.mp h
      refine ⟨{}, [], rfl, fun _ => ⟨rfl, rfl, rfl, rfl⟩, ?_, rfl⟩
      rw [hsame]
      exact .nil acc
    · rintro ⟨p, calls, hp, -, hsteps, rfl⟩
      cases hp
      rw [hsame] at hsteps
      cases hsteps
      exact Prog.pure_eq_ok.mpr ⟨rfl, rfl⟩
  | some delta =>
    simp only [Prog.bind_eq_ok, recordOr_eq_ok]
    cases delta.record with
    | none => simp
    | some d =>
      constructor
      · rintro ⟨_, _, ⟨hd, rfl⟩, h⟩
        cases hd
        exact foldDelta_eq_ok.mp h
      · intro h
        exact ⟨d, acc, ⟨rfl, rfl⟩, foldDelta_eq_ok.mpr h⟩

theorem foldChoice_eq_ok {c : Body} : foldChoice maxArgs c acc = (.ok events, acc') ↔
    ∃ p, decodeChoice c = some p ∧ PieceStep maxArgs acc p events acc' := by
  unfold foldChoice decodeChoice
  simp only [Prog.bind_eq_ok, recordOr_eq_ok]
  cases c.record with
  | none => simp
  | some fields =>
    dsimp only
    by_cases hfirst : firstChoice (fields.lookup "index") = true
    · rw [if_pos hfirst]
      constructor
      · rintro ⟨_, _, ⟨hfields, rfl⟩, h⟩
        cases hfields
        rw [if_pos hfirst] at h
        obtain ⟨texts, mid, hdelta, h⟩ := Prog.bind_eq_ok.mp h
        obtain ⟨ends, _, hfinish, h⟩ := Prog.bind_eq_ok.mp h
        obtain ⟨rfl, rfl⟩ := Prog.pure_eq_ok.mp h
        obtain ⟨p, calls, hp, hempty, hsteps, rfl⟩ := choiceDelta_eq_ok.mp hdelta
        obtain ⟨fr, hfr, hkeeps, rfl, rfl⟩ := noteFinish_eq_ok.mp hfinish
        have hraw : mid.raw = acc.raw := (raw_of_steps hsteps :)
        refine ⟨{ p with finish := fr }, ?_, calls, mid, hempty, hraw ▸ hkeeps, hsteps, rfl, rfl⟩
        rw [hp, hfr]
      · rintro ⟨p, hdecode, calls, mid, hempty, hkeeps, hsteps, rfl, rfl⟩
        split at hdecode
        next piece fr hp hfr =>
          cases hdecode
          have hraw : mid.raw = acc.raw := (raw_of_steps hsteps :)
          refine ⟨fields, acc, ⟨rfl, rfl⟩, ?_⟩
          rw [if_pos hfirst]
          refine Prog.bind_eq_ok.mpr ⟨_, mid, choiceDelta_eq_ok.mpr ⟨piece, calls, hp, hempty, hsteps, rfl⟩, ?_⟩
          refine Prog.bind_eq_ok.mpr ⟨_, _, noteFinish_eq_ok.mpr ⟨fr, hfr, hraw ▸ hkeeps, rfl, rfl⟩, ?_⟩
          exact Prog.pure_eq_ok.mpr ⟨rfl, rfl⟩
        next => cases hdecode
    · simp [hfirst]

theorem noteUsage_eq_ok {u : Unit} : noteUsage v acc = (.ok u, acc') ↔
    ∃ usage, decodeUsage v = some usage ∧ acc' = { acc with usage := usage.or acc.usage } := by
  unfold noteUsage decodeUsage bodyUsage
  cases given v with
  | none =>
    constructor
    · intro h
      obtain ⟨-, rfl⟩ := Prog.pure_eq_ok.mp h
      exact ⟨none, rfl, rfl⟩
    · rintro ⟨usage, husage, rfl⟩
      cases husage
      exact Prog.pure_eq_ok.mpr ⟨rfl, rfl⟩
  | some b =>
    dsimp only
    rw [Prog.bind_eq_ok]
    cases parseUsage b with
    | error e =>
      constructor
      · rintro ⟨_, _, h, -⟩
        cases h
      · rintro ⟨usage, husage, -⟩
        cases husage
    | ok usage =>
      constructor
      · rintro ⟨_, _, h, hmodify⟩
        obtain ⟨heq, rfl⟩ := Prog.ofExcept_eq_ok.mp h
        cases heq
        exact ⟨_, rfl, (Prog.modify_eq_ok.mp hmodify).symm⟩
      · rintro ⟨_, husage, rfl⟩
        cases husage
        exact ⟨usage, acc, Prog.ofExcept_eq_ok.mpr ⟨rfl, rfl⟩, Prog.modify_eq_ok.mpr rfl⟩

theorem foldChoices_eq_ok {choices : Option (List Body)} : foldChoices maxArgs choices acc = (.ok events, acc') ↔
    ∃ ps pieces, decodeAll decodeChoice (choices.getD []) = some ps ∧
      Steps (PieceStep maxArgs) acc ps pieces acc' ∧ events = pieces.flatten := by
  have hstep : ∀ s c b t, foldChoice maxArgs c s = (.ok b, t) ↔
      ∃ p, decodeChoice c = some p ∧ PieceStep maxArgs s p b t := fun _ _ _ _ => foldChoice_eq_ok
  cases choices with
  | none =>
    constructor
    · intro h
      obtain ⟨rfl, rfl⟩ := Prog.pure_eq_ok.mp h
      exact ⟨[], [], rfl, .nil acc, rfl⟩
    · rintro ⟨ps, pieces, hps, hsteps, rfl⟩
      cases hps
      cases hsteps
      exact Prog.pure_eq_ok.mpr ⟨rfl, rfl⟩
  | some choices =>
    unfold foldChoices
    simp only [Prog.bind_eq_ok, Prog.traverse_eq_ok, getD_some]
    constructor
    · rintro ⟨pieces, mid, hsteps, h⟩
      obtain ⟨rfl, rfl⟩ := Prog.pure_eq_ok.mp h
      obtain ⟨ps, hps, hsteps⟩ := (Steps.decoded hstep).mp hsteps
      exact ⟨ps, pieces, hps, hsteps, rfl⟩
    · rintro ⟨ps, pieces, hps, hsteps, rfl⟩
      exact ⟨pieces, acc', (Steps.decoded hstep).mpr ⟨ps, hps, hsteps⟩, Prog.pure_eq_ok.mpr ⟨rfl, rfl⟩⟩

theorem readMeta_or (fields : Fields) (m : ResponseMeta) : readMeta fields m = m.or (readMeta fields {}) := by
  unfold readMeta ResponseMeta.or
  simp

/-- A push is accepted when the chunk decodes and its pieces fit, in their order. -/
theorem push_eq_ok {chunk : Body} : push maxArgs chunk acc = (.ok events, acc') ↔
    ∃ c, decodeChunk chunk = some c ∧ ChunkStep maxArgs acc c events acc' := by
  unfold push decodeChunk
  simp only [Prog.bind_eq_ok, recordOr_eq_ok]
  cases chunk.record with
  | none => simp
  | some fields =>
    dsimp only
    cases herror : given (fields.lookup "error") with
    | some e => simp_all
    | none =>
      by_cases hneither : array (fields.lookup "choices") = none ∧ (fields.lookup "usage").bind record = none
      · constructor
        · rintro ⟨_, _, ⟨hfields, rfl⟩, h⟩
          cases hfields
          rw [herror] at h
          obtain ⟨_, _, -, h⟩ := Prog.bind_eq_ok.mp h
          rw [if_pos hneither] at h
          exact (fail_eq_ok.mp h).elim
        · rintro ⟨c, hc, -⟩
          simp [hneither] at hc
      · rw [if_pos ⟨rfl, hneither⟩]
        constructor
        · rintro ⟨_, _, ⟨hfields, rfl⟩, h⟩
          cases hfields
          rw [herror] at h
          obtain ⟨_, _, hmeta, h⟩ := Prog.bind_eq_ok.mp h
          obtain rfl := Prog.modify_eq_ok.mp hmeta
          rw [if_neg hneither] at h
          obtain ⟨_, mid, hchoices, h⟩ := Prog.bind_eq_ok.mp h
          obtain ⟨_, _, husage, h⟩ := Prog.bind_eq_ok.mp h
          obtain ⟨rfl, rfl⟩ := Prog.pure_eq_ok.mp h
          obtain ⟨ps, pieces, hps, hsteps, rfl⟩ := foldChoices_eq_ok.mp hchoices
          obtain ⟨usage, hdusage, rfl⟩ := noteUsage_eq_ok.mp husage
          rw [readMeta_or] at hsteps
          refine ⟨⟨readMeta fields {}, ps, usage⟩, ?_, pieces, mid, hsteps, rfl, rfl⟩
          rw [hps, hdusage]
        · rintro ⟨c, hdecode, pieces, mid, hsteps, rfl, rfl⟩
          split at hdecode
          next ps usage hps hdusage =>
            cases hdecode
            refine ⟨fields, acc, ⟨rfl, rfl⟩, ?_⟩
            rw [herror]
            refine Prog.bind_eq_ok.mpr ⟨(), _, Prog.modify_eq_ok.mpr rfl, ?_⟩
            rw [if_neg hneither, readMeta_or]
            refine Prog.bind_eq_ok.mpr ⟨_, mid, foldChoices_eq_ok.mpr ⟨ps, pieces, hps, hsteps, rfl⟩, ?_⟩
            refine Prog.bind_eq_ok.mpr ⟨(), _, noteUsage_eq_ok.mpr ⟨usage, hdusage, rfl⟩, ?_⟩
            exact Prog.pure_eq_ok.mpr ⟨rfl, rfl⟩
          next => cases hdecode

end Chunks

end Plur1bus.Providers
