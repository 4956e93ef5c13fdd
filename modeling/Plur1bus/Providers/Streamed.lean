import Mathlib.Data.List.Perm.Basic
import Plur1bus.Providers.Events

/-!
A stream that was cut from a whole answer. The pieces of the chunks, put together, are the
texts and the arguments of the answer; what is said once may be repeated and is never
contradicted. Each piece then fits what is known, because all that is known is part of the
answer, and at the end of the stream the accumulator holds the parts that the body has.
-/

namespace Plur1bus.Providers

open Program Value List Option

/-- What is said of `whole` is said right, and it is said. -/
structure Agrees {α : Type} (whole : Option α) (parts : List (Option α)) : Prop where
  right : ∀ x ∈ parts, x = none ∨ x = whole
  said : whole ≠ none → whole ∈ parts

section Agrees

variable {α : Type} {whole a b : Option α} {parts : List (Option α)}

theorem Agrees.or (h : Agrees whole (a :: b :: parts)) : Agrees whole (a.or b :: parts) := by
  have ha := h.right a mem_cons_self
  have hb := h.right b (mem_cons_of_mem _ mem_cons_self)
  constructor
  · intro x hx
    obtain rfl | hx := mem_cons.mp hx
    · cases a with
      | none => exact hb
      | some y => exact ha
    · exact h.right x (mem_cons_of_mem _ (mem_cons_of_mem _ hx))
  · intro hne
    have hmem := h.said hne
    rw [mem_cons, mem_cons] at hmem
    obtain rfl | rfl | hmem := hmem
    · cases whole with
      | none => exact absurd rfl hne
      | some y => exact mem_cons_self
    · grind
    · exact mem_cons_of_mem _ hmem

theorem Agrees.swap (h : Agrees whole (a :: b :: parts)) : Agrees whole (b :: a :: parts) := by
  have hperm : (b :: a :: parts).Perm (a :: b :: parts) := List.Perm.swap a b parts
  exact ⟨fun x hx => h.right x (hperm.mem_iff.mp hx), fun hne => hperm.mem_iff.mpr (h.said hne)⟩

theorem Agrees.eq (h : Agrees whole [a]) : a = whole := by
  cases whole with
  | none => exact (h.right a mem_cons_self).elim id id
  | some x => exact (mem_singleton.mp (h.said (some_ne_none x))).symm

theorem Agrees.start (h : Agrees whole parts) : Agrees whole (none :: parts) :=
  ⟨fun x hx => (mem_cons.mp hx).elim .inl (h.right x), fun hne => mem_cons_of_mem _ (h.said hne)⟩

/-- Two parts of one thing do not contradict each other. -/
theorem Agrees.keeps {whole known new : Option Units} {parts : List (Option Units)}
    (h : Agrees whole (known :: new :: parts)) : Keeps known new := by
  intro x hx
  obtain hno | heq := h.right new (mem_cons_of_mem _ mem_cons_self)
  · cases hx.symm.trans hno
  · obtain hknown | hknown := h.right known mem_cons_self
    · exact .inl hknown
    · exact .inr (hknown.trans (heq.symm.trans hx))

end Agrees

/-! ### Cutting -/

/-- The pieces of one call. -/
def piecesOf (i : ℕ) (ps : List CallPiece) : List CallPiece := ps.filter fun p => p.index = i

def argsOf (i : ℕ) (ps : List CallPiece) : Units := ((piecesOf i ps).map fun p => p.args.getD []).flatten

/-- The pieces are the calls cut up: in any order, with the arguments at any places. -/
structure CutsCalls (calls : List RawCall) (ps : List CallPiece) : Prop where
  index : ∀ p ∈ ps, p.index < calls.length
  args : ∀ i w, calls[i]? = some w → argsOf i ps = w.args
  id : ∀ i w, calls[i]? = some w → Agrees w.id ((piecesOf i ps).map CallPiece.id)
  name : ∀ i w, calls[i]? = some w → Agrees w.name ((piecesOf i ps).map CallPiece.name)

/-- Nothing follows the reason to finish. -/
def FinishLast (ps : List Piece) : Prop :=
  ∀ pre p post, ps = pre ++ p :: post → p.finish ≠ none → ∀ q ∈ post, q.isEmpty

/-- The pieces are the choice cut up. -/
structure CutsChoice (whole : ResultParts) (ps : List Piece) : Prop where
  text : (ps.map Piece.content).flatten = whole.text
  reasoning : (ps.map Piece.reasoning).flatten = whole.reasoning
  refusal : (ps.map Piece.refusal).flatten = whole.refusal
  calls : CutsCalls whole.calls (ps.flatMap Piece.calls)
  finish : Agrees (some whole.rawFinish) (ps.map Piece.finish)
  last : FinishLast ps

/-- The chunks are the answer cut up. -/
structure Cuts (whole : ResultParts) (cs : List ChunkPiece) : Prop where
  choice : CutsChoice whole (cs.flatMap ChunkPiece.pieces)
  id : Agrees whole.metadata.id (cs.map fun c => c.metadata.id)
  model : Agrees whole.metadata.model (cs.map fun c => c.metadata.model)
  systemFingerprint : Agrees whole.metadata.systemFingerprint (cs.map fun c => c.metadata.systemFingerprint)
  usage : Agrees whole.usage (cs.map ChunkPiece.usage)

/-- A stream of chunks that an answer could have been sent as. -/
def CutOf (whole : ResultParts) (chunks : List Body) : Prop :=
  ∃ cs, decodeAll decodeChunk chunks = some cs ∧ Cuts whole cs

/-! ### What is ahead -/

variable {maxArgs : ℕ} {whole : ResultParts} {ws : List RawCall} {acc acc' : ChatAccumulator}

/-- The calls as they are and the pieces ahead make the whole calls. -/
structure CallsAhead (ws : List RawCall) (rest : List CallPiece) (acc : ChatAccumulator) : Prop where
  nodup : (acc.calls.map RawCall.index).Nodup
  known : ∀ i ∈ acc.calls.map RawCall.index, i < ws.length
  index : ∀ p ∈ rest, p.index < ws.length
  args : ∀ i w, ws[i]? = some w → (acc.callAt i).args ++ argsOf i rest = w.args
  id : ∀ i w, ws[i]? = some w → Agrees w.id ((acc.callAt i).id :: (piecesOf i rest).map CallPiece.id)
  name : ∀ i w, ws[i]? = some w → Agrees w.name ((acc.callAt i).name :: (piecesOf i rest).map CallPiece.name)

theorem CallsAhead.congr {rest : List CallPiece} (h : CallsAhead ws rest acc) (hcalls : acc'.calls = acc.calls) :
    CallsAhead ws rest acc' := by
  have hat : ∀ i, acc'.callAt i = acc.callAt i := by
    intro i
    unfold ChatAccumulator.callAt
    rw [hcalls]
  refine ⟨hcalls ▸ h.nodup, hcalls ▸ h.known, h.index, ?_, ?_, ?_⟩
  · exact fun i w hw => hat i ▸ h.args i w hw
  · exact fun i w hw => hat i ▸ h.id i w hw
  · exact fun i w hw => hat i ▸ h.name i w hw

theorem piecesOf_cons_self (p : CallPiece) (rest : List CallPiece) :
    piecesOf p.index (p :: rest) = p :: piecesOf p.index rest := by simp [piecesOf]

variable {p : CallPiece} {i : ℕ}

theorem piecesOf_cons_ne (h : p.index ≠ i) (rest : List CallPiece) :
    piecesOf i (p :: rest) = piecesOf i rest := by simp [piecesOf, h]

/-- The next piece of a call fits, and what follows it is still ahead. -/
theorem CallsAhead.step {rest : List CallPiece} (hmax : ∀ w ∈ ws, w.args.length ≤ maxArgs)
    (h : CallsAhead ws (p :: rest) acc) : acc.Fits maxArgs p ∧ CallsAhead ws rest (acc.addCall p) := by
  have hlt : p.index < ws.length := h.index p mem_cons_self
  have hw : ws[p.index]? = some ws[p.index] := List.getElem?_eq_getElem hlt
  have hindex : ((acc.callAt p.index).merge p).index = p.index := callAt_index acc p.index
  have hother : ∀ i, p.index ≠ i → (acc.addCall p).callAt i = acc.callAt i := fun i hi =>
    callAt_write_ne acc (hindex.trans_ne hi)
  have hargs := h.args _ _ hw
  have hid := h.id _ _ hw
  have hname := h.name _ _ hw
  rw [argsOf, piecesOf_cons_self, map_cons, flatten_cons, ← append_assoc] at hargs
  rw [piecesOf_cons_self, map_cons] at hid hname
  refine ⟨⟨hid.keeps, hname.keeps, ?_⟩, ?_, ?_, ?_, ?_, ?_, ?_⟩
  · intro x hx
    have hlen := congrArg List.length hargs
    have hle := hmax _ (getElem_mem hlt)
    rw [hx, getD_some, length_append, length_append] at hlen
    omega
  · show ((setCall _ acc.calls).map RawCall.index).Nodup
    rw [map_index_setCall, hindex]
    split
    · exact h.nodup
    next hnew =>
      rw [nodup_append]
      refine ⟨h.nodup, nodup_singleton _, ?_⟩
      rintro a ha b hb rfl
      rw [mem_singleton.mp hb] at ha
      exact hnew ha
  · intro i hi
    change i ∈ (setCall _ acc.calls).map RawCall.index at hi
    rw [map_index_setCall, hindex] at hi
    split at hi
    · exact h.known i hi
    · obtain hi | hi := mem_append.mp hi
      · exact h.known i hi
      · rw [mem_singleton.mp hi]
        exact hlt
  · exact fun q hq => h.index q (mem_cons_of_mem _ hq)
  · intro i w hiw
    by_cases hi : p.index = i
    · subst hi
      cases hw.symm.trans hiw
      rw [callAt_addCall]
      exact hargs
    · rw [hother i hi]
      have hold := h.args i w hiw
      rw [argsOf, piecesOf_cons_ne hi] at hold
      exact hold
  · intro i w hiw
    by_cases hi : p.index = i
    · subst hi
      cases hw.symm.trans hiw
      rw [callAt_addCall]
      exact hid.swap.or
    · rw [hother i hi]
      have hold := h.id i w hiw
      rw [piecesOf_cons_ne hi] at hold
      exact hold
  · intro i w hiw
    by_cases hi : p.index = i
    · subst hi
      cases hw.symm.trans hiw
      rw [callAt_addCall]
      exact hname.swap.or
    · rw [hother i hi]
      have hold := h.name i w hiw
      rw [piecesOf_cons_ne hi] at hold
      exact hold

/-- The rest of the choice, and what is known of it, make the whole. -/
structure Ahead (whole : ResultParts) (rest : List Piece) (acc : ChatAccumulator) : Prop where
  text : acc.text ++ (rest.map Piece.content).flatten = whole.text
  reasoning : acc.reasoning ++ (rest.map Piece.reasoning).flatten = whole.reasoning
  refusal : acc.refusal ++ (rest.map Piece.refusal).flatten = whole.refusal
  calls : CallsAhead whole.calls (rest.flatMap Piece.calls) acc
  finish : Agrees (some whole.rawFinish) (acc.raw :: rest.map Piece.finish)
  last : FinishLast rest
  ended : acc.raw ≠ none → ∀ q ∈ rest, q.isEmpty

variable {rest : List Piece}

theorem FinishLast.tail {p : Piece} (h : FinishLast (p :: rest)) : FinishLast rest := by
  intro pre q post heq hq
  refine h (p :: pre) q post ?_ hq
  rw [heq]
  rfl

/-- All but the calls is the same. -/
structure SameBut (acc acc' : ChatAccumulator) : Prop where
  text : acc'.text = acc.text
  reasoning : acc'.reasoning = acc.reasoning
  refusal : acc'.refusal = acc.refusal
  raw : acc'.raw = acc.raw
  metadata : acc'.metadata = acc.metadata
  usage : acc'.usage = acc.usage

/-- The calls of a piece fit. -/
theorem CallsAhead.steps {ps later : List CallPiece} (hmax : ∀ w ∈ ws, w.args.length ≤ maxArgs)
    (h : CallsAhead ws (ps ++ later) acc) :
    ∃ calls mid, Steps (CallStep maxArgs) acc ps calls mid ∧ CallsAhead ws later mid ∧ SameBut acc mid := by
  have hsteps := Steps.exists_of (R := CallStep maxArgs)
    (J := fun s ps => CallsAhead ws (ps ++ later) s ∧ SameBut acc s)
    (fun s p ps hJ => by
      obtain ⟨hfits, hnext⟩ := hJ.1.step hmax
      exact ⟨s.callEvents p, s.addCall p, ⟨hfits, rfl, rfl⟩, hnext,
        ⟨hJ.2.text, hJ.2.reasoning, hJ.2.refusal, hJ.2.raw, hJ.2.metadata, hJ.2.usage⟩⟩)
    ⟨h, rfl, rfl, rfl, rfl, rfl, rfl⟩
  obtain ⟨calls, mid, hsteps, hend, hsame⟩ := hsteps
  exact ⟨calls, mid, hsteps, hend, hsame⟩

/-- The next piece fits, and what follows it is still ahead. -/
theorem Ahead.step {p : Piece} (hmax : ∀ w ∈ whole.calls, w.args.length ≤ maxArgs)
    (h : Ahead whole (p :: rest) acc) :
    ∃ events acc', PieceStep maxArgs acc p events acc' ∧ Ahead whole rest acc' ∧
      acc'.metadata = acc.metadata ∧ acc'.usage = acc.usage := by
  have hcalls : CallsAhead whole.calls (p.calls ++ rest.flatMap Piece.calls) (acc.addTexts p) :=
    h.calls.congr rfl
  obtain ⟨calls, mid, hsteps, hlater, hsame⟩ := hcalls.steps hmax
  have hfinish := h.finish
  rw [map_cons] at hfinish
  -- Taking in the calls leaves the rest alone.
  have htext : mid.text = acc.text ++ p.content := hsame.text
  have hreasoning : mid.reasoning = acc.reasoning ++ p.reasoning := hsame.reasoning
  have hrefusal : mid.refusal = acc.refusal ++ p.refusal := hsame.refusal
  have hraw : mid.raw = acc.raw := hsame.raw
  refine ⟨_, mid.addFinish p.finish, ⟨calls, mid, fun hne => h.ended hne p mem_cons_self, hfinish.keeps, hsteps,
    rfl, rfl⟩, ⟨?_, ?_, ?_, hlater.congr rfl, ?_, h.last.tail, ?_⟩, ?_, ?_⟩
  · show mid.text ++ _ = _
    rw [htext, append_assoc, ← h.text]
    rfl
  · show mid.reasoning ++ _ = _
    rw [hreasoning, append_assoc, ← h.reasoning]
    rfl
  · show mid.refusal ++ _ = _
    rw [hrefusal, append_assoc, ← h.refusal]
    rfl
  · show Agrees _ (mid.raw.or p.finish :: _)
    rw [hraw]
    exact hfinish.or
  · intro hne q hq
    change mid.raw.or p.finish ≠ none at hne
    rw [hraw] at hne
    by_cases hacc : acc.raw = none
    · rw [hacc, none_or] at hne
      exact h.last [] p rest rfl hne q hq
    · exact h.ended hacc q (mem_cons_of_mem _ hq)
  · exact hsame.metadata
  · exact hsame.usage

/-- The rest of the chunks, and what is known, make the whole. -/
structure ChunksAhead (whole : ResultParts) (cs : List ChunkPiece) (acc : ChatAccumulator) : Prop where
  choice : Ahead whole (cs.flatMap ChunkPiece.pieces) acc
  id : Agrees whole.metadata.id (acc.metadata.id :: cs.map fun c => c.metadata.id)
  model : Agrees whole.metadata.model (acc.metadata.model :: cs.map fun c => c.metadata.model)
  systemFingerprint : Agrees whole.metadata.systemFingerprint
    (acc.metadata.systemFingerprint :: cs.map fun c => c.metadata.systemFingerprint)
  usage : Agrees whole.usage (acc.usage :: cs.map ChunkPiece.usage)

theorem Ahead.steps {ps later : List Piece} (hmax : ∀ w ∈ whole.calls, w.args.length ≤ maxArgs)
    (h : Ahead whole (ps ++ later) acc) :
    ∃ pieces mid, Steps (PieceStep maxArgs) acc ps pieces mid ∧ Ahead whole later mid ∧
      mid.metadata = acc.metadata ∧ mid.usage = acc.usage := by
  have hsteps := Steps.exists_of (R := PieceStep maxArgs)
    (J := fun s ps => Ahead whole (ps ++ later) s ∧ s.metadata = acc.metadata ∧ s.usage = acc.usage)
    (fun s p ps hJ => by
      obtain ⟨events, s', hstep, hnext, hmeta, husage⟩ := hJ.1.step hmax
      exact ⟨events, s', hstep, hnext, hmeta.trans hJ.2.1, husage.trans hJ.2.2⟩)
    ⟨h, rfl, rfl⟩
  obtain ⟨pieces, mid, hsteps, hend, hmeta, husage⟩ := hsteps
  exact ⟨pieces, mid, hsteps, hend, hmeta, husage⟩

theorem Ahead.congr (h : Ahead whole rest acc) (htext : acc'.text = acc.text)
    (hreasoning : acc'.reasoning = acc.reasoning) (hrefusal : acc'.refusal = acc.refusal)
    (hcalls : acc'.calls = acc.calls) (hraw : acc'.raw = acc.raw) : Ahead whole rest acc' :=
  ⟨htext ▸ h.text, hreasoning ▸ h.reasoning, hrefusal ▸ h.refusal, h.calls.congr hcalls, hraw ▸ h.finish, h.last,
    fun hne => h.ended (hraw ▸ hne)⟩

variable {cs : List ChunkPiece}

/-- The next chunk is accepted, and what follows it is still ahead. -/
theorem ChunksAhead.step {c : ChunkPiece} (hmax : ∀ w ∈ whole.calls, w.args.length ≤ maxArgs)
    (h : ChunksAhead whole (c :: cs) acc) :
    ∃ events acc', ChunkStep maxArgs acc c events acc' ∧ ChunksAhead whole cs acc' := by
  have hchoice : Ahead whole (c.pieces ++ cs.flatMap ChunkPiece.pieces)
      { acc with metadata := acc.metadata.or c.metadata } := h.choice.congr rfl rfl rfl rfl rfl
  obtain ⟨pieces, mid, hsteps, hlater, hmeta, husage⟩ := hchoice.steps hmax
  refine ⟨_, _, ⟨pieces, mid, hsteps, rfl, rfl⟩, hlater.congr rfl rfl rfl rfl rfl, ?_, ?_, ?_, ?_⟩
  · show Agrees _ (mid.metadata.id :: _)
    rw [hmeta]
    exact h.id.or
  · show Agrees _ (mid.metadata.model :: _)
    rw [hmeta]
    exact h.model.or
  · show Agrees _ (mid.metadata.systemFingerprint :: _)
    rw [hmeta]
    exact h.systemFingerprint.or
  · show Agrees _ (c.usage.or mid.usage :: _)
    rw [husage]
    exact h.usage.swap.or

theorem Cuts.ahead (h : Cuts whole cs) : ChunksAhead whole cs {} where
  choice := {
    text := h.choice.text
    reasoning := h.choice.reasoning
    refusal := h.choice.refusal
    calls := {
      nodup := nodup_nil
      known := fun _ hi => absurd hi not_mem_nil
      index := h.choice.calls.index
      args := h.choice.calls.args
      id := fun i w hw => (h.choice.calls.id i w hw).start
      name := fun i w hw => (h.choice.calls.name i w hw).start }
    finish := h.choice.finish.start
    last := h.choice.last
    ended := fun hne => absurd rfl hne }
  id := h.id.start
  model := h.model.start
  systemFingerprint := h.systemFingerprint.start
  usage := h.usage.start

/-! ### The end of the stream -/

/-- The calls of a body are numbered in their order, and have an id and a name. -/
def Numbered (ws : List RawCall) : Prop :=
  ∀ (i : ℕ) (w : RawCall), ws[i]? = some w → w.index = i ∧ w.id ≠ none ∧ w.name ≠ none

theorem bodyCall_index {k : ℕ} {tc : Body} {w : RawCall} (h : bodyCall k tc = .ok w) :
    w.index = k ∧ w.id ≠ none ∧ w.name ≠ none := by
  unfold bodyCall at h
  split at h
  · cases h
  split at h
  · cases h
  split at h
  · split at h
    · cases h
    · cases h
      exact ⟨rfl, some_ne_none _, some_ne_none _⟩
  · cases h

theorem bodyCalls_index {k : ℕ} {tcs : List Body} (h : bodyCalls k tcs = .ok ws) :
    ∀ (i : ℕ) (w : RawCall), ws[i]? = some w → w.index = k + i ∧ w.id ≠ none ∧ w.name ≠ none := by
  induction tcs generalizing k ws with
  | nil =>
    cases h
    intro i w hw
    simp at hw
  | cons tc tcs ih =>
    unfold bodyCalls at h
    cases hcall : bodyCall k tc with
    | error e =>
      rw [hcall] at h
      cases h
    | ok w₀ =>
      rw [hcall] at h
      cases hmore : bodyCalls (k + 1) tcs with
      | error e =>
        rw [hmore] at h
        cases h
      | ok more =>
        rw [hmore] at h
        cases h
        intro i w hw
        cases i with
        | zero =>
          cases hw
          exact bodyCall_index hcall
        | succ i =>
          obtain ⟨hindex, hrest⟩ := ih hmore i w hw
          refine ⟨?_, hrest⟩
          omega

theorem bodyToolCalls_numbered {v : Option Body} (h : bodyToolCalls v = .ok ws) : Numbered ws := by
  unfold bodyToolCalls at h
  split at h
  · cases h
    intro i w hw
    simp at hw
  · intro i w hw
    obtain ⟨hindex, hrest⟩ := bodyCalls_index h i w hw
    rw [Nat.zero_add] at hindex
    exact ⟨hindex, hrest⟩
  · cases h

theorem messageParts_numbered {body msg : Fields} {fr : Units} (h : messageParts body msg fr = .ok whole) :
    Numbered whole.calls := by
  unfold messageParts at h
  simp only [bind, Except.bind] at h
  split at h
  · cases h
  split at h
  · cases h
  split at h
  · cases h
  split at h
  · cases h
  next calls hcalls =>
    split at h
    · cases h
    · cases h
      exact bodyToolCalls_numbered hcalls

theorem completionParts_numbered {body : Body} (h : completionParts body = .ok whole) : Numbered whole.calls := by
  unfold completionParts at h
  split at h
  · cases h
  split at h
  · cases h
  split at h
  · unfold choiceParts at h
    split at h
    · cases h
    split at h
    · cases h
    split at h
    · cases h
    · exact messageParts_numbered h
  · cases h

/-- The call at an index is in the list, or new. -/
theorem callAt_mem (h : (acc.callAt i).id ≠ none) : acc.callAt i ∈ acc.calls := by
  unfold ChatAccumulator.callAt at h ⊢
  cases hfind : acc.calls.find? fun c => c.index = i with
  | none =>
    rw [hfind] at h
    exact absurd rfl h
  | some c => exact mem_of_find?_eq_some hfind

variable {c : RawCall}

theorem callAt_of_mem (hnodup : (acc.calls.map RawCall.index).Nodup) (hc : c ∈ acc.calls) :
    acc.callAt c.index = c := by
  unfold ChatAccumulator.callAt
  cases hfind : acc.calls.find? fun c' => c'.index = c.index with
  | none => exact absurd (List.find?_eq_none.mp hfind c hc) (by simp)
  | some c' =>
    have hindex : c'.index = c.index := by simpa using List.find?_some hfind
    exact inj_on_of_nodup_map hnodup (mem_of_find?_eq_some hfind) hc hindex

/-- When nothing is ahead the calls are the whole ones, in their order. -/
theorem CallsAhead.sorted (hws : Numbered ws) (h : CallsAhead ws [] acc) : acc.sorted = ws := by
  have hat : ∀ i w, ws[i]? = some w → acc.callAt i = w := by
    intro i w hw
    obtain ⟨hindex, -⟩ := hws i w hw
    have hargs := h.args i w hw
    have hid := (h.id i w hw).eq
    have hname := (h.name i w hw).eq
    change _ ++ [] = _ at hargs
    rw [append_nil] at hargs
    have hi := callAt_index acc i
    cases hc : acc.callAt i with
    | mk index id name args =>
      rw [hc] at hargs hid hname hi
      cases w with
      | mk index' id' name' args' => simp_all
  have hmem : ∀ c, c ∈ acc.calls ↔ c ∈ ws := by
    intro c
    constructor
    · intro hc
      have hlt := h.known c.index (mem_map.mpr ⟨c, hc, rfl⟩)
      rw [← callAt_of_mem h.nodup hc, hat _ _ (List.getElem?_eq_getElem hlt)]
      exact getElem_mem hlt
    · intro hc
      obtain ⟨i, hi⟩ := mem_iff_getElem?.mp hc
      have hfound := hat i c hi
      rw [← hfound]
      refine callAt_mem ?_
      rw [hfound]
      exact (hws i c hi).2.1
  have hsorted : ws.Pairwise fun a b => a.index < b.index := by
    rw [pairwise_iff_getElem]
    intro i j hi hj hij
    rw [(hws i _ (List.getElem?_eq_getElem hi)).1, (hws j _ (List.getElem?_eq_getElem hj)).1]
    exact hij
  have hperm : acc.calls.Perm ws := by
    refine (perm_ext_iff_of_nodup (List.Nodup.of_map _ h.nodup) ?_).mpr hmem
    exact hsorted.imp fun hlt heq => absurd (congrArg RawCall.index heq) (Nat.ne_of_lt hlt)
  unfold ChatAccumulator.sorted
  have honly : ∀ a b, a ∈ acc.calls.mergeSort (fun a b => a.index ≤ b.index) → b ∈ ws → a.index ≤ b.index →
      b.index ≤ a.index → a = b := by
    intro a b ha hb hab hba
    have ha' : a ∈ ws := ((mergeSort_perm _ _).trans hperm).mem_iff.mp ha
    obtain ⟨i, hi⟩ := mem_iff_getElem?.mp ha'
    obtain ⟨j, hj⟩ := mem_iff_getElem?.mp hb
    have hij : i = j := by
      have hai := (hws i a hi).1
      have hbj := (hws j b hj).1
      omega
    subst hij
    exact Option.some.inj (hi.symm.trans hj)
  have hms : (acc.calls.mergeSort fun a b => a.index ≤ b.index).Pairwise fun a b => decide (a.index ≤ b.index) = true :=
    pairwise_mergeSort (fun a b c hab hbc => by simp_all; omega) (fun a b => by simp; omega) acc.calls
  exact List.Perm.eq_of_pairwise honly (hms.imp fun hle => by simpa using hle) (hsorted.imp Nat.le_of_lt)
    ((mergeSort_perm _ _).trans hperm)

theorem ChunksAhead.parts (hws : Numbered whole.calls) (h : ChunksAhead whole [] acc) :
    acc.raw = some whole.rawFinish ∧ acc.parts whole.rawFinish = whole := by
  refine ⟨h.choice.finish.eq, ?_⟩
  have htext := h.choice.text
  have hreasoning := h.choice.reasoning
  have hrefusal := h.choice.refusal
  simp only [flatMap_nil, map_nil, flatten_nil, append_nil] at htext hreasoning hrefusal
  unfold ChatAccumulator.parts
  rw [htext, hreasoning, hrefusal, h.choice.calls.sorted hws, h.usage.eq]
  have hmeta : acc.metadata = whole.metadata := by
    have hid := h.id.eq
    have hmodel := h.model.eq
    have hprint := h.systemFingerprint.eq
    cases hm : acc.metadata with
    | mk id model print =>
      rw [hm] at hid hmodel hprint
      cases hw : whole.metadata with
      | mk id' model' print' => simp_all
  rw [hmeta]

variable {chunks : List Body}

/-- A stream cut from an answer is accepted, and ends with what the body says. -/
theorem pushAll_cut (hmax : ∀ w ∈ whole.calls, w.args.length ≤ maxArgs) (hws : Numbered whole.calls)
    (h : CutOf whole chunks) :
    ∃ events acc, pushAll maxArgs chunks {} = (.ok events, acc) ∧ acc.raw = some whole.rawFinish ∧
      acc.parts whole.rawFinish = whole := by
  have hstep : ∀ s chunk b t, push maxArgs chunk s = (.ok b, t) ↔
      ∃ c, decodeChunk chunk = some c ∧ ChunkStep maxArgs s c b t := fun _ _ _ _ => push_eq_ok
  obtain ⟨cs, hcs, hcuts⟩ := h
  obtain ⟨events, acc, hsteps, hend⟩ := Steps.exists_of (R := ChunkStep maxArgs) (J := fun s cs => ChunksAhead whole cs s)
    (fun s c cs hJ => hJ.step hmax) hcuts.ahead
  obtain ⟨hraw, hparts⟩ := hend.parts hws
  refine ⟨events.flatten, acc, ?_, hraw, hparts⟩
  refine Prog.bind_eq_ok.mpr ⟨events, acc, Prog.traverse_eq_ok.mpr ?_, Prog.pure_eq_ok.mpr ⟨rfl, rfl⟩⟩
  exact (Steps.decoded hstep).mpr ⟨cs, hcs, hsteps⟩

/-- What the events of a stream that is accepted say. -/
theorem pushAll_events {events : List ChatEvent} (h : pushAll maxArgs chunks {} = (.ok events, acc)) :
    acc.text = (events.filterMap ChatEvent.text).flatten ∧
      (∀ c ∈ acc.calls, c.args = (events.filterMap (ChatEvent.delta c.index)).flatten ∧
        (events.filterMap ChatEvent.start).count c.index = 1) ∧
      Announced events ∧ (events.filterMap ChatEvent.finished).length ≤ 1 ∧
      ∀ pre reason raw post, events = pre ++ .finish reason raw :: post → post = [] := by
  -- What is said before the reason to finish is all that is said.
  have hcalls : ∀ log, Streaming acc log → ∀ c ∈ acc.calls,
      c.args = (log.filterMap (ChatEvent.delta c.index)).flatten ∧ (log.filterMap ChatEvent.start).count c.index = 1 := by
    intro log hs c hc
    constructor
    · rw [← hs.args, callAt_of_mem hs.nodup hc]
    · rw [hs.starts]
      exact count_eq_one_of_mem hs.nodup (mem_map.mpr ⟨c, hc, rfl⟩)
  obtain ⟨-, hs⟩ | ⟨fr, log, -, rfl, hs⟩ := pushAll_folded h
  · refine ⟨hs.text, hcalls events hs, hs.announced, ?_, ?_⟩
    · rw [hs.finished]
      exact Nat.zero_le 1
    · rintro pre reason raw post rfl
      have hno := hs.finished
      simp [ChatEvent.finished] at hno
  · refine ⟨?_, fun c hc => ?_, ?_, ?_, ?_⟩
    · have hno : [ChatEvent.finish (normaliseFinish fr) fr].filterMap ChatEvent.text = [] := rfl
      rw [filterMap_append, hno, append_nil]
      exact hs.text
    · have hno : ∀ i, [ChatEvent.finish (normaliseFinish fr) fr].filterMap (ChatEvent.delta i) = [] := fun _ => rfl
      have hno' : [ChatEvent.finish (normaliseFinish fr) fr].filterMap ChatEvent.start = [] := rfl
      rw [filterMap_append, filterMap_append, hno, hno', append_nil, append_nil]
      exact hcalls log hs c hc
    · exact announced_of_no_delta hs.announced fun i args hmem => by simp at hmem
    · simp [hs.finished, ChatEvent.finished]
    · intro pre reason raw post heq
      obtain ⟨mid, rfl, hlast⟩ | ⟨mid, hlog, hlast⟩ := append_eq_append_iff.mp heq
      · rw [singleton_eq_append_iff] at hlast
        simp_all
      · cases mid with
        | nil =>
          rw [nil_append] at hlast
          exact (List.cons.inj hlast).2
        | cons e mid =>
          obtain ⟨rfl, -⟩ := List.cons.inj hlast
          have hno := hs.finished
          rw [hlog] at hno
          simp [ChatEvent.finished] at hno

theorem mem_sorted : c ∈ acc.sorted ↔ c ∈ acc.calls := (mergeSort_perm _ _).mem_iff

/-- However an answer was cut, the stream is accepted and ends as the whole body does; and
however a stream came about, its events say what it ends with. A chunk that names more than
1024 calls does not decode, so an answer with more is cut by no stream. -/
theorem streamed_as_whole (maxArgs : ℕ) (calls : Calls) :
    (∀ body whole chunks, completionParts body = .ok whole → (∀ w ∈ whole.calls, w.args.length ≤ maxArgs) →
      CutOf whole chunks → ∃ events acc, pushAll maxArgs chunks {} = (.ok events, acc) ∧
        acc.finish calls = parseCompletion calls body) ∧
    ∀ chunks events acc, pushAll maxArgs chunks {} = (.ok events, acc) →
      acc.snapshot.text = (events.filterMap ChatEvent.text).flatten ∧
      (∀ r, acc.finish calls = .ok r → r.text = (events.filterMap ChatEvent.text).flatten) ∧
      (∀ c ∈ acc.snapshot.toolCalls, c.args = (events.filterMap (ChatEvent.delta c.index)).flatten ∧
        (events.filterMap ChatEvent.start).count c.index = 1) ∧
      Announced events ∧ (events.filterMap ChatEvent.finished).length ≤ 1 ∧
      ∀ pre reason raw post, events = pre ++ .finish reason raw :: post → post = [] := by
  constructor
  · intro body whole chunks hbody hmax hcut
    obtain ⟨events, acc, hpush, hraw, hparts⟩ := pushAll_cut hmax (completionParts_numbered hbody) hcut
    refine ⟨events, acc, hpush, ?_⟩
    unfold ChatAccumulator.finish parseCompletion
    rw [hraw, hbody]
    show buildResult calls (acc.parts whole.rawFinish) = _
    rw [hparts]
    rfl
  · intro chunks events acc h
    obtain ⟨htext, hargs, hannounced, hone, hlast⟩ := pushAll_events h
    refine ⟨htext, fun r hr => ?_, fun c hc => hargs c (mem_sorted.mp hc), hannounced, hone, hlast⟩
    unfold ChatAccumulator.finish at hr
    split at hr
    · cases hr
    · unfold buildResult at hr
      simp only [bind, Except.bind] at hr
      split at hr
      · cases hr
      · cases hr
        exact htext

/-- An answer with one call, and a stream that cuts its text and its arguments. -/
def exampleBody : Body :=
  .obj [("choices", .arr [.obj [("message", .obj [("content", .str (units "ab")), ("tool_calls", .arr [.obj
    [("id", .str (units "i")), ("function", .obj [("name", .str (units "f")), ("arguments", .str (units "12"))])]])]),
    ("finish_reason", .str (units "stop"))]])]

def exampleParts : ResultParts :=
  ⟨units "ab", [], [], [⟨0, some (units "i"), some (units "f"), units "12"⟩], units "stop", none, {}⟩

def exampleChunks : List Body :=
  [.obj [("choices", .arr [.obj [("delta", .obj [("content", .str (units "a")), ("tool_calls", .arr [.obj
      [("index", .num (.int 0)), ("id", .str (units "i")), ("function", .obj [("name", .str (units "f")),
        ("arguments", .str (units "1"))])]])])]])],
    .obj [("choices", .arr [.obj [("delta", .obj [("content", .str (units "b")), ("tool_calls", .arr [.obj
      [("index", .num (.int 0)), ("function", .obj [("arguments", .str (units "2"))])]])])]])],
    .obj [("choices", .arr [.obj [("index", .num (.int 0)), ("finish_reason", .str (units "stop"))]])]]

def exampleCut : List ChunkPiece :=
  [{ pieces := [{ content := units "a", calls := [⟨0, some (units "i"), some (units "f"), some (units "1")⟩] }] },
    { pieces := [{ content := units "b", calls := [⟨0, none, none, some (units "2")⟩] }] },
    { pieces := [{ finish := some (units "stop") }] }]

theorem exampleChunks_cut : CutOf exampleParts exampleChunks := by
  have hcalls : ∀ i w, exampleParts.calls[i]? = some w → i = 0 ∧ w = ⟨0, some (units "i"), some (units "f"), units "12"⟩ := by
    intro i w hw
    cases i with
    | zero =>
      cases hw
      exact ⟨rfl, rfl⟩
    | succ i => cases hw
  have hlast : FinishLast (exampleCut.flatMap ChunkPiece.pieces) := by
    intro pre p post heq hfinish
    cases pre with
    | nil =>
      obtain ⟨rfl, -⟩ := List.cons.inj heq
      exact absurd rfl hfinish
    | cons _ pre =>
      cases pre with
      | nil =>
        obtain ⟨rfl, -⟩ := List.cons.inj (List.cons.inj heq).2
        exact absurd rfl hfinish
      | cons _ pre =>
        have hrest := (List.cons.inj (List.cons.inj heq).2).2
        have hlen : 1 = (pre ++ p :: post).length := congrArg List.length hrest
        rw [length_append, length_cons] at hlen
        have hpost : post = [] := length_eq_zero_iff.mp (by omega)
        intro q hq
        rw [hpost] at hq
        exact absurd hq not_mem_nil
  refine ⟨exampleCut, rfl, ⟨rfl, rfl, rfl, ⟨by decide, ?_, ?_, ?_⟩, ⟨by decide, by decide⟩, hlast⟩,
    ⟨by decide, by decide⟩, ⟨by decide, by decide⟩, ⟨by decide, by decide⟩, ⟨by decide, by decide⟩⟩
  · intro i w hw
    obtain ⟨rfl, rfl⟩ := hcalls i w hw
    rfl
  · intro i w hw
    obtain ⟨rfl, rfl⟩ := hcalls i w hw
    exact ⟨by decide, by decide⟩
  · intro i w hw
    obtain ⟨rfl, rfl⟩ := hcalls i w hw
    exact ⟨by decide, by decide⟩

theorem streamed_as_whole_example : ∃ events acc, pushAll 2 exampleChunks {} = (.ok events, acc) ∧
      acc.finish ⟨fun _ => .error "", fun _ => [], none, []⟩ =
        parseCompletion ⟨fun _ => .error "", fun _ => [], none, []⟩ exampleBody ∧
      Announced events := by
  have hall := streamed_as_whole 2 ⟨fun _ => .error "", fun _ => [], none, []⟩
  obtain ⟨events, acc, hpush, hfinish⟩ := hall.1 exampleBody exampleParts exampleChunks rfl (by decide) exampleChunks_cut
  exact ⟨events, acc, hpush, hfinish, (hall.2 _ _ _ hpush).2.2.2.1⟩

end Plur1bus.Providers
