import Mathlib.Data.List.Nodup
import Plur1bus.Providers.Pieces

/-!
What the events of a stream say. However a stream was cut, its text is what its text events
say in turn, and the arguments of a call are what its events say; a call is announced once and
before anything is added to it, and nothing comes after the reason to finish.
-/

namespace Plur1bus.Providers

open Program Value List

/-- The chunks of a stream, in their order. -/
def pushAll (maxArgs : ℕ) (chunks : List Body) : Step (List ChatEvent) := do
  let events ← Prog.traverse (push maxArgs) chunks
  pure events.flatten

def ChatEvent.text : ChatEvent → Option Units
  | .textDelta text => some text
  | _ => none

def ChatEvent.delta (i : ℕ) : ChatEvent → Option Units
  | .toolCallDelta index args => if index = i then some args else none
  | _ => none

def ChatEvent.start : ChatEvent → Option ℕ
  | .toolCallStart index _ _ => some index
  | _ => none

def ChatEvent.finished : ChatEvent → Option Units
  | .finish _ raw => some raw
  | _ => none

/-- Nothing is added to a call that was not announced. -/
def Announced (log : List ChatEvent) : Prop :=
  ∀ pre i args post, log = pre ++ .toolCallDelta i args :: post → i ∈ pre.filterMap ChatEvent.start

/-- The accumulator holds what the events so far say, and none of them was the last. -/
structure Streaming (acc : ChatAccumulator) (log : List ChatEvent) : Prop where
  text : acc.text = (log.filterMap ChatEvent.text).flatten
  args : ∀ i, (acc.callAt i).args = (log.filterMap (ChatEvent.delta i)).flatten
  starts : log.filterMap ChatEvent.start = acc.calls.map RawCall.index
  nodup : (acc.calls.map RawCall.index).Nodup
  announced : Announced log
  finished : log.filterMap ChatEvent.finished = []

/-- The reason to finish is the last event, if there was one. -/
def Folded (acc : ChatAccumulator) (log : List ChatEvent) : Prop := (acc.raw = none ∧ Streaming acc log) ∨
    ∃ fr pre, acc.raw = some fr ∧ log = pre ++ [.finish (normaliseFinish fr) fr] ∧ Streaming acc pre

variable {maxArgs : ℕ} {acc acc' : ChatAccumulator} {log events : List ChatEvent}

/-- Only the text and the calls matter. -/
theorem Streaming.congr (h : Streaming acc log) (htext : acc'.text = acc.text) (hcalls : acc'.calls = acc.calls) :
    Streaming acc' log := by
  have hat : ∀ i, acc'.callAt i = acc.callAt i := by
    intro i
    unfold ChatAccumulator.callAt
    rw [hcalls]
  refine ⟨htext.trans h.text, fun i => ?_, ?_, ?_, h.announced, h.finished⟩
  · rw [hat]
    exact h.args i
  · rw [hcalls]
    exact h.starts
  · rw [hcalls]
    exact h.nodup

theorem Folded.congr (h : Folded acc log) (htext : acc'.text = acc.text) (hcalls : acc'.calls = acc.calls)
    (hraw : acc'.raw = acc.raw) : Folded acc' log := by
  obtain ⟨hnone, hs⟩ | ⟨fr, pre, hsome, hlog, hs⟩ := h
  · exact .inl ⟨hraw.trans hnone, hs.congr htext hcalls⟩
  · exact .inr ⟨fr, pre, hraw.trans hsome, hlog, hs.congr htext hcalls⟩

theorem announced_append (h : Announced log)
    (h' : ∀ pre i args post, events = pre ++ .toolCallDelta i args :: post →
      i ∈ (log ++ pre).filterMap ChatEvent.start) : Announced (log ++ events) := by
  intro pre i args post heq
  obtain ⟨mid, rfl, hevents⟩ | ⟨mid, hlog, hpost⟩ := append_eq_append_iff.mp heq
  · exact h' mid i args post hevents
  · cases mid with
    | nil => grind
    | cons e mid =>
      rw [cons_append] at hpost
      obtain ⟨rfl, -⟩ := List.cons.inj hpost
      exact h pre i args mid hlog

theorem announced_of_no_delta (h : Announced log) (hno : ∀ i args, .toolCallDelta i args ∉ events) :
    Announced (log ++ events) := by
  refine announced_append h fun pre i args post heq => absurd ?_ (hno i args)
  rw [heq]
  exact mem_append_right _ mem_cons_self

/-- The texts of a piece are passed on. -/
theorem Streaming.addTexts (h : Streaming acc log) (p : Piece) :
    Streaming (acc.addTexts p) (log ++ p.textEvents) := by
  have hevents : p.textEvents.filterMap ChatEvent.text = (if p.content = [] then [] else [p.content]) ∧
      (∀ i, p.textEvents.filterMap (ChatEvent.delta i) = []) ∧ p.textEvents.filterMap ChatEvent.start = [] ∧
      p.textEvents.filterMap ChatEvent.finished = [] ∧ ∀ i args, ChatEvent.toolCallDelta i args ∉ p.textEvents := by
    unfold Piece.textEvents
    by_cases hc : p.content = []
    · by_cases hr : p.reasoning = []
      · simp [hc, hr]
      · simp [hc, hr, ChatEvent.text, ChatEvent.delta, ChatEvent.start, ChatEvent.finished]
    · by_cases hr : p.reasoning = []
      · simp [hc, hr, ChatEvent.text, ChatEvent.delta, ChatEvent.start, ChatEvent.finished]
      · simp [hc, hr, ChatEvent.text, ChatEvent.delta, ChatEvent.start, ChatEvent.finished]
  obtain ⟨htext, hdelta, hstart, hfinished, hno⟩ := hevents
  refine ⟨?_, fun i => ?_, ?_, h.nodup, announced_of_no_delta h.announced hno, ?_⟩
  · rw [filterMap_append, htext, flatten_append, ← h.text]
    show acc.text ++ p.content = _
    by_cases hc : p.content = []
    · simp [hc]
    · simp [hc]
  · rw [filterMap_append, hdelta, append_nil]
    exact h.args i
  · rw [filterMap_append, hstart, append_nil]
    exact h.starts
  · rw [filterMap_append, hfinished, h.finished]
    rfl

section CallEvents

variable (acc : ChatAccumulator) (p : CallPiece)

theorem callEvents_text : (acc.callEvents p).filterMap ChatEvent.text = [] := by
  simp_all [ChatEvent.text, Program.Units, ChatAccumulator.callEvents]

theorem callEvents_finished : (acc.callEvents p).filterMap ChatEvent.finished = [] := by
  simp_all [ChatEvent.finished, Program.Units, ChatAccumulator.callEvents]

theorem callEvents_start : (acc.callEvents p).filterMap ChatEvent.start =
    if p.index ∈ acc.calls.map RawCall.index then [] else [p.index] := by
  grind [ChatEvent.start, ChatAccumulator.callEvents]

theorem callEvents_delta (i : ℕ) : ((acc.callEvents p).filterMap (ChatEvent.delta i)).flatten =
    if p.index = i then p.args.getD [] else [] := by
  unfold ChatAccumulator.callEvents
  by_cases hi : p.index = i
  · by_cases hk : p.index ∈ acc.calls.map RawCall.index
    · by_cases ha : p.args.getD [] = [] <;> simp [ha, hi, ChatEvent.delta]
    · by_cases ha : p.args.getD [] = [] <;> simp [ha, hi, ChatEvent.delta]
  · by_cases hk : p.index ∈ acc.calls.map RawCall.index
    · by_cases ha : p.args.getD [] = [] <;> simp [hk, ha, hi, ChatEvent.delta]
    · by_cases ha : p.args.getD [] = [] <;> simp [hk, ha, hi, ChatEvent.delta]

/-- A call is announced before anything is added to it. -/
theorem callEvents_announced {pre post : List ChatEvent} {i : ℕ} {args : Units}
    (h : acc.callEvents p = pre ++ .toolCallDelta i args :: post) :
    i = p.index ∧ (p.index ∈ acc.calls.map RawCall.index ∨ p.index ∈ pre.filterMap ChatEvent.start) := by
  unfold ChatAccumulator.callEvents at h
  dsimp only at h
  by_cases hk : p.index ∈ acc.calls.map RawCall.index
  · refine ⟨?_, .inl hk⟩
    by_cases ha : p.args.getD [] = []
    · simp [hk, ha] at h
    · rw [if_pos hk, if_neg ha, nil_append, singleton_eq_append_iff] at h
      simp_all
  · by_cases ha : p.args.getD [] = []
    · rw [if_neg hk, if_pos ha, append_nil, singleton_eq_append_iff] at h
      simp at h
    · rw [if_neg hk, if_neg ha] at h
      cases pre with
      | nil =>
        rw [nil_append, singleton_append] at h
        cases h
      | cons e pre =>
        rw [cons_append, cons_append, nil_append] at h
        obtain ⟨rfl, hrest⟩ := List.cons.inj h
        rw [singleton_eq_append_iff] at hrest
        refine ⟨?_, .inr ?_⟩
        · simp_all
        · simp [ChatEvent.start]

end CallEvents

/-- What is added to a call is passed on, after the call was announced. -/
theorem Streaming.addCall (h : Streaming acc log) (p : CallPiece) :
    Streaming (acc.addCall p) (log ++ acc.callEvents p) := by
  have hindex : ((acc.callAt p.index).merge p).index = p.index := callAt_index acc p.index
  have hindices : (acc.addCall p).calls.map RawCall.index =
      if p.index ∈ acc.calls.map RawCall.index then acc.calls.map RawCall.index
      else acc.calls.map RawCall.index ++ [p.index] := by
    show (setCall _ acc.calls).map RawCall.index = _
    rw [map_index_setCall, hindex]
  refine ⟨?_, fun i => ?_, ?_, ?_, announced_append h.announced ?_, ?_⟩
  · rw [filterMap_append, callEvents_text, append_nil]
    exact h.text
  · rw [filterMap_append, flatten_append, callEvents_delta, ← h.args i]
    by_cases hi : p.index = i
    · subst hi
      rw [if_pos rfl, callAt_addCall]
      rfl
    · rw [if_neg hi, append_nil]
      exact congrArg RawCall.args (callAt_write_ne acc (hindex.trans_ne hi))
  · rw [filterMap_append, callEvents_start, h.starts, hindices]
    split
    · rw [append_nil]
    · rfl
  · rw [hindices]
    split
    · exact h.nodup
    next hnew =>
      rw [nodup_append]
      refine ⟨h.nodup, nodup_singleton _, ?_⟩
      rintro a ha b hb rfl
      rw [mem_singleton.mp hb] at ha
      exact hnew ha
  · intro pre i args post heq
    obtain ⟨rfl, hknown⟩ := callEvents_announced acc p heq
    rw [filterMap_append, mem_append, h.starts]
    exact hknown
  · rw [filterMap_append, callEvents_finished, h.finished]
    rfl

/-- What is left of a piece once the stream has finished. -/
theorem PieceStep.finished {p : Piece} {fr : Units} (h : PieceStep maxArgs acc p events acc')
    (hraw : acc.raw = some fr) : events = [] ∧ acc' = acc := by
  obtain ⟨calls, mid, hempty, -, hsteps, rfl, rfl⟩ := h
  obtain ⟨hc, hrefusal, hr, hcalls⟩ := hempty (by simp [hraw])
  have hsame : acc.addTexts p = acc := by simp [ChatAccumulator.addTexts, hc, hr, hrefusal]
  rw [hcalls, hsame] at hsteps
  cases hsteps
  refine ⟨?_, addFinish_of_raw hraw _⟩
  simp [Piece.textEvents, hc, hr, ChatAccumulator.finishEvents, hraw]

/-- The invariant of a stream, piece by piece. -/
theorem Folded.piece {p : Piece} (hstep : PieceStep maxArgs acc p events acc') (h : Folded acc log) :
    Folded acc' (log ++ events) := by
  obtain ⟨hraw, hs⟩ | ⟨fr, pre, hraw, rfl, hs⟩ := h
  · obtain ⟨calls, mid, -, -, hsteps, rfl, rfl⟩ := hstep
    have hmid : Streaming mid (log ++ p.textEvents ++ calls.flatMap id) :=
      hsteps.keeps (I := Streaming) (f := id)
        (fun s c b t log hc hI => by
          rw [hc.after, hc.events_eq]
          exact hI.addCall c)
        (hs.addTexts p)
    rw [flatMap_id] at hmid
    have hmidraw : mid.raw = none := (raw_of_steps hsteps).trans hraw
    cases hfr : p.finish with
    | none =>
      refine .inl ⟨?_, ?_⟩
      · simp [ChatAccumulator.addFinish, hmidraw]
      · have hno : mid.finishEvents none = [] := by simp [ChatAccumulator.finishEvents, hmidraw]
        rw [hno, append_nil, ← append_assoc]
        exact hmid.congr rfl rfl
    | some fr =>
      refine .inr ⟨fr, log ++ p.textEvents ++ calls.flatten, ?_, ?_, hmid.congr rfl rfl⟩
      · simp [ChatAccumulator.addFinish, hmidraw]
      · simp [ChatAccumulator.finishEvents, hmidraw]
  · obtain ⟨rfl, rfl⟩ := hstep.finished hraw
    rw [append_nil]
    exact .inr ⟨fr, pre, hraw, rfl, hs⟩

theorem Folded.chunk {c : ChunkPiece} (hstep : ChunkStep maxArgs acc c events acc') (h : Folded acc log) :
    Folded acc' (log ++ events) := by
  obtain ⟨pieces, mid, hsteps, rfl, rfl⟩ := hstep
  have hmid : Folded mid (log ++ pieces.flatMap id) :=
    hsteps.keeps (I := Folded) (f := id) (fun s p b t log hp hI => hI.piece hp)
      (h.congr rfl rfl rfl)
  rw [flatMap_id] at hmid
  exact hmid.congr rfl rfl rfl

/-- The invariant of a stream that is accepted. -/
theorem pushAll_folded {chunks : List Body} (h : pushAll maxArgs chunks {} = (.ok events, acc)) :
    Folded acc events := by
  obtain ⟨pieces, mid, htraverse, h⟩ := Prog.bind_eq_ok.mp h
  obtain ⟨rfl, rfl⟩ := Prog.pure_eq_ok.mp h
  have hstart : Folded {} [] :=
    .inl ⟨rfl, rfl, fun _ => rfl, rfl, nodup_nil, fun pre i args post heq => (by simp at heq), rfl⟩
  have hend : Folded mid ([] ++ pieces.flatMap id) :=
    (Prog.traverse_eq_ok.mp htraverse).keeps (I := Folded) (f := id)
      (fun s chunk b t log hpush hI => by
        obtain ⟨c, -, hc⟩ := push_eq_ok.mp hpush
        exact hI.chunk hc) hstart
  rw [flatMap_id, nil_append] at hend
  exact hend

end Plur1bus.Providers
