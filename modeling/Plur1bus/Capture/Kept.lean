import Plur1bus.Capture.Journal
import Plur1bus.Program.Lines
import Plur1bus.Program.Runs

/-!
Which lines of the journal survive. Every line whose append completed is in a file
the core has not read to its end, or among the lines it keeps of the one it has, or
a capture of it has been handled. Two things break this. A process whose handle
followed the file across the rename writes to it after the core has come to its end,
and the line is removed with the file. And a line is written where another is not
ended: an appender looked at the end of the file before another was cut off there,
or the core appends what it keeps without looking.
-/

namespace Plur1bus.Capture

open Program List
open Utf8 (bytes lossy)

/-! ### Lines of a file -/

/-- A new line can begin at the end. -/
def AtLineStart (b : List UInt8) : Prop := b = [] ∨ b.getLast? = some NL

instance (b : List UInt8) : Decidable (AtLineStart b) := inferInstanceAs (Decidable (_ ∨ _))

/-- The line stands in the file as a whole line of its own. -/
def HasLine (b l : List UInt8) : Prop := ∃ before after, b = before ++ l ++ NL :: after ∧ AtLineStart before

variable {b l : List UInt8}

theorem HasLine.append (h : HasLine b l) (x : List UInt8) : HasLine (b ++ x) l := by
  obtain ⟨before, after, rfl, hstart⟩ := h
  exact ⟨before, after ++ x, by simp, hstart⟩

theorem HasLine.of_prefix {b' : List UInt8} (h : HasLine b l) (hb : b <+: b') : HasLine b' l := by
  obtain ⟨x, rfl⟩ := hb
  exact h.append x

theorem atLineStart_snoc (b : List UInt8) : AtLineStart (b ++ [NL]) := .inr List.getLast?_concat

theorem hasLine_payload {gluing : Bool} (line : JournalLine) (h : AtLineStart b ∨ gluing = true) :
    HasLine (b ++ World.payload gluing line) line.raw := by
  cases gluing with
  | true => exact ⟨b ++ [NL], [], by simp [World.payload], atLineStart_snoc b⟩
  | false => exact ⟨b, [], by simp [World.payload], h.resolve_right nofun⟩

theorem atLineStart_content (h : AtLineStart b) (ls : List (List UInt8)) :
    AtLineStart (b ++ Lines.content NL ls) := by
  rcases eq_nil_or_concat ls with rfl | ⟨ls, l, rfl⟩
  · simpa using h
  · rw [concat_eq_append, Lines.content_snoc, ← append_assoc]
    exact atLineStart_snoc _

variable {ls : List (List UInt8)}

theorem hasLine_content (h : AtLineStart b) (hl : l ∈ ls) : HasLine (b ++ Lines.content NL ls) l := by
  obtain ⟨xs, ys, rfl⟩ := append_of_mem hl
  refine ⟨b ++ Lines.content NL xs, Lines.content NL ys, ?_, atLineStart_content h xs⟩
  simp [Lines.content_cons]

/-- What ends where a line can begin is complete lines. -/
theorem AtLineStart.content (h : AtLineStart b) : ∃ ls, b = Lines.content NL ls ∧ ∀ l ∈ ls, NL ∉ l := by
  obtain ⟨ls, frag, rfl, hls, hfrag⟩ := Lines.exists_content NL b
  rcases eq_nil_or_concat frag with rfl | ⟨frag, x, rfl⟩
  · exact ⟨ls, append_nil _, hls⟩
  · exfalso
    rw [concat_eq_append] at h hfrag
    obtain h | h := h
    · simp at h
    · rw [← append_assoc, List.getLast?_concat] at h
      cases h
      exact hfrag (by simp)

/-- The lines of a file are those it is made of. -/
theorem HasLine.mem {frag : List UInt8} (hls : ∀ l ∈ ls, NL ∉ l) (hfrag : NL ∉ frag) (hl : NL ∉ l)
    (h : HasLine (Lines.content NL ls ++ frag) l) : l ∈ ls := by
  obtain ⟨before, after, heq, hstart⟩ := h
  obtain ⟨xs, rfl, hxs⟩ := hstart.content
  obtain ⟨ys, frag', rfl, hys, hfrag'⟩ := Lines.exists_content NL after
  have hother : Lines.content NL ls ++ frag = Lines.content NL (xs ++ l :: ys) ++ frag' := by
    rw [heq]
    simp [Lines.content_cons]
  have hnew : ∀ x ∈ xs ++ l :: ys, NL ∉ x := by grind
  have hsplit := congrArg (List.splitOn NL) hother
  rw [Lines.splitOn_content_append hls hfrag, Lines.splitOn_content_append hnew hfrag'] at hsplit
  obtain ⟨rfl, -⟩ := append_inj' hsplit rfl
  simp

/-! ### Journal lines -/

theorem mem_bytes_newline {cs : List Char} (h : NL ∈ bytes cs) : '\n' ∈ cs := by
  obtain ⟨c, hc, hb⟩ := mem_flatMap.mp h
  by_cases hascii : c.toNat < 128
  · rw [Utf8.encode_ascii hascii, mem_singleton] at hb
    have hnat := congrArg UInt8.toNat hb
    rw [UInt8.toNat_ofNat', Nat.mod_eq_of_lt (by omega)] at hnat
    obtain rfl : '\n' = c := Char.toNat_inj.mp hnat
    exact hc
  · have hwide := Utf8.encode_wide (by omega) NL hb
    exact absurd hwide (by decide)

namespace JournalLine

variable (l : JournalLine)

theorem raw_oneLine : NL ∉ l.raw := fun h => l.oneLine (mem_bytes_newline h)

theorem lossy_raw : bytes (lossy l.raw) = l.raw := by
  unfold raw
  rw [Utf8.lossy_bytes]

theorem raw_notBlank : isBlank l.raw = false := by
  obtain ⟨cs, hcs⟩ : ∃ cs, l.text = '\x7b' :: cs := by
    have hobject := l.object
    cases htext : l.text with
    | nil =>
      rw [htext] at hobject
      cases hobject
    | cons c cs =>
      rw [htext] at hobject
      cases hobject
      exact ⟨cs, rfl⟩
  unfold raw isBlank
  rw [hcs, Utf8.bytes_cons, Utf8.encode_ascii (by decide)]
  rfl

end JournalLine

/-! ### Where a line is -/

/-- The file the call has open. -/
def Call.inode? : Call → Option ℕ
  | .idle => none
  | .opened i _ => some i
  | .looked i _ _ => some i

namespace World

variable {w w' : World} {i : ℕ} {l : List UInt8}

/-- The file has a name. -/
def Reachable (w : World) (i : ℕ) : Prop := w.jsonl = some i ∨ ∃ n, (n, i) ∈ w.replaying

def work? (w : World) : Option Work :=
  match w.core with
  | some (_, .work _ k) => some k
  | _ => none

/-- The core has come to the end of the file, and will remove it. -/
def Ended (w : World) (i : ℕ) : Prop := ∃ k, w.work? = some k ∧ k.stage ≠ .reading ∧ k.inode = i

/-- The line is in a file that will still be read. -/
def Stored (w : World) (l : List UInt8) : Prop := ∃ i, w.Reachable i ∧ ¬w.Ended i ∧ HasLine (w.content i) l

/-- The line is in the file the core has read, and it will be kept. -/
def Held (w : World) (l : List UInt8) : Prop :=
  ∃ k, w.work? = some k ∧ k.stage = .ended ∧ HasLine (w.content k.inode) l ∧ l ∈ k.kept

/-- The names are of different files, and a new file is empty. -/
structure Ok (w : World) : Prop where
  names : (w.replaying.map Prod.fst).Nodup
  apart : ∀ f ∈ w.replaying, w.jsonl ≠ some f.2
  jsonl : ∀ i, w.jsonl = some i → i < w.fresh
  replaying : ∀ f ∈ w.replaying, f.2 < w.fresh
  handles : ∀ cli i, (w.calls cli).inode? = some i → i < w.fresh
  fresh : ∀ i, w.fresh ≤ i → w.content i = []

/-- What the core has read of the file is the lines it has gone through, those it has
yet to go through and the beginning of the next; of the first, each is blank,
handled or kept. -/
def Tracks (w : World) (k : Work) : Prop := ∃ before unread,
    w.content k.inode = (Lines.content NL (before ++ k.pending) ++ k.line) ++ unread ∧
      k.pos = (Lines.content NL (before ++ k.pending) ++ k.line).length ∧
      (∀ raw ∈ before ++ k.pending, NL ∉ raw) ∧ NL ∉ k.line ∧
      ∀ raw ∈ before, isBlank raw = true ∨ raw ∈ w.handled ∨ raw ∈ k.kept ∨ bytes (lossy raw) ∈ k.kept

structure Inv (w : World) : Prop where
  ok : w.Ok
  named : ∀ k, w.work? = some k → (k.name, k.inode) ∈ w.replaying
  tracks : ∀ k, w.work? = some k → k.stage = .reading → w.Tracks k
  secure : ∀ l ∈ w.appended, l.raw ∈ w.handled ∨ w.Stored l.raw ∨ w.Held l.raw

theorem inv_empty : empty.Inv where
  ok := ⟨nodup_nil, nofun, nofun, nofun, nofun, fun _ _ => rfl⟩
  named := nofun
  tracks := nofun
  secure := nofun

/-- Every line whose append completed is handled, or a whole line of its own in the
journal file or a file being replayed. -/
def Kept (w : World) : Prop :=
  ∀ l ∈ w.appended, l.raw ∈ w.handled ∨ ∃ i, w.Reachable i ∧ HasLine (w.content i) l.raw

theorem Inv.kept (h : w.Inv) : w.Kept := by
  intro l hl
  obtain hhandled | ⟨i, hreach, -, hline⟩ | ⟨k, hk, -, hline, -⟩ := h.secure l hl
  · exact .inl hhandled
  · exact .inr ⟨i, hreach, hline⟩
  · exact .inr ⟨k.inode, .inr ⟨k.name, h.named k hk⟩, hline⟩

end World

end Plur1bus.Capture
